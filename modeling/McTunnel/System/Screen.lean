import McTunnel.System.Ping

/-!
# The ping on the screen (`TunnelPing.java`, `PingHudMixin.java`)

About once a second the poller reads which server the player is on, asks the agent
on a connection of its own, and stores what comes back within 3 s, or -1.  The HUD
draws what is stored or, when that is negative, Minecraft's own latency.  Between any
two of the poller's steps the agent's process goes on, and the player may switch.

    what is drawn is Minecraft's latency, or what the agent had measured in the
      last turn of the poller, to the owner of that turn's server      (ping_drawn)
-/

namespace McTunnel

open Clock (Time)

/-! ## The HUD -/

/-- What `PingHudMixin` sees of `MinecraftClient`. -/
structure HudClient where
  /-- `player` is not null -/
  player : Bool
  /-- `getNetworkHandler()` is not null -/
  networkHandler : Bool
  /-- `options.hudHidden`, if there are options -/
  hudHidden : Option Bool
  /-- `getLatency()` of the player's own entry -/
  latency : Option Int

namespace PingHudMixin

/-- The text and the colour. -/
def draw (ping : Int) : String × UInt32 :=
  (String.ofList [Char.ofNat 0x26A1, ' '] ++ toString ping ++ " ms",
    if ping < 80 then 0xFF55FF55 else if ping < 200 then 0xFFFFFF55 else 0xFFFF5555)

def drawPing (client : HudClient) (rttMs : Int) : Option (String × UInt32) :=
  if !client.player || !client.networkHandler then none
  else if client.hudHidden = some true then none
  else
    match client.latency with
    | none => none
    | some latency => some (draw (if 0 ≤ rttMs then rttMs else latency))

end PingHudMixin

theorem drawPing_some (client : HudClient) (rttMs : Int) (drawn : String × UInt32)
    (h : PingHudMixin.drawPing client rttMs = some drawn) :
    (0 ≤ rttMs ∧ drawn = PingHudMixin.draw rttMs) ∨
      ∃ latency, client.latency = some latency ∧ drawn = PingHudMixin.draw latency := by
  unfold PingHudMixin.drawPing at h
  split at h
  · cases h
  · split at h
    · cases h
    · split at h
      · cases h
      · next latency hl =>
        cases h
        by_cases hr : 0 ≤ rttMs
        · rw [if_pos hr]
          exact Or.inl ⟨hr, rfl⟩
        · rw [if_neg hr]
          exact Or.inr ⟨latency, hl, rfl⟩

/-! ## The poller -/

/-- A turn of the poller in `AgentClient.rttMs`. -/
structure PollTurn where
  name : String
  conn : Conn
  /-- the request is written -/
  sent : Bool

section
variable [Libp2p]

/-- The agent's process, the connections to it, and the poller. -/
structure Screen where
  host : Host
  conns : List Conn
  /-- the connections of the poller -/
  own : List Conn
  turn : Option PollTurn
  /-- `TunnelPing.rttMs` -/
  rttMs : Int

inductive ScreenStep
  | host (i : HostStep)
  /-- a turn of the poller begins: `currentTunnelName`, and a connection if there is a name -/
  | ask (mc : Option MinecraftClient) (conn : Conn)
  | send
  /-- the turn ends: the answer has taken so many milliseconds, or something has failed -/
  | store (delay : Option Nat)

def Screen.start (localPeer : Libp2p.PeerId) (token : String) : Screen where
  host := Host.start localPeer token
  conns := []
  own := []
  turn := none
  rttMs := -1

/-- What answers the poller: the agent's first answer on the connection, if there is
one and nothing has failed. -/
def Screen.serving (s : Screen) (port : UInt16) (conn : Conn) (delay : Option Nat) : Serving :=
  fun p =>
    if p = port.toNat then
      match s.host.agent.answered conn with
      | [] => some ⟨fun _ _ => .ok, fun _ => none⟩
      | resp :: _ => some ⟨fun _ _ => resp, fun _ => delay⟩
    else none

end

section
variable [Libp2p] [Crates] [SerdeJson] [Gson] [JavaText.CharacterData]
  (locale : JavaText.JavaLocale) (port : UInt16) (bytes : Vector UInt8 16)

namespace Screen

/-- The line of a turn. -/
def line (t : PollTurn) : String := Request.text ⟨"rtt", t.name, randomToken bytes⟩

/-- What a turn stores that ends in this state. -/
def stored (s : Screen) (t : PollTurn) (delay : Option Nat) : Int :=
  AgentClient.rttMs (endpoint (some (Control.text ⟨port, randomToken bytes⟩)))
    (wireExchange (s.serving port t.conn delay)) t.name

/-- The agent's process and the poller, who reads its port and token from `control.json`. -/
def step (s : Screen) (i : ScreenStep) : Screen :=
  match i with
  | .host (.agent (.line conn text)) =>
    -- nobody else writes on the poller's connections
    if conn ∈ s.own then s
    else { s with host := s.host.step (.agent (.line conn text)), conns := conn :: s.conns }
  | .host i => { s with host := s.host.step i }
  | .ask mc conn =>
    match s.turn, TunnelPing.currentTunnelName locale mc with
    | none, none => { s with rttMs := -1 }
    | none, some name =>
      if conn ∈ s.conns then s
      else
        { s with
          conns := conn :: s.conns
          own := conn :: s.own
          turn := some ⟨name, conn, false⟩ }
    | some _, _ => s
  | .send =>
    match s.turn with
    | some t =>
      -- a longer line is cut off by the agent, and what is left of it is no request
      if t.sent = false ∧ (Text.asBytes (line bytes t)).length ≤ MAX_CONN_BYTES then
        { s with
          host := s.host.step (.agent (.line t.conn (line bytes t)))
          turn := some { t with sent := true } }
      else s
    | none => s
  | .store delay =>
    match s.turn with
    | some t => { s with turn := none, rttMs := s.stored port bytes t delay }
    | none => s

/-- A turn of the poller ends, and `rttMs` is written. -/
def ends (s : Screen) (i : ScreenStep) : Bool :=
  match i, s.turn with
  | .ask mc _, none => (TunnelPing.currentTunnelName locale mc).isNone
  | .store _, some _ => true
  | _, _ => false

/-- What the agent's process does. -/
def takes (s : Screen) (i : ScreenStep) : Option HostStep :=
  match i with
  | .host (.agent (.line conn text)) =>
    if conn ∈ s.own then none else some (.agent (.line conn text))
  | .host i => some i
  | .send =>
    match s.turn with
    | some t =>
      if t.sent = false ∧ (Text.asBytes (line bytes t)).length ≤ MAX_CONN_BYTES then
        some (.agent (.line t.conn (line bytes t)))
      else none
    | none => none
  | _ => none

/-- What the agent's process has done in a run. -/
def taken (s : Screen) (l : List ScreenStep) : List HostStep :=
  (Run.trace (step locale port bytes) (takes bytes) s l).filterMap id

end Screen

end

/-! ## The request on its connection -/

section
variable [Libp2p]

/-- Nothing has been asked on the connection. -/
def Untouched (a : Agent) (conn : Conn) : Prop := a.pending conn = none ∧ a.answered conn = []

/-- The agent's task has the request. -/
def Pends (a : Agent) (conn : Conn) (req : Request) : Prop :=
  a.answered conn = [] ∧ ∃ p, a.pending conn = some p ∧
    ∀ measured resp, p.Ends measured resp → Suits measured a.token (.request req) resp

/-- The request is answered, with what `measured` says where that is asked. -/
def IsAnswered (measured : Name → Option UInt64 → Prop) (a : Agent) (conn : Conn) (req : Request) :
    Prop :=
  a.pending conn = none ∧ ∃ resp, a.answered conn = [resp] ∧
    Suits measured a.token (.request req) resp

section
variable (M M' : Name → Option UInt64 → Prop) (a a' : Agent) (conn : Conn) (req : Request)
  (htoken : a'.token = a.token)

theorem untouched_converses (hconv : Converses M a conn none a') (h : Untouched a conn) :
    Untouched a' conn := by
  cases hconv with
  | rest _ hp hans => exact ⟨hp.trans h.1, hans.trans h.2⟩
  | go _ p phase hp => cases h.1.symm.trans hp
  | answer _ p resp hp => cases h.1.symm.trans hp

include htoken

/-- The request is taken up, and waits or is answered at once. -/
theorem takes_converses (hconv : Converses M a conn (some (.request req)) a')
    (h : Untouched a conn) : Pends a' conn req ∨ IsAnswered M a' conn req := by
  cases hconv with
  | wait _ _ p hnone hreq hp hans =>
    left
    refine ⟨hans.trans h.2, p, hp, ?_⟩
    intro measured resp hends
    unfold Suits
    dsimp only
    rw [htoken, hreq]
    exact hends
  | reply _ _ resp hnone hp hsuits hans =>
    right
    refine ⟨hp, resp, ?_, ?_⟩
    · rw [hans, h.2]
      rfl
    · rw [htoken]
      exact hsuits

/-- The task goes on with it. -/
theorem pends_converses (hconv : Converses M a conn none a') (h : Pends a conn req) :
    Pends a' conn req ∨ IsAnswered M a' conn req := by
  obtain ⟨hnone, p, hp, hends⟩ := h
  rw [← htoken] at hends
  cases hconv with
  | rest _ hp' hans => exact Or.inl ⟨hans.trans hnone, p, hp'.trans hp, hends⟩
  | go _ q phase hq hp' hgo hans =>
    cases hp.symm.trans hq
    exact Or.inl ⟨hans.trans hnone, _, hp', fun measured resp h =>
      hends measured resp (hgo measured resp h)⟩
  | answer _ q resp hq hp' hr hans =>
    cases hp.symm.trans hq
    refine Or.inr ⟨hp', resp, ?_, hends M resp hr⟩
    rw [hans, hnone]
    rfl

theorem answered_converses (hconv : Converses M a conn none a') (h : IsAnswered M' a conn req) :
    IsAnswered M' a' conn req := by
  obtain ⟨hnone, resp, hans, hsuits⟩ := h
  rw [← htoken] at hsuits
  cases hconv with
  | rest _ hp hans' => exact ⟨hp.trans hnone, resp, hans'.trans hans, hsuits⟩
  | go _ p phase hp => cases hnone.symm.trans hp
  | answer _ p resp hp => cases hnone.symm.trans hp

end

/-- What the agent answers to an `rtt` with its token. -/
theorem suits_rtt (measured : Name → Option UInt64 → Prop) (token name : String) (resp : Response)
    (h : Suits measured token (.request ⟨"rtt", name, token⟩) resp) :
    ∃ ms, resp = .rtt ms ∧ ∀ m, ms = some m → ∃ n, Name.parse name = .ok n ∧ measured n ms := by
  unfold Suits handleRequest at h
  dsimp only at h
  rw [if_neg (by decide), if_neg (by decide), if_pos rfl,
    if_neg (by rw [(tokenOk_eq_true_iff token token).mpr rfl]; decide)] at h
  cases hn : Name.parse name with
  | ok n =>
    rw [hn] at h
    obtain ⟨ms, hr, hm⟩ := h
    exact ⟨ms, hr, fun _ _ => ⟨n, rfl, hm⟩⟩
  | error e =>
    rw [hn] at h
    exact ⟨none, h, by rintro m ⟨⟩⟩

/-- What an agent measures now. -/
def Agent.Now (a : Agent) (n : Name) (ms : Option UInt64) : Prop := ms = a.measured n

variable [Crates] [SerdeJson]

/-- A step of the process is one of each conversation in it. -/
theorem converses_host (s : Host) (i : HostStep) (conn : Conn)
    (hi : ∀ text, i ≠ .agent (.line conn text)) :
    Converses s.agent.Now s.agent conn none (s.step i).agent := by
  have hagent : ∀ e, (∀ text, e ≠ .line conn text) →
      Converses s.agent.Now s.agent conn none (s.agent.step e) := by
    intro e he
    have hconv := converses_step s.agent.Now s.agent conn (fun _ => rfl) e
    have hnone : s.agent.takes e conn = none := by
      cases e with
      | line other text =>
        refine takes_other s.agent conn _ ?_
        rintro ⟨⟩
        exact he text rfl
      | _ => rfl
    rw [hnone] at hconv
    exact hconv
  cases i with
  | node input => exact .rest _ rfl rfl
  | agent e =>
    cases e with
    | rtt peer ms => exact .rest _ rfl rfl
    | _ => exact hagent _ fun text he => hi text (congrArg HostStep.agent he)

theorem token_host (s : Host) (i : HostStep) : (s.step i).agent.token = s.agent.token := by
  cases i with
  | node input => rfl
  | agent e =>
    cases e with
    | rtt peer ms => rfl
    | _ => exact token_step s.agent _

end

/-! ## A turn and the process -/

section
variable [Libp2p] [Crates] [SerdeJson] [Gson] [JavaText.CharacterData]
  (locale : JavaText.JavaLocale) (port : UInt16) (bytes : Vector UInt8 16)

/-- What a step is to the process. -/
theorem host_screenStep (s : Screen) (i : ScreenStep) :
    (s.step locale port bytes i).host = (s.takes bytes i).elim s.host s.host.step := by
  unfold Screen.step Screen.takes
  cases i with
  | host i =>
    cases i with
    | node input => rfl
    | agent e =>
      cases e with
      | line conn text =>
        dsimp only
        split <;> rfl
      | _ => rfl
  | ask mc conn =>
    dsimp only
    split
    · rfl
    · split <;> rfl
    · rfl
  | send =>
    dsimp only
    split
    · split <;> rfl
    · rfl
  | store delay =>
    dsimp only
    split <;> rfl

theorem host_taken (s : Screen) (l : List ScreenStep) :
    (Run.run (Screen.step locale port bytes) s l).host =
      Run.run Host.step s.host (s.taken locale port bytes l) :=
  Run.run_taken (Screen.step locale port bytes) Host.step Screen.host (Screen.takes bytes)
    (fun s i => host_screenStep locale port bytes s i) s l

/-- Only the end of a turn is stored. -/
theorem rttMs_step (s : Screen) (i : ScreenStep) (h : s.ends locale i = false) :
    (s.step locale port bytes i).rttMs = s.rttMs := by
  unfold Screen.ends at h
  unfold Screen.step
  cases i with
  | host i =>
    cases i with
    | node input => rfl
    | agent e =>
      cases e with
      | line conn text =>
        dsimp only
        split <;> rfl
      | _ => rfl
  | ask mc conn =>
    cases hturn : s.turn with
    | some t => rfl
    | none =>
      rw [hturn] at h
      dsimp only at h
      cases hname : TunnelPing.currentTunnelName locale mc with
      | none =>
        rw [hname] at h
        cases h
      | some name =>
        dsimp only
        rw [hname]
        dsimp only
        split <;> rfl
  | send =>
    dsimp only
    split
    · split <;> rfl
    · rfl
  | store delay =>
    dsimp only at h ⊢
    cases hturn : s.turn with
    | none => rfl
    | some t =>
      rw [hturn] at h
      cases h

theorem rttMs_ends (s : Screen) (i : ScreenStep) (h : s.ends locale i = true) :
    (s.step locale port bytes i).rttMs = -1 ∨ ∃ delay t, i = .store delay ∧ s.turn = some t ∧
      (s.step locale port bytes i).rttMs = s.stored port bytes t delay := by
  unfold Screen.ends at h
  split at h
  · next mc conn hturn =>
    left
    unfold Screen.step
    dsimp only
    rw [hturn, Option.isNone_iff_eq_none.mp h]
  · next delay t hturn =>
    right
    refine ⟨delay, t, rfl, hturn, ?_⟩
    unfold Screen.step
    dsimp only
    rw [hturn]
  · cases h

/-- The steps of the run after `l0`, none of which ends a turn. -/
abbrev Open (s : Screen) (l : List ScreenStep) : Prop :=
  Run.Each (Screen.step locale port bytes) (fun s i => s.ends locale i = false) s l

variable (localPeer : Libp2p.PeerId)

/-- The run from the start of the process. -/
abbrev Shown (l : List ScreenStep) : Screen :=
  Run.run (Screen.step locale port bytes) (Screen.start localPeer (randomToken bytes)) l

/-- The step after `l` answers on the connection, and `a` has nothing else there. -/
def AnswersIn (l : List ScreenStep) (i : ScreenStep) (conn : Conn) (a : Agent) : Prop :=
  (Shown locale port bytes localPeer l).host.agent.answered conn = [] ∧
    (Shown locale port bytes localPeer (l ++ [i])).host.agent.answered conn = a.answered conn

/-- The turn began with the last `ask`; its request is where it can be, and an answer
is what the agent had measured when it answered. -/
def Asked (l : List ScreenStep) (t : PollTurn) (a : Agent) : Prop :=
  ∃ l0 mc l1, l = l0 ++ .ask mc t.conn :: l1 ∧
    TunnelPing.currentTunnelName locale mc = some t.name ∧
    (Shown locale port bytes localPeer l0).turn = none ∧
    Open locale port bytes (Shown locale port bytes localPeer l0) (.ask mc t.conn :: l1) ∧
    (t.sent = false → Untouched a t.conn) ∧
    (t.sent = true → (Text.asBytes (Screen.line bytes t)).length ≤ MAX_CONN_BYTES ∧
      (Pends a t.conn ⟨"rtt", t.name, randomToken bytes⟩ ∨ ∃ l2 i l3, l1 = l2 ++ i :: l3 ∧
        AnswersIn locale port bytes localPeer (l0 ++ .ask mc t.conn :: l2) i t.conn a ∧
        IsAnswered (Shown locale port bytes localPeer (l0 ++ .ask mc t.conn :: l2)).host.agent.Now
          a t.conn ⟨"rtt", t.name, randomToken bytes⟩))

/-- What a step is to the process in the run. -/
theorem host_shown (l : List ScreenStep) (i : ScreenStep) :
    (Shown locale port bytes localPeer (l ++ [i])).host =
      ((Shown locale port bytes localPeer l).takes bytes i).elim
        (Shown locale port bytes localPeer l).host
        (Shown locale port bytes localPeer l).host.step := by
  rw [Shown, Run.run_concat]
  exact host_screenStep locale port bytes _ i

section
variable (l : List ScreenStep) (i : ScreenStep) (t : PollTurn) (a : Agent)
  (hends : (Shown locale port bytes localPeer l).ends locale i = false)
include hends

theorem open_append (l0 l1 : List ScreenStep) (hl : l = l0 ++ l1)
    (h : Open locale port bytes (Shown locale port bytes localPeer l0) l1) :
    Open locale port bytes (Shown locale port bytes localPeer l0) (l1 ++ [i]) := by
  refine (Run.each_append _ _ _ l1 [i]).mpr ⟨h, ?_, trivial⟩
  rw [← Run.run_append, ← hl]
  exact hends

/-- The agent goes on. -/
theorem asked_goes (ha : (Shown locale port bytes localPeer (l ++ [i])).host.agent = a)
    (htoken : a.token = (Shown locale port bytes localPeer l).host.agent.token)
    (hconv : Converses (Shown locale port bytes localPeer l).host.agent.Now
      (Shown locale port bytes localPeer l).host.agent t.conn none a)
    (h : Asked locale port bytes localPeer l t (Shown locale port bytes localPeer l).host.agent) :
    Asked locale port bytes localPeer (l ++ [i]) t a := by
  obtain ⟨l0, mc, l1, hl, hname, hturn, hopen, hnew, hsent⟩ := h
  refine ⟨l0, mc, l1 ++ [i], by rw [hl]; simp, hname, hturn,
    open_append locale port bytes localPeer l i hends l0 (.ask mc t.conn :: l1) hl hopen,
    fun hs => untouched_converses _ _ a t.conn hconv (hnew hs), fun hs => ?_⟩
  obtain ⟨hlen, hpends | ⟨l2, j, l3, rfl, hat, hans⟩⟩ := hsent hs
  · refine ⟨hlen, ?_⟩
    rcases pends_converses _ _ a t.conn _ htoken hconv hpends with hpends | hans
    · exact Or.inl hpends
    · refine Or.inr ⟨l1, i, [], rfl, ?_, ?_⟩
      · rw [← hl]
        exact ⟨hpends.1, congrArg (Agent.answered · t.conn) ha⟩
      · rw [← hl]
        exact hans
  · refine ⟨hlen, Or.inr ⟨l2, j, l3 ++ [i], List.append_assoc _ _ _,
      ⟨hat.1, hat.2.trans ?_⟩, answered_converses _ _ _ a t.conn _ htoken hconv hans⟩⟩
    cases hconv with
    | rest _ _ hans' => exact hans'.symm
    | go _ p phase hp => cases hans.1.symm.trans hp
    | answer _ p resp hp => cases hans.1.symm.trans hp

/-- The request is written. -/
theorem asked_sends (ha : (Shown locale port bytes localPeer (l ++ [i])).host.agent = a)
    (htoken : a.token = (Shown locale port bytes localPeer l).host.agent.token)
    (hs : t.sent = false) (hlen : (Text.asBytes (Screen.line bytes t)).length ≤ MAX_CONN_BYTES)
    (hconv : Converses (Shown locale port bytes localPeer l).host.agent.Now
      (Shown locale port bytes localPeer l).host.agent t.conn
      (some (.request ⟨"rtt", t.name, randomToken bytes⟩)) a)
    (h : Asked locale port bytes localPeer l t (Shown locale port bytes localPeer l).host.agent) :
    Asked locale port bytes localPeer (l ++ [i]) { t with sent := true } a := by
  obtain ⟨l0, mc, l1, hl, hname, hturn, hopen, hnew, -⟩ := h
  refine ⟨l0, mc, l1 ++ [i], by rw [hl]; simp, hname, hturn,
    open_append locale port bytes localPeer l i hends l0 (.ask mc t.conn :: l1) hl hopen,
    (by rintro ⟨⟩), fun _ => ⟨hlen, ?_⟩⟩
  rcases takes_converses _ _ a t.conn _ htoken hconv (hnew hs) with hpends | hans
  · exact Or.inl hpends
  · refine Or.inr ⟨l1, i, [], rfl, ?_, ?_⟩
    · rw [← hl]
      exact ⟨(hnew hs).2, congrArg (Agent.answered · t.conn) ha⟩
    · rw [← hl]
      exact hans

end

/-- What holds of the poller in a run. -/
structure Polled (l : List ScreenStep) (s : Screen) : Prop where
  token : s.host.agent.token = randomToken bytes
  /-- a connection that is not made yet -/
  fresh : ∀ conn, conn ∉ s.conns → Untouched s.host.agent conn
  own : ∀ conn, conn ∈ s.own → conn ∈ s.conns
  turn : ∀ t, s.turn = some t → t.conn ∈ s.own ∧ Asked locale port bytes localPeer l t s.host.agent

variable (h : ReadsJson)

theorem polled_start : Polled locale port bytes localPeer []
    (Screen.start localPeer (randomToken bytes)) where
  token := rfl
  fresh conn _ := ⟨rfl, rfl⟩
  own := by rintro conn ⟨⟩
  turn := by rintro t ⟨⟩

section
variable (l : List ScreenStep) (i : ScreenStep)
  (hp : Polled locale port bytes localPeer l (Shown locale port bytes localPeer l))
include hp

/-- A step of the process, not on a connection of the poller. -/
theorem polled_host (i' : HostStep) (conns : List Conn)
    (hconns : ∀ conn, conn ∈ (Shown locale port bytes localPeer l).conns → conn ∈ conns)
    (hother : ∀ conn text, i' = .agent (.line conn text) →
      conn ∉ (Shown locale port bytes localPeer l).own ∧ conn ∈ conns)
    (htakes : (Shown locale port bytes localPeer l).takes bytes i = some i')
    (hends : (Shown locale port bytes localPeer l).ends locale i = false) :
    Polled locale port bytes localPeer (l ++ [i])
      { Shown locale port bytes localPeer l with
        host := (Shown locale port bytes localPeer l).host.step i', conns := conns } where
  token := (token_host _ i').trans hp.token
  fresh conn hc := by
    refine untouched_converses _ _ _ conn (converses_host _ i' conn ?_)
      (hp.fresh conn fun hold => hc (hconns conn hold))
    intro text hi
    exact hc (hother conn text hi).2
  own conn hc := hconns conn (hp.own conn hc)
  turn t ht := by
    obtain ⟨hown, hasked⟩ := hp.turn t ht
    have hhost := host_shown locale port bytes localPeer l i
    rw [htakes] at hhost
    refine ⟨hown, asked_goes locale port bytes localPeer l i t _ hends
      (congrArg Host.agent hhost) (token_host _ i') ?_ hasked⟩
    apply converses_host
    intro text hi
    exact (hother t.conn text hi).1 hown

/-- A step that does nothing. -/
theorem polled_still (htakes : (Shown locale port bytes localPeer l).takes bytes i = none)
    (hends : (Shown locale port bytes localPeer l).ends locale i = false) :
    Polled locale port bytes localPeer (l ++ [i]) (Shown locale port bytes localPeer l) where
  token := hp.token
  fresh := hp.fresh
  own := hp.own
  turn t ht := by
    obtain ⟨hown, hasked⟩ := hp.turn t ht
    have hhost := host_shown locale port bytes localPeer l i
    rw [htakes] at hhost
    exact ⟨hown, asked_goes locale port bytes localPeer l i t _ hends (congrArg Host.agent hhost)
      rfl (.rest _ rfl rfl) hasked⟩

/-- A turn begins, or there is no server to ask for. -/
theorem polled_ask (mc : Option MinecraftClient) (conn : Conn) :
    Polled locale port bytes localPeer (l ++ [.ask mc conn])
      ((Shown locale port bytes localPeer l).step locale port bytes (.ask mc conn)) := by
  unfold Screen.step
  dsimp only
  split
  · next hturn hname => exact ⟨hp.token, hp.fresh, hp.own, fun t ht => by cases hturn.symm.trans ht⟩
  · next name hturn hname =>
    have hends : (Shown locale port bytes localPeer l).ends locale (.ask mc conn) = false := by
      unfold Screen.ends
      rw [hturn]
      dsimp only
      rw [hname]
      rfl
    split
    · exact polled_still locale port bytes localPeer l _ hp rfl hends
    · next hfresh =>
      refine ⟨hp.token, fun c hc => hp.fresh c fun hold => hc (List.mem_cons_of_mem conn hold), ?_, ?_⟩
      · intro c hc
        rcases List.mem_cons.mp hc with rfl | hc
        · exact List.mem_cons_self
        · exact List.mem_cons_of_mem conn (hp.own c hc)
      · rintro t ⟨⟩
        refine ⟨List.mem_cons_self, l, mc, [], rfl, hname, hturn, ⟨hends, trivial⟩,
          fun _ => hp.fresh conn hfresh, by rintro ⟨⟩⟩
  · next t hturn =>
    refine polled_still locale port bytes localPeer l _ hp rfl ?_
    unfold Screen.ends
    rw [hturn]

include h in
/-- The request is written. -/
theorem polled_send : Polled locale port bytes localPeer (l ++ [.send])
    ((Shown locale port bytes localPeer l).step locale port bytes .send) := by
  have hends : (Shown locale port bytes localPeer l).ends locale .send = false := rfl
  unfold Screen.step
  dsimp only
  split
  · next t hturn =>
    split
    · next hsend =>
      obtain ⟨hown, hasked⟩ := hp.turn t hturn
      have hhost := host_shown locale port bytes localPeer l .send
      have hline : (Shown locale port bytes localPeer l).takes bytes .send =
          some (.agent (.line t.conn (Screen.line bytes t))) := by
        unfold Screen.takes
        dsimp only
        rw [hturn]
        exact if_pos hsend
      rw [hline] at hhost
      generalize hs : Shown locale port bytes localPeer l = s at hp hturn hown hasked hends
      have hrest : ∀ conn, conn ≠ t.conn →
          Converses s.host.agent.Now s.host.agent conn none
            (s.host.step (.agent (.line t.conn (Screen.line bytes t)))).agent := by
        intro conn hne
        apply converses_host
        rintro text ⟨⟩
        exact hne rfl
      have hnew : Untouched s.host.agent t.conn := by
        obtain ⟨_, _, _, _, _, _, _, hnew, _⟩ := hasked
        exact hnew hsend.1
      have htakes : s.host.agent.takes (.line t.conn (Screen.line bytes t)) t.conn =
          some (.request ⟨"rtt", t.name, randomToken bytes⟩) := by
        unfold Agent.takes Screen.line
        dsimp only
        rw [if_pos ⟨rfl, Option.isNone_iff_eq_none.mpr hnew.1⟩, readText_request h]
      have hconv := converses_step s.host.agent.Now s.host.agent t.conn (fun _ => rfl)
        (.line t.conn (Screen.line bytes t))
      rw [htakes] at hconv
      refine ⟨(token_host s.host _).trans hp.token, ?_, hp.own, ?_⟩
      · intro conn hc
        refine untouched_converses _ _ _ conn (hrest conn ?_) (hp.fresh conn hc)
        rintro rfl
        exact hc (hp.own _ hown)
      · rintro _ ⟨⟩
        refine ⟨hown, ?_⟩
        rw [← hs] at hends hconv hasked ⊢
        exact asked_sends locale port bytes localPeer l _ t _ hends (congrArg Host.agent hhost)
          (token_host _ _) hsend.1 hsend.2 hconv hasked
    · next hsend =>
      refine polled_still locale port bytes localPeer l _ hp ?_ hends
      unfold Screen.takes
      dsimp only
      rw [hturn]
      exact if_neg hsend
  · next hturn =>
    refine polled_still locale port bytes localPeer l _ hp ?_ hends
    unfold Screen.takes
    dsimp only
    rw [hturn]

include h in
theorem polled_step : Polled locale port bytes localPeer (l ++ [i])
    ((Shown locale port bytes localPeer l).step locale port bytes i) := by
  cases i with
  | host i' =>
    have hends : (Shown locale port bytes localPeer l).ends locale (.host i') = false := rfl
    have htakes : ∀ i', (∀ conn text, i' ≠ .agent (.line conn text)) →
        (Shown locale port bytes localPeer l).takes bytes (.host i') = some i' := by
      intro i' hi'
      unfold Screen.takes
      split
      · next heq =>
        cases heq
        exact absurd rfl (hi' _ _)
      · next heq =>
        cases heq
        rfl
      · next heq => cases heq
      · next heq _ => exact absurd rfl (heq i')
    have hsame : ∀ i', (∀ conn text, i' ≠ .agent (.line conn text)) →
        Polled locale port bytes localPeer (l ++ [.host i'])
          { Shown locale port bytes localPeer l with
            host := (Shown locale port bytes localPeer l).host.step i' } := fun i' hi' =>
      polled_host locale port bytes localPeer l (.host i') hp i' _ (fun _ hc => hc)
        (fun conn text hi => absurd hi (hi' conn text)) (htakes i' hi') rfl
    cases i' with
    | node input => exact hsame _ (by rintro _ _ ⟨⟩)
    | agent e =>
      cases e with
      | line conn text =>
        unfold Screen.step
        dsimp only
        split
        · next hown => exact polled_still locale port bytes localPeer l _ hp (if_pos hown) hends
        · next hown =>
          refine polled_host locale port bytes localPeer l _ hp _ _
            (fun c hc => List.mem_cons_of_mem conn hc) ?_ (if_neg hown) hends
          rintro _ _ ⟨⟩
          exact ⟨hown, List.mem_cons_self⟩
      | _ => exact hsame _ (by rintro _ _ ⟨⟩)
  | ask mc conn => exact polled_ask locale port bytes localPeer l hp mc conn
  | send => exact polled_send locale port bytes localPeer h l hp
  | store delay =>
    unfold Screen.step
    dsimp only
    split
    · exact ⟨hp.token, hp.fresh, hp.own, by rintro t ⟨⟩⟩
    · next hturn =>
      refine polled_still locale port bytes localPeer l _ hp rfl ?_
      unfold Screen.ends
      rw [hturn]

end

include h in
theorem polled_run (l : List ScreenStep) :
    Polled locale port bytes localPeer l (Shown locale port bytes localPeer l) := by
  apply Run.run_history (Screen.step locale port bytes) (fun _ _ => True)
    (Polled locale port bytes localPeer) (Screen.start localPeer (randomToken bytes))
    (polled_start locale port bytes localPeer)
  · intro l i hp _
    rw [Run.run_concat]
    exact polled_step locale port bytes localPeer h l i hp
  · exact Run.each_true _ _ l

/-! ## What is stored -/

/-- What is cached is negative, or was stored by the last turn that has ended. -/
def Cached (l : List ScreenStep) (rttMs : Int) : Prop :=
  rttMs < 0 ∨ ∃ l1 delay l2 t, l = l1 ++ .store delay :: l2 ∧
    (Shown locale port bytes localPeer l1).turn = some t ∧
    rttMs = (Shown locale port bytes localPeer l1).stored port bytes t delay ∧
    Open locale port bytes (Shown locale port bytes localPeer (l1 ++ [.store delay])) l2

theorem cached_run (l : List ScreenStep) :
    Cached locale port bytes localPeer l (Shown locale port bytes localPeer l).rttMs := by
  induction l using List.reverseRecOn with
  | nil => exact Or.inl (show (-1 : Int) < 0 by decide)
  | append_singleton l i ih =>
    rw [show Shown locale port bytes localPeer (l ++ [i]) =
      (Shown locale port bytes localPeer l).step locale port bytes i from Run.run_concat _ _ _ _]
    cases hends : (Shown locale port bytes localPeer l).ends locale i with
    | false =>
      rw [rttMs_step locale port bytes _ i hends]
      rcases ih with hneg | ⟨l1, delay, l2, t, hl, hturn, hstored, hopen⟩
      · exact Or.inl hneg
      · refine Or.inr ⟨l1, delay, l2 ++ [i], t, by rw [hl]; simp, hturn, hstored, ?_⟩
        exact open_append locale port bytes localPeer l i hends (l1 ++ [.store delay]) l2
          (by rw [hl]; simp) hopen
    | true =>
      rcases rttMs_ends locale port bytes _ i hends with hneg | ⟨delay, t, rfl, hturn, hstored⟩
      · rw [hneg]
        exact Or.inl (by decide)
      · exact Or.inr ⟨l, delay, [], t, rfl, hturn, hstored, trivial⟩

variable (hport : port ≠ 0)
include h hport

omit [Crates] in
/-- Only an answer of the agent that comes within 3 s is not stored as -1. -/
theorem stored_nonneg (s : Screen) (t : PollTurn) (delay : Option Nat)
    (hpos : 0 ≤ s.stored port bytes t delay)
    (hlen : s.host.agent.answered t.conn ≠ [] →
      (Text.asBytes (Screen.line bytes t)).length ≤ MAX_CONN_BYTES) :
    ∃ ms resps d, s.host.agent.answered t.conn = .rtt (some ms) :: resps ∧ delay = some d ∧
      d < 3000 ∧ s.stored port bytes t delay = (ms.toNat : Int).bmod (2 ^ 32) := by
  obtain ⟨e, he, hp, ht⟩ := endpoint_written h port hport bytes
  have hreq : AgentClient.rttRequest e t.name = ⟨"rtt", t.name, randomToken bytes⟩ := by
    unfold AgentClient.rttRequest
    rw [ht]
  have hno : ¬ (0 : Int) ≤ -1 := by decide
  unfold Screen.stored at hpos ⊢
  rw [he] at hpos ⊢
  cases hans : s.host.agent.answered t.conn with
  | nil =>
    have hserving : s.serving port t.conn delay e.port = some ⟨fun _ _ => .ok, fun _ => none⟩ := by
      unfold Screen.serving
      rw [if_pos hp, hans]
    have hsilent : wireExchange (s.serving port t.conn delay) AgentClient.RTT_TIMEOUT_MS e
        (AgentClient.rttRequest e t.name) = none := by
      unfold wireExchange
      rw [hserving]
      rfl
    unfold AgentClient.rttMs at hpos
    dsimp only at hpos
    rw [hsilent] at hpos
    exact absurd hpos hno
  | cons resp resps =>
    have hserving : s.serving port t.conn delay e.port = some ⟨fun _ _ => resp, fun _ => delay⟩ := by
      unfold Screen.serving
      rw [if_pos hp, hans]
    have hwire := rttMs_wire h (s.serving port t.conn delay) e _ hserving t.name (by
      rw [hreq]
      exact hlen (by rw [hans]; rintro ⟨⟩))
    rw [hwire] at hpos ⊢
    dsimp only at hpos ⊢
    cases resp with
    | rtt m =>
      cases m with
      | none => exact absurd hpos hno
      | some ms =>
        dsimp only at hpos ⊢
        split at hpos
        · next hreach =>
          obtain ⟨d, hd, hlt⟩ := (inTime_iff _ _ _).mp hreach.1
          rw [if_pos hreach]
          exact ⟨ms, resps, d, rfl, hd, hlt, rfl⟩
        · exact absurd hpos hno
    | _ => exact absurd hpos hno

/-! ## Top theorem -/

/-- **The ping on the screen**: in every run of the agent's process, the poller and
the player, what the HUD draws is Minecraft's latency, or what the last turn of the
poller that has ended stored.  That turn began with the server that the player was on
then, and the agent answered it, in the step after `l1`, with the last round trip to
the owner of that server's keyid, who had been connected from then on. -/
theorem ping_drawn (l : List ScreenStep)
    (hl : Run.Each Agent.step Establishes (Agent.start (randomToken bytes))
      (((Screen.start localPeer (randomToken bytes)).taken locale port bytes l).filterMap
        HostStep.toAgent)) (client : HudClient) (drawn : String × UInt32)
    (hdrawn : PingHudMixin.drawPing client (Shown locale port bytes localPeer l).rttMs =
      some drawn) :
    (∃ latency, client.latency = some latency ∧ drawn = PingHudMixin.draw latency) ∨
    ∃ l0 mc conn l1 i l2 d l3 name n peer ms,
      l = l0 ++ .ask mc conn :: l1 ++ i :: l2 ++ .store (some d) :: l3 ∧ d < 3000 ∧
      TunnelPing.currentTunnelName locale mc = some name ∧ Name.parse name = .ok n ∧
      Owner n peer ∧
      LastPing (((Screen.start localPeer (randomToken bytes)).taken locale port bytes
        (l0 ++ .ask mc conn :: l1)).filterMap HostStep.toNode) peer ms ∧
      (Shown locale port bytes localPeer (l0 ++ .ask mc conn :: l1)).host.agent.answered conn = [] ∧
      (Shown locale port bytes localPeer (l0 ++ .ask mc conn :: l1 ++ [i])).host.agent.answered conn =
        [.rtt (some ms)] ∧
      drawn = PingHudMixin.draw ((ms.toNat : Int).bmod (2 ^ 32)) ∧
      (Shown locale port bytes localPeer l0).turn = none ∧
      Open locale port bytes (Shown locale port bytes localPeer l0)
        (.ask mc conn :: l1 ++ i :: l2) ∧
      Open locale port bytes (Shown locale port bytes localPeer
        (l0 ++ .ask mc conn :: l1 ++ i :: l2 ++ [.store (some d)])) l3 := by
  rcases drawPing_some client _ drawn hdrawn with ⟨hpos, hd⟩ | hlatency
  · right
    rcases cached_run locale port bytes localPeer l with
      hneg | ⟨lb, delay, l3, t, hsplit, hturn, hstored, hlast⟩
    · omega
    rw [hstored] at hpos hd
    have hp := polled_run locale port bytes localPeer h lb
    obtain ⟨-, l0, mc, l', hlb, hname, hidle, hopen, hnew, hsent⟩ := hp.turn t hturn
    have hanswered : (Shown locale port bytes localPeer lb).host.agent.answered t.conn ≠ [] →
        t.sent = true := by
      intro hne
      by_contra hs
      exact hne (hnew (Bool.not_eq_true _ ▸ hs)).2
    obtain ⟨ms, resps, d, hans, rfl, hlt, hvalue⟩ := stored_nonneg port bytes h hport _ t delay hpos
      fun hne => (hsent (hanswered hne)).1
    rcases (hsent (hanswered (by rw [hans]; rintro ⟨⟩))).2 with ⟨hnone, -⟩ | hdone
    · rw [hans] at hnone
      cases hnone
    obtain ⟨l1, i, l2, rfl, hat, -, resp, hresp, hsuits⟩ := hdone
    cases hans.symm.trans hresp
    rw [hp.token] at hsuits
    obtain ⟨m, hm, hmeasured⟩ := suits_rtt _ _ t.name _ hsuits
    cases hm
    obtain ⟨n, hn, hnow⟩ := hmeasured ms rfl
    have hl' : l = (l0 ++ .ask mc t.conn :: l1) ++ (i :: l2 ++ .store (some d) :: l3) := by
      rw [hsplit, hlb]
      simp
    have htaken := Run.trace_append (Screen.step locale port bytes) (Screen.takes bytes)
      (Screen.start localPeer (randomToken bytes)) (l0 ++ .ask mc t.conn :: l1)
      (i :: l2 ++ .store (some d) :: l3)
    have hbefore : Run.Each Agent.step Establishes (Agent.start (randomToken bytes))
        (((Screen.start localPeer (randomToken bytes)).taken locale port bytes
          (l0 ++ .ask mc t.conn :: l1)).filterMap HostStep.toAgent) := by
      rw [hl'] at hl
      unfold Screen.taken at hl ⊢
      rw [htaken, List.filterMap_append, List.filterMap_append] at hl
      exact ((Run.each_append _ _ _ _ _).mp hl).1
    have hhost := host_taken locale port bytes (Screen.start localPeer (randomToken bytes))
      (l0 ++ .ask mc t.conn :: l1)
    have hnow : (Run.run Host.step (Host.start localPeer (randomToken bytes))
        ((Screen.start localPeer (randomToken bytes)).taken locale port bytes
          (l0 ++ .ask mc t.conn :: l1))).agent.measured n = some ms := by
      have hnow : some ms = Agent.measured
        (Shown locale port bytes localPeer (l0 ++ .ask mc t.conn :: l1)).host.agent n := hnow
      rw [hnow, Shown, hhost]
      rfl
    obtain ⟨peer, howner, hping⟩ := lastPing_of_measured localPeer (randomToken bytes) _ hbefore
      t.name n hn ms hnow
    refine ⟨l0, mc, t.conn, l1, i, l2, d, l3, t.name, n, peer, ms, ?_, hlt, hname, hn, howner, hping,
      hat.1, ?_, ?_, hidle, ?_, ?_⟩
    · rw [hsplit, hlb]
      simp
    · rw [hat.2]
      exact hresp
    · rw [hd, hvalue]
    · exact hopen
    · rw [hlb] at hlast
      rw [show l0 ++ .ask mc t.conn :: l1 ++ i :: l2 =
        l0 ++ .ask mc t.conn :: (l1 ++ i :: l2) by simp]
      exact hlast
  · exact Or.inl hlatency

end

section
variable [Libp2p] [SerdeJson]

/-- What is asked right after a ping is answered with it. -/
theorem answered_rtt [Gson] (h : ReadsJson) (s : Agent) (conn : Conn) (name : String) (n : Name)
    (port : UInt16) (peer : Libp2p.PeerId) (ms : UInt64) (hfree : s.pending conn = none)
    (hn : Name.parse name = .ok n) (ht : s.tunnels n.toString = some (port, peer)) :
    (Run.run Agent.step s [.rtt peer (some ms), .line conn (Request.text ⟨"rtt", name, s.token⟩),
      .lock conn]).answered conn = s.answered conn ++ [.rtt (some ms)] := by
  let pinged : Agent := { s with rtt := Function.update s.rtt peer (some ms) }
  let p : Pending := ⟨⟨"rtt", name, s.token⟩, n, .rtt⟩
  have hwaits : pinged.takeLine conn (Request.text ⟨"rtt", name, s.token⟩) = pinged.wait conn p := by
    rw [takeLine_eq_takeRead pinged conn _ hfree, readText_request h]
    unfold Agent.takeRead handleRequest
    dsimp only
    rw [if_neg (by decide), if_neg (by decide), if_pos rfl,
      if_neg (by rw [(tokenOk_eq_true_iff s.token s.token).mpr rfl]; decide), hn]
  show ((pinged.takeLine conn (Request.text ⟨"rtt", name, s.token⟩)).getLock conn).answered conn = _
  rw [hwaits]
  have hmeasured : ((pinged.wait conn p).tunnels p.key).bind
      (fun t => (pinged.wait conn p).rtt t.2) = some ms := by
    show (s.tunnels n.toString).bind (fun t => Function.update s.rtt peer (some ms) t.2) = some ms
    rw [ht]
    exact Function.update_self _ _ _
  unfold Agent.getLock
  rw [pending_wait_self pinged conn p]
  dsimp only
  rw [hmeasured, answered_respond]
  rfl

end

/-! ## The ping to Alice -/

namespace Sample
attribute [local instance] crates libp2p flatSerde flatGson characterData

def onAlice : Option MinecraftClient := some ⟨true, some (some aliceAddress)⟩

def onBob : Option MinecraftClient := some ⟨true, some (some "bob.minecraft")⟩

/-- A tunnel is made and its peer is pinged; the poller asks on connection 2, and while
the answer is on its way comes another ping. -/
def polls : List ScreenStep :=
  connects.map (fun e => .host (.agent e)) ++
    [.host (.node (⟨0, by decide⟩, .event (.ping alicePeer 48))), .ask onAlice 2, .send,
      .host (.agent (.lock 2)), .host (.node (⟨1, by decide⟩, .event (.ping alicePeer 90)))]

/-- The answer is stored, and the player is on another server when the next turn begins. -/
def switches : List ScreenStep := polls ++ [.store (some 20), .ask onBob 3]

theorem taken_switches : ((Screen.start alicePeer (randomToken entropy)).taken english 40000 entropy
      switches).filterMap HostStep.toAgent =
    connects ++ [.rtt alicePeer (some 48), .line 2 (Screen.line entropy ⟨aliceAddress, 2, false⟩),
      .lock 2, .rtt alicePeer (some 90)] := by rfl

theorem establishes_switches : Run.Each Agent.step Establishes (Agent.start (randomToken entropy))
    (((Screen.start alicePeer (randomToken entropy)).taken english 40000 entropy
      switches).filterMap HostStep.toAgent) := by
  rw [taken_switches, Run.each_append]
  exact ⟨establishes_connects, trivial, trivial, trivial, trivial, trivial⟩

/-- The tunnel to Alice is made, and nothing was asked on the other connection. -/
theorem after_connects :
    (Run.run Agent.step (Agent.start (randomToken entropy)) connects).tunnels
      (Name.toString ⟨"alice", aliceKeyid⟩) = some (40001, alicePeer) ∧
    ((Run.run Agent.step (Agent.start (randomToken entropy)) connects).pending 2).isNone = true ∧
    (Run.run Agent.step (Agent.start (randomToken entropy)) connects).answered 2 = [] := by
  decide +kernel

theorem answered_polls :
    (Shown english 40000 entropy alicePeer polls).host.agent.answered 2 = [.rtt (some 48)] := by
  have htaken : ((Screen.start alicePeer (randomToken entropy)).taken english 40000 entropy
      polls).filterMap HostStep.toAgent = connects ++ ([.rtt alicePeer (some 48),
        .line 2 (Request.text ⟨"rtt", aliceAddress, randomToken entropy⟩), .lock 2] ++
          [.rtt alicePeer (some 90)]) := by rfl
  have hhost := host_taken english 40000 entropy (Screen.start alicePeer (randomToken entropy)) polls
  have hagent := (host_run alicePeer (randomToken entropy)
    ((Screen.start alicePeer (randomToken entropy)).taken english 40000 entropy polls)).2.1
  rw [htaken, Run.run_append, Run.run_append] at hagent
  have htoken : (Run.run Agent.step (Agent.start (randomToken entropy)) connects).token =
    randomToken entropy := (dialogue_run (randomToken entropy) 2 connects).same
  obtain ⟨htunnel, hfree, hnone⟩ := after_connects
  have hans := answered_rtt readsJson
    (Run.run Agent.step (Agent.start (randomToken entropy)) connects) 2 aliceAddress
    ⟨"alice", aliceKeyid⟩ 40001 alicePeer 48 (Option.isNone_iff_eq_none.mp hfree)
    parse_aliceAddress htunnel
  rw [htoken, hnone] at hans
  rw [Shown, hhost]
  show (Run.run Host.step (Host.start alicePeer (randomToken entropy)) _).agent.answered 2 = _
  rw [hagent, Run.run_cons]
  exact (answered_step _ 2 (.rtt alicePeer (some 90)) (by rintro ⟨⟩)).trans hans

theorem turn_polls : (Shown english 40000 entropy alicePeer polls).turn =
    some ⟨aliceAddress, 2, true⟩ := by rfl

/-- The next turn has not ended, so what this one has stored is there. -/
theorem rttMs_later (s : Screen) (t : PollTurn) (hturn : s.turn = some t) (delay : Option Nat)
    (conn : Conn) : (Run.run (Screen.step english 40000 entropy) s
      [.store delay, .ask onBob conn]).rttMs = s.stored 40000 entropy t delay := by
  have hbob : TunnelPing.currentTunnelName english onBob = some "bob.minecraft" := by decide +kernel
  have hends :
      (s.step english 40000 entropy (.store delay)).ends english (.ask onBob conn) = false := by
    unfold Screen.ends Screen.step
    dsimp only
    rw [hturn]
    dsimp only
    rw [hbob]
    rfl
  show ((s.step english 40000 entropy (.store delay)).step english 40000 entropy
    (.ask onBob conn)).rttMs = _
  rw [rttMs_step english 40000 entropy _ _ hends]
  unfold Screen.step
  dsimp only
  rw [hturn]

theorem rttMs_switches : (Shown english 40000 entropy alicePeer switches).rttMs = 48 := by
  obtain ⟨e, he, hp, ht⟩ := endpoint_written readsJson 40000 (by decide) entropy
  have hserving : (Shown english 40000 entropy alicePeer polls).serving 40000 2 (some 20) e.port =
      some ⟨fun _ _ => .rtt (some 48), fun _ => some 20⟩ := by
    unfold Screen.serving
    rw [if_pos hp, answered_polls]
  have hreq : AgentClient.rttRequest e aliceAddress =
      ⟨"rtt", aliceAddress, randomToken entropy⟩ := by
    unfold AgentClient.rttRequest
    rw [ht]
  have hlen : (Text.asBytes (Request.text ⟨"rtt", aliceAddress, randomToken entropy⟩)).length ≤
      MAX_CONN_BYTES := by decide +kernel
  have hlater := rttMs_later _ _ turn_polls (some 20) 3
  rw [← Run.run_append] at hlater
  refine hlater.trans ?_
  unfold Screen.stored
  dsimp only
  rw [he, rttMs_wire readsJson _ e _ hserving aliceAddress (by rw [hreq]; exact hlen)]
  dsimp only
  rw [if_pos ⟨(inTime_iff _ _ _).mpr ⟨20, rfl, by decide⟩, by decide +kernel⟩]
  decide

end Sample

section
attribute [local instance] Sample.crates Sample.libp2p Sample.flatSerde Sample.flatGson
  Sample.characterData

/-- While the player is on Bob's server already, what is drawn is the ping to Alice. -/
theorem ping_drawn_alice :
    ∃ l0 mc conn l1 i l2 d l3 name n peer ms,
      Sample.switches = l0 ++ .ask mc conn :: l1 ++ i :: l2 ++ .store (some d) :: l3 ∧ d < 3000 ∧
      TunnelPing.currentTunnelName Sample.english mc = some name ∧ Name.parse name = .ok n ∧
      Owner n peer ∧
      LastPing (((Screen.start Sample.alicePeer (randomToken Sample.entropy)).taken Sample.english
        40000 Sample.entropy (l0 ++ .ask mc conn :: l1)).filterMap HostStep.toNode) peer ms ∧
      (Shown Sample.english 40000 Sample.entropy Sample.alicePeer
        (l0 ++ .ask mc conn :: l1)).host.agent.answered conn = [] ∧
      (Shown Sample.english 40000 Sample.entropy Sample.alicePeer
        (l0 ++ .ask mc conn :: l1 ++ [i])).host.agent.answered conn = [.rtt (some ms)] ∧
      PingHudMixin.draw 48 = PingHudMixin.draw ((ms.toNat : Int).bmod (2 ^ 32)) ∧
      (Shown Sample.english 40000 Sample.entropy Sample.alicePeer l0).turn = none ∧
      Open Sample.english 40000 Sample.entropy
        (Shown Sample.english 40000 Sample.entropy Sample.alicePeer l0)
        (.ask mc conn :: l1 ++ i :: l2) ∧
      Open Sample.english 40000 Sample.entropy (Shown Sample.english 40000 Sample.entropy
        Sample.alicePeer (l0 ++ .ask mc conn :: l1 ++ i :: l2 ++ [.store (some d)])) l3 := by
  rcases ping_drawn Sample.english 40000 Sample.entropy Sample.alicePeer Sample.readsJson (by decide)
    Sample.switches Sample.establishes_switches ⟨true, true, some false, some 120⟩
    (PingHudMixin.draw 48) (by rw [Sample.rttMs_switches]; rfl) with ⟨latency, ⟨⟩, hd⟩ | hm
  · exact absurd hd (by decide +kernel)
  · exact hm

end

end McTunnel
