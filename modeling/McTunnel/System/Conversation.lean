import McTunnel.Cli.Impersonation
import McTunnel.Cli.Tunnels
import McTunnel.Core.Address
import McTunnel.Core.Select
import McTunnel.System.Wire

/-!
# The agent as a whole

Clients write lines on connections of their own, the agent's tasks take them up
one after another on each, wait for the DHT, for ports and for the map of tunnels
in any order, and answer.  What `establish` returns is made from whatever the
DHT has answered.

    each line that is taken is answered once, in order, with what it asks for   (conversation)
    the ports that are handed out lead to the owners of the names           (tunnels_owned)
    and so do the addresses that the hook returns                      (hook_leads_to_owner)
-/

namespace McTunnel

section
variable [Libp2p] [SerdeJson]

/-! ## Conversations -/

/-- What the task of the connection takes up, if it is free and the line not blank. -/
def Agent.takes (s : Agent) (e : AgentEvent) (conn : Conn) : Option LineRead :=
  match e with
  | .line other text =>
    if other = conn ∧ (s.pending conn).isNone then
      match readText text with
      | .blank => none
      | read => some read
    else none
  | _ => none

/-- What has been asked on the connection. -/
def asked (token : String) (l : List AgentEvent) (conn : Conn) : List LineRead :=
  (Run.trace Agent.step (fun s e => s.takes e conn) (Agent.start token) l).filterMap id

def Agent.answered (s : Agent) (conn : Conn) : List Response :=
  s.responses.filterMap fun r => if r.1 = conn then some r.2 else none

/-- The request whose task waits. -/
def Agent.waiting (s : Agent) (conn : Conn) : List LineRead :=
  match s.pending conn with
  | some p => [.request p.req]
  | none => []

/-- The round trip to the peer of the name's tunnel, if there is one. -/
def Agent.measured (s : Agent) (n : Name) : Option UInt64 :=
  (s.tunnels n.toString).bind fun t => s.rtt t.2

/-- The agent has measured this for the name at some time. -/
def MeasuredIn (token : String) (l : List AgentEvent) (n : Name) (ms : Option UInt64) : Prop :=
  Run.Met Agent.step (fun s => s.measured n = ms) (Agent.start token) l

end

section
variable [Libp2p] (measured : Name → Option UInt64 → Prop)

/-- The task of a `resolve` ends with a tunnel of that name or an error, that of an
`rtt` with what is measured. -/
def Pending.Ends (p : Pending) (resp : Response) : Prop :=
  match p.phase with
  | .rtt => ∃ ms, resp = .rtt ms ∧ measured p.name ms
  | _ => (∃ port, resp = .tunnel p.req.name port) ∨ ∃ e, resp = .error e

/-- The response is one to what was asked. -/
def Suits (token : String) (read : LineRead) (resp : Response) : Prop :=
  match read with
  | .blank => False
  | .invalid e => resp = .error e
  | .request req =>
    match handleRequest token req with
    | .reply r => resp = r
    | .wait p => p.Ends measured resp

end

section
variable [Libp2p] [SerdeJson]

/-! ## Owners -/

section
variable [Crates]

/-- The peer is that of a key that owns the keyid of the name. -/
def Owner (n : Name) (peer : Libp2p.PeerId) : Prop :=
  ∃ pubkey, Owns pubkey n.keyid ∧ peerIdFromEd25519 pubkey = .ok peer

/-- The peer is the owner of the name that has this text. -/
def OwnerOf (key : String) (peer : Libp2p.PeerId) : Prop :=
  ∃ n, n.Valid ∧ n.toString = key ∧ Owner n peer

/-- What `establish` returns to a task is its result for the name, whatever the
DHT has answered. -/
def Establishes (s : Agent) (e : AgentEvent) : Prop :=
  match e with
  | .established conn (.ok peer) => ∀ p, s.pending conn = some p → p.phase = .establish →
      ∃ start rounds dials, establish p.name start rounds = some (.ok (peer, dials))
  | _ => True

end

/-- A listener on the port has led to that peer, for that name. -/
def Led (token : String) (l : List AgentEvent) (port : UInt16) (key : String)
    (peer : Libp2p.PeerId) : Prop :=
  Run.Met Agent.step (fun s => s.listeners port = some ⟨key, peer⟩) (Agent.start token) l

end

/-! ## One step of a conversation -/

section
variable [Libp2p] (measured : Name → Option UInt64 → Prop) (s : Agent) (conn : Conn)

/-- What a step does to the conversation on a connection, by what was taken up. -/
inductive Converses : Option LineRead → Agent → Prop
  | rest (s' : Agent) : s'.pending conn = s.pending conn → s'.answered conn = s.answered conn →
      Converses none s'
  /-- the task waits -/
  | wait (s' : Agent) (req : Request) (p : Pending) : s.pending conn = none →
      handleRequest s.token req = .wait p → s'.pending conn = some p →
      s'.answered conn = s.answered conn → Converses (some (.request req)) s'
  /-- the line is answered at once -/
  | reply (s' : Agent) (read : LineRead) (resp : Response) : s.pending conn = none →
      s'.pending conn = none → Suits measured s.token read resp →
      s'.answered conn = s.answered conn ++ [resp] → Converses (some read) s'
  /-- the task waits for the next thing -/
  | go (s' : Agent) (p : Pending) (phase : Phase) : s.pending conn = some p →
      s'.pending conn = some { p with phase := phase } →
      (∀ M resp, Pending.Ends M { p with phase := phase } resp → p.Ends M resp) →
      s'.answered conn = s.answered conn → Converses none s'
  | answer (s' : Agent) (p : Pending) (resp : Response) : s.pending conn = some p →
      s'.pending conn = none → p.Ends measured resp →
      s'.answered conn = s.answered conn ++ [resp] → Converses none s'

theorem answered_append (s' : Agent) (other : Conn) (resp : Response)
    (h : s'.responses = s.responses ++ [(other, resp)]) :
    s'.answered conn = s.answered conn ++ if other = conn then [resp] else [] := by
  unfold Agent.answered
  rw [h, List.filterMap_append]
  by_cases ho : other = conn
  · simp [ho]
  · simp [ho]

theorem answered_respond (resp : Response) :
    (s.respond conn resp).answered conn = s.answered conn ++ [resp] := by
  rw [answered_append s conn (s.respond conn resp) conn resp rfl, if_pos rfl]

theorem req_of_wait (token : String) (req : Request) (p : Pending)
    (h : handleRequest token req = .wait p) : p.req = req := by
  unfold handleRequest at h
  split at h
  · cases h
  split at h
  · split at h
    · cases h
    · split at h
      · cases h
        rfl
      · cases h
  split at h
  · split at h
    · cases h
    · split at h
      · cases h
        rfl
      · cases h
  · cases h

theorem pending_wait_self (p : Pending) : (s.wait conn p).pending conn = some p :=
  Function.update_self _ _ _

theorem pending_respond_self (resp : Response) : (s.respond conn resp).pending conn = none :=
  Function.update_self _ _ _

/-- A free task takes up a line. -/
theorem converses_takeRead (read : LineRead) (hnone : s.pending conn = none)
    (hblank : read ≠ .blank) : Converses measured s conn (some read) (s.takeRead conn read) := by
  cases read with
  | blank => exact absurd rfl hblank
  | invalid e =>
    exact .reply _ _ (.error e) hnone (pending_respond_self s conn _) rfl (answered_respond s conn _)
  | request req =>
    show Converses measured s conn _ (match handleRequest s.token req with
      | .reply resp => s.respond conn resp
      | .wait p => s.wait conn p)
    cases hr : handleRequest s.token req with
    | reply resp =>
      refine .reply _ _ resp hnone (pending_respond_self s conn _) ?_ (answered_respond s conn _)
      unfold Suits
      dsimp only
      rw [hr]
    | wait p => exact .wait _ req p hnone hr (pending_wait_self s conn p) rfl

theorem converses_lock (hnow : ∀ n, measured n (s.measured n)) :
    Converses measured s conn none (s.getLock conn) := by
  unfold Agent.getLock
  split
  · exact .rest _ rfl rfl
  · next p hp =>
    split
    · next hphase =>
      split
      · next port peer ht =>
        refine .answer _ p _ hp (pending_respond_self s conn _) ?_ (answered_respond s conn _)
        unfold Pending.Ends
        rw [hphase]
        exact Or.inl ⟨port, rfl⟩
      · refine .go _ p .establish hp (pending_wait_self _ conn _) ?_ rfl
        intro M resp h
        unfold Pending.Ends
        rw [hphase]
        exact h
    · next port peer hphase =>
      refine .answer _ p _ hp (pending_respond_self _ conn _) ?_ (answered_respond _ conn _)
      unfold Pending.Ends
      rw [hphase]
      exact Or.inl ⟨port, rfl⟩
    · next hphase =>
      refine .answer _ p _ hp (pending_respond_self s conn _) ?_ (answered_respond s conn _)
      unfold Pending.Ends
      rw [hphase]
      exact ⟨_, rfl, hnow p.name⟩
    · exact .rest _ rfl rfl

theorem converses_established (result : Except String Libp2p.PeerId) :
    Converses measured s conn none (s.establishes conn result) := by
  unfold Agent.establishes
  split
  · exact .rest _ rfl rfl
  · next p hp =>
    split
    · next hphase =>
      split
      · refine .answer _ p _ hp (pending_respond_self s conn _) ?_ (answered_respond s conn _)
        unfold Pending.Ends
        rw [hphase]
        exact Or.inr ⟨_, rfl⟩
      · refine .go _ p _ hp (pending_wait_self s conn _) ?_ rfl
        intro M resp h
        unfold Pending.Ends
        rw [hphase]
        exact h
    · exact .rest _ rfl rfl

theorem converses_bound (result : Bound) : Converses measured s conn none (s.binds conn result) := by
  unfold Agent.binds
  split
  · exact .rest _ rfl rfl
  · next p hp =>
    split
    · next peer hphase =>
      have herror : ∀ e, Converses measured s conn none (s.respond conn (.error e)) := by
        intro e
        refine .answer _ p _ hp (pending_respond_self s conn _) ?_ (answered_respond s conn _)
        unfold Pending.Ends
        rw [hphase]
        exact Or.inr ⟨e, rfl⟩
      split
      · exact herror _
      · exact herror _
      · split
        · exact .rest _ rfl rfl
        · refine .go _ p _ hp (pending_wait_self _ conn _) ?_ rfl
          intro M resp h
          unfold Pending.Ends
          rw [hphase]
          exact h
    · exact .rest _ rfl rfl

variable [SerdeJson]

/-- The other connections get no answer. -/
theorem answered_step (e : AgentEvent) (ho : e.conn ≠ some conn) :
    (s.step e).answered conn = s.answered conn := by
  generalize hs : s.step e = s'
  have hdoes := does_step s e
  rw [hs] at hdoes
  have hrespond : ∀ (s' : Agent) other resp, e.conn = some other →
      s'.responses = s.responses ++ [(other, resp)] → s'.answered conn = s.answered conn := by
    intro s' other resp hc hr
    have hne : other ≠ conn := by
      rintro rfl
      exact ho hc
    rw [answered_append s conn s' other resp hr, if_neg hne, List.append_nil]
  cases hdoes with
  | nothing => rfl
  | answer e other resp hc => exact hrespond _ other resp hc rfl
  | take => rfl
  | hit other p port peer => exact hrespond _ other _ rfl rfl
  | miss => rfl
  | insert other p port peer => exact hrespond _ other (.tunnel p.req.name port) rfl rfl
  | establish => rfl
  | bind => rfl
  | ended => rfl
  | measure => rfl

theorem converses_line (text : String) :
    Converses measured s conn (s.takes (.line conn text) conn) (s.takeLine conn text) := by
  cases hp : s.pending conn with
  | some p =>
    have htakes : s.takes (.line conn text) conn = none := by
      unfold Agent.takes
      simp [hp]
    have hsame : s.takeLine conn text = s := by
      unfold Agent.takeLine
      rw [hp]
    rw [htakes, hsame]
    exact .rest _ rfl rfl
  | none =>
    rw [takeLine_eq_takeRead s conn text hp]
    have htakes : s.takes (.line conn text) conn =
        match readText text with
        | .blank => none
        | read => some read := by
      unfold Agent.takes
      simp [hp]
    rw [htakes]
    cases hread : readText text with
    | blank => exact .rest _ rfl rfl
    | invalid e => exact converses_takeRead measured s conn _ hp (by rintro ⟨⟩)
    | request req => exact converses_takeRead measured s conn _ hp (by rintro ⟨⟩)

omit measured in
/-- A line of another connection. -/
theorem takes_other (e : AgentEvent) (ho : e.conn ≠ some conn) : s.takes e conn = none := by
  cases e with
  | line other text =>
    have hne : other ≠ conn := by
      rintro rfl
      exact ho rfl
    unfold Agent.takes
    simp [hne]
  | _ => rfl

theorem converses_step (hnow : ∀ n, measured n (s.measured n)) (e : AgentEvent) :
    Converses measured s conn (s.takes e conn) (s.step e) := by
  by_cases ho : e.conn = some conn
  · cases e with
    | line other text =>
      cases ho
      exact converses_line measured s conn text
    | lock other =>
      cases ho
      exact converses_lock measured s conn hnow
    | established other result =>
      cases ho
      exact converses_established measured s conn result
    | bound other result =>
      cases ho
      exact converses_bound measured s conn result
    | ended port => cases ho
    | rtt peer ms => cases ho
  · rw [takes_other s conn e ho]
    exact .rest _ (pending_step s e conn ho) (answered_step s conn e ho)

end

/-! ## Every line is answered -/

section
variable [Libp2p] [SerdeJson]

section
variable (M M' : Name → Option UInt64 → Prop) (h : ∀ n ms, M n ms → M' n ms)
include h

omit [SerdeJson] in
theorem ends_mono (p : Pending) (resp : Response) (he : p.Ends M resp) : p.Ends M' resp := by
  unfold Pending.Ends at he ⊢
  cases hphase : p.phase with
  | rtt =>
    rw [hphase] at he
    obtain ⟨ms, hr, hms⟩ := he
    exact ⟨ms, hr, h _ _ hms⟩
  | _ =>
    rw [hphase] at he
    exact he

omit [SerdeJson] in
theorem suits_mono (token : String) (read : LineRead) (resp : Response)
    (hs : Suits M token read resp) : Suits M' token read resp := by
  unfold Suits at hs ⊢
  cases read with
  | blank => exact hs
  | invalid e => exact hs
  | request req =>
    dsimp only at hs ⊢
    split
    · next hr =>
      rw [hr] at hs
      exact hs
    · next p hp =>
      rw [hp] at hs
      exact ends_mono M M' h p resp hs

end

/-- What has been asked on a connection is answered, but for what its task waits with. -/
structure Dialogue (token : String) (conn : Conn) (l : List AgentEvent) (s : Agent) : Prop where
  same : s.token = token
  served : ∃ done, asked token l conn = done ++ s.waiting conn ∧
    List.Forall₂ (Suits (MeasuredIn token l) token) done (s.answered conn)
  suits : ∀ measured p, s.pending conn = some p → ∀ resp, p.Ends measured resp →
    Suits measured token (.request p.req) resp

theorem asked_concat (token : String) (l : List AgentEvent) (e : AgentEvent) (conn : Conn) :
    asked token (l ++ [e]) conn = asked token l conn ++
      ((Run.run Agent.step (Agent.start token) l).takes e conn).toList := by
  unfold asked
  rw [Run.trace_concat, List.filterMap_append]
  rfl

omit [SerdeJson] in
theorem waiting_none (s : Agent) (conn : Conn) (h : s.pending conn = none) :
    s.waiting conn = [] := by
  unfold Agent.waiting
  rw [h]

omit [SerdeJson] in
theorem waiting_some (s : Agent) (conn : Conn) (p : Pending) (h : s.pending conn = some p) :
    s.waiting conn = [.request p.req] := by
  unfold Agent.waiting
  rw [h]

theorem token_step (s : Agent) (e : AgentEvent) : (s.step e).token = s.token := by
  generalize hs : s.step e = s'
  have hdoes := does_step s e
  rw [hs] at hdoes
  cases hdoes <;> rfl

section
variable (M : Name → Option UInt64 → Prop) (s s' : Agent) (conn : Conn) (read : Option LineRead)
  (hconv : Converses M s conn read s')
include hconv

omit [SerdeJson] in
/-- What was asked is still answered, but for what the task waits with. -/
theorem served_converses (lines done : List LineRead) (hserved : lines = done ++ s.waiting conn)
    (hdone : List.Forall₂ (Suits M s.token) done (s.answered conn))
    (hsuits : ∀ p, s.pending conn = some p → ∀ resp, p.Ends M resp →
      Suits M s.token (.request p.req) resp) :
    ∃ done', lines ++ read.toList = done' ++ s'.waiting conn ∧
      List.Forall₂ (Suits M s.token) done' (s'.answered conn) := by
  rw [hserved]
  cases hconv with
  | rest _ hp ha =>
    refine ⟨done, ?_, by rw [ha]; exact hdone⟩
    unfold Agent.waiting
    rw [hp]
    exact List.append_nil _
  | wait _ req p hnone hreq hp ha =>
    refine ⟨done, ?_, by rw [ha]; exact hdone⟩
    rw [waiting_none s conn hnone, waiting_some s' conn p hp, req_of_wait s.token req p hreq,
      List.append_nil]
    rfl
  | reply _ read resp hnone hp hr ha =>
    refine ⟨done ++ [read], ?_, ?_⟩
    · rw [waiting_none s conn hnone, waiting_none s' conn hp, List.append_nil, List.append_nil]
      rfl
    · rw [ha]
      exact List.rel_append hdone (.cons hr .nil)
  | go _ p phase hp hp' hends ha =>
    refine ⟨done, ?_, by rw [ha]; exact hdone⟩
    rw [waiting_some s conn p hp, waiting_some s' conn _ hp']
    exact List.append_nil _
  | answer _ p resp hp hp' hends ha =>
    refine ⟨done ++ [.request p.req], ?_, ?_⟩
    · rw [waiting_some s conn p hp, waiting_none s' conn hp', List.append_nil]
      exact List.append_nil _
    · rw [ha]
      exact List.rel_append hdone (.cons (hsuits p hp resp hends) .nil)

omit [SerdeJson] in
/-- What a task that waits may be answered with suits its line. -/
theorem suits_converses
    (hsuits : ∀ measured p, s.pending conn = some p → ∀ resp, p.Ends measured resp →
      Suits measured s.token (.request p.req) resp)
    (measured : Name → Option UInt64 → Prop) (q : Pending) (hq : s'.pending conn = some q)
    (resp : Response) (hends : q.Ends measured resp) :
    Suits measured s.token (.request q.req) resp := by
  cases hconv with
  | rest _ hp ha =>
    rw [hp] at hq
    exact hsuits measured q hq resp hends
  | wait _ req p hnone hreq hp ha =>
    cases hp.symm.trans hq
    unfold Suits
    dsimp only
    rw [req_of_wait s.token req q hreq, hreq]
    exact hends
  | reply _ read r hnone hp hr ha => cases hp.symm.trans hq
  | go _ p phase hp hp' hgo ha =>
    cases hp'.symm.trans hq
    exact hsuits measured p hp resp (hgo measured resp hends)
  | answer _ p r hp hp' hr ha => cases hp'.symm.trans hq

end

theorem dialogue_step (token : String) (conn : Conn) (l : List AgentEvent) (e : AgentEvent)
    (h : Dialogue token conn l (Run.run Agent.step (Agent.start token) l)) :
    Dialogue token conn (l ++ [e]) (Run.run Agent.step (Agent.start token) (l ++ [e])) := by
  have hasked := asked_concat token l e conn
  have hnow : ∀ n, MeasuredIn token (l ++ [e]) n
      ((Run.run Agent.step (Agent.start token) l).measured n) :=
    fun n => Run.met_append Agent.step _ _ l [e] (Run.met_last Agent.step _ _ l rfl)
  have hmono : ∀ read resp, Suits (MeasuredIn token l) token read resp →
      Suits (MeasuredIn token (l ++ [e])) token read resp :=
    suits_mono _ _ (fun n ms hm => Run.met_append Agent.step _ _ l [e] hm) token
  rw [Run.run_concat]
  generalize Run.run Agent.step (Agent.start token) l = s at h hasked hnow
  obtain ⟨rfl, ⟨done, hserved, hdone⟩, hsuits⟩ := h
  have hconv := converses_step (MeasuredIn s.token (l ++ [e])) s conn hnow e
  refine ⟨token_step s e, ?_, suits_converses _ s (s.step e) conn _ hconv hsuits⟩
  rw [hasked]
  exact served_converses _ s (s.step e) conn _ hconv _ done hserved (hdone.imp hmono) (hsuits _)

theorem dialogue_run (token : String) (conn : Conn) (l : List AgentEvent) :
    Dialogue token conn l (Run.run Agent.step (Agent.start token) l) := by
  apply Run.run_history Agent.step (fun _ _ => True) (Dialogue token conn) (Agent.start token)
  · exact ⟨rfl, ⟨[], rfl, .nil⟩, by rintro M p ⟨⟩⟩
  · exact fun l e h _ => dialogue_step token conn l e h
  · exact Run.each_true Agent.step (Agent.start token) l

/-- **One answer for each line, in order**: in every run, whatever the other
connections do and in whatever order the tasks go on, what is answered on a
connection is what its first lines ask for, one answer a line, with what has been
measured for the name where that is asked; only the last line may be without, and
its task then waits. -/
theorem conversation (token : String) (l : List AgentEvent) (conn : Conn) :
    ∃ done, asked token l conn =
        done ++ (Run.run Agent.step (Agent.start token) l).waiting conn ∧
      List.Forall₂ (Suits (MeasuredIn token l) token) done
        ((Run.run Agent.step (Agent.start token) l).answered conn) :=
  (dialogue_run token conn l).served

end

/-! ## Tunnels lead to owners -/

section
variable [Libp2p] [SerdeJson] [Crates]

omit [SerdeJson] in
/-- Whoever `establish` returns owns the name. -/
theorem owner_establish (n : Name) (start : Nat) (rounds : List Round) (peer : Libp2p.PeerId)
    (dials : List Multiaddr) (h : establish n start rounds = some (.ok (peer, dials))) :
    Owner n peer := by
  obtain ⟨r, hr, hpeer, -, -⟩ := establish_ok n start rounds peer dials h
  obtain ⟨round, -, candidates, -, hsel⟩ := resolve_ok n _ rounds r hr
  obtain ⟨value, -, -, hver⟩ := select_mem n.keyid round.now MAX_SKEW candidates r hsel
  obtain ⟨-, ho, -⟩ := (verify_ok_iff r n.keyid round.now MAX_SKEW).mp hver
  exact ⟨r.body.pubkey, ho, hpeer⟩

omit [SerdeJson] in
theorem owner_of_parse (text : String) (n : Name) (peer : Libp2p.PeerId)
    (hn : Name.parse text = .ok n) (h : OwnerOf n.toString peer) : Owner n peer := by
  obtain ⟨m, hm, htext, ho⟩ := h
  rw [← toString_injective m n hm (parse_valid text n hn) htext]
  exact ho

/-- Ports, entries and answers are for owners. -/
structure Owned (token : String) (l : List AgentEvent) (s : Agent) : Prop where
  parsed : s.Parsed
  binds : ∀ conn p peer, s.pending conn = some p → p.phase = .bind peer → OwnerOf p.key peer
  inserts : ∀ conn p port peer, s.pending conn = some p → p.phase = .insert port peer →
    OwnerOf p.key peer ∧ Led token l port p.key peer
  listeners : ∀ port li, s.listeners port = some li → OwnerOf li.key li.peer
  tunnels : ∀ key port peer, s.tunnels key = some (port, peer) →
    OwnerOf key peer ∧ Led token l port key peer
  answers : ∀ conn name port, (conn, .tunnel name port) ∈ s.responses →
    ∃ n peer, Name.parse name = .ok n ∧ OwnerOf n.toString peer ∧
      Led token l port n.toString peer

omit [Crates] in
theorem led_append (token : String) (l : List AgentEvent) (e : AgentEvent) (port : UInt16)
    (key : String) (peer : Libp2p.PeerId) (h : Led token l port key peer) :
    Led token (l ++ [e]) port key peer :=
  Run.met_append Agent.step _ _ l [e] h

/-- The same things, after one more step. -/
theorem owned_later (token : String) (l : List AgentEvent) (e : AgentEvent) (s : Agent)
    (h : Owned token l s) : Owned token (l ++ [e]) s where
  parsed := h.parsed
  binds := h.binds
  inserts conn p port peer hp hphase :=
    (h.inserts conn p port peer hp hphase).imp_right (led_append token l e port p.key peer)
  listeners := h.listeners
  tunnels key port peer ht :=
    (h.tunnels key port peer ht).imp_right (led_append token l e port key peer)
  answers conn name port hm := by
    obtain ⟨n, peer, hn, ho, hled⟩ := h.answers conn name port hm
    exact ⟨n, peer, hn, ho, led_append token l e port n.toString peer hled⟩

omit [SerdeJson] [Crates] in
theorem pending_wait_cases (s : Agent) (conn other : Conn) (p q : Pending)
    (h : (s.wait conn p).pending other = some q) : q = p ∨ s.pending other = some q := by
  rcases (pending_wait s conn other p q).mp h with ⟨-, rfl⟩ | ⟨-, h⟩
  · exact Or.inl rfl
  · exact Or.inr h

/-- A task goes on to wait. -/
theorem owned_wait (token : String) (l : List AgentEvent) (s : Agent) (h : Owned token l s)
    (conn : Conn) (p : Pending) (hp : Name.parse p.req.name = .ok p.name)
    (hb : ∀ peer, p.phase = .bind peer → OwnerOf p.key peer)
    (hi : ∀ port peer, p.phase = .insert port peer →
      OwnerOf p.key peer ∧ Led token l port p.key peer) : Owned token l (s.wait conn p) where
  parsed := parsed_wait s h.parsed conn p hp
  binds other q peer hq hphase := by
    rcases pending_wait_cases s conn other p q hq with rfl | hq
    · exact hb peer hphase
    · exact h.binds other q peer hq hphase
  inserts other q port peer hq hphase := by
    rcases pending_wait_cases s conn other p q hq with rfl | hq
    · exact hi port peer hphase
    · exact h.inserts other q port peer hq hphase
  listeners := h.listeners
  tunnels := h.tunnels
  answers := h.answers

theorem owned_respond (token : String) (l : List AgentEvent) (s : Agent) (h : Owned token l s)
    (conn : Conn) (resp : Response)
    (hr : ∀ name port, resp = .tunnel name port → ∃ n peer, Name.parse name = .ok n ∧
      OwnerOf n.toString peer ∧ Led token l port n.toString peer) :
    Owned token l (s.respond conn resp) where
  parsed := parsed_respond s h.parsed conn resp
  binds other q peer hq := h.binds other q peer ((pending_respond s conn other resp q).mp hq).2
  inserts other q port peer hq :=
    h.inserts other q port peer ((pending_respond s conn other resp q).mp hq).2
  listeners := h.listeners
  tunnels := h.tunnels
  answers other name port hm := by
    rcases List.mem_append.mp hm with hm | hm
    · exact h.answers other name port hm
    · obtain ⟨-, hr'⟩ := Prod.mk.inj (List.mem_singleton.mp hm)
      exact hr name port hr'.symm

theorem owned_step (token : String) (l : List AgentEvent) (e : AgentEvent)
    (h : Owned token l (Run.run Agent.step (Agent.start token) l))
    (he : Establishes (Run.run Agent.step (Agent.start token) l) e) :
    Owned token (l ++ [e]) (Run.run Agent.step (Agent.start token) (l ++ [e])) := by
  have hlast : ∀ port key peer, ((Run.run Agent.step (Agent.start token) (l ++ [e])).listeners port =
      some ⟨key, peer⟩) → Led token (l ++ [e]) port key peer :=
    fun port key peer hl => Run.met_last Agent.step _ _ _ hl
  rw [Run.run_concat] at hlast ⊢
  generalize Run.run Agent.step (Agent.start token) l = s at h he hlast
  have h := owned_later token l e s h
  have hdoes := does_step s e
  generalize s.step e = s' at hdoes hlast
  cases hdoes with
  | nothing => exact h
  | answer e conn resp _ hport =>
    refine owned_respond token _ s h conn resp ?_
    rintro name port rfl
    cases hport
  | take conn text p hnone hparse hpast =>
    refine owned_wait token _ s h conn p hparse ?_ ?_
    · intro peer hphase
      rw [hphase] at hpast
      cases hpast
    · intro port peer hphase
      rw [hphase] at hpast
      cases hpast
  | hit conn p port peer hp hphase ht =>
    refine owned_respond token _ s h conn _ ?_
    rintro _ _ ⟨⟩
    exact ⟨p.name, peer, h.parsed conn p hp, h.tunnels p.key port peer ht⟩
  | miss conn p hp hphase ht =>
    have h' : Owned token (l ++ [.lock conn]) { s with lookups := s.lookups ++ [p.name] } :=
      ⟨h.parsed, h.binds, h.inserts, h.listeners, h.tunnels, h.answers⟩
    refine owned_wait token _ _ h' conn _ (h.parsed conn p hp) ?_ ?_
    · rintro peer ⟨⟩
    · rintro port peer ⟨⟩
  | insert conn p port peer hp hphase =>
    have hpeer := h.inserts conn p port peer hp hphase
    have h' : Owned token (l ++ [.lock conn])
        { s with tunnels := Function.update s.tunnels p.key (some (port, peer)) } := by
      refine ⟨h.parsed, h.binds, h.inserts, h.listeners, ?_, h.answers⟩
      intro key port' peer' ht
      rcases (Run.update_iff s.tunnels p.key (some (port, peer)) (· = some (port', peer')) key).mp ht
        with ⟨hkey, hentry⟩ | ⟨-, ht⟩
      · cases hentry
        rw [hkey]
        exact hpeer
      · exact h.tunnels key port' peer' ht
    refine owned_respond token _ _ h' conn (.tunnel p.req.name port) ?_
    rintro _ _ ⟨⟩
    exact ⟨p.name, peer, h.parsed conn p hp, hpeer⟩
  | establish conn p peer hp hphase =>
    obtain ⟨start, rounds, dials, hest⟩ := he p hp hphase
    have hname := h.parsed conn p hp
    refine owned_wait token _ s h conn _ hname ?_ ?_
    · rintro _ ⟨⟩
      exact ⟨p.name, parse_valid _ _ hname, rfl, owner_establish p.name start rounds peer dials hest⟩
    · rintro port _ ⟨⟩
  | bind conn p port peer hp hphase hfree =>
    have hpeer := h.binds conn p peer hp hphase
    have h' : Owned token (l ++ [.bound conn (.ok port)])
        { s with listeners := Function.update s.listeners port (some ⟨p.key, peer⟩) } := by
      refine ⟨h.parsed, h.binds, h.inserts, ?_, h.tunnels, h.answers⟩
      intro port' li hl
      rcases (Run.update_iff s.listeners port (some ⟨p.key, peer⟩) (· = some li) port').mp hl with
        ⟨-, hl⟩ | ⟨-, hl⟩
      · cases hl
        exact hpeer
      · exact h.listeners port' li hl
    refine owned_wait token _ _ h' conn _ (h.parsed conn p hp) ?_ ?_
    · rintro _ ⟨⟩
    · rintro _ _ ⟨⟩
      exact ⟨hpeer, hlast port p.key peer (Function.update_self _ _ _)⟩
  | ended port =>
    refine ⟨h.parsed, h.binds, h.inserts, ?_, h.tunnels, h.answers⟩
    intro port' li hl
    rcases (Run.update_iff s.listeners port none (· = some li) port').mp hl with ⟨-, ⟨⟩⟩ | ⟨-, hl⟩
    exact h.listeners port' li hl
  | measure => exact ⟨h.parsed, h.binds, h.inserts, h.listeners, h.tunnels, h.answers⟩

theorem owned_start (token : String) : Owned token [] (Agent.start token) where
  parsed := by rintro conn p ⟨⟩
  binds := by rintro conn p peer ⟨⟩
  inserts := by rintro conn p port peer ⟨⟩
  listeners := by rintro port li ⟨⟩
  tunnels := by rintro key port peer ⟨⟩
  answers := by rintro conn name port ⟨⟩

theorem owned_run (token : String) (l : List AgentEvent)
    (hl : Run.Each Agent.step Establishes (Agent.start token) l) :
    Owned token l (Run.run Agent.step (Agent.start token) l) := by
  apply Run.run_history Agent.step Establishes (Owned token) (Agent.start token) _ _ l hl
  · exact owned_start token
  · exact fun l e h he => owned_step token l e h he

/-- **Tunnels lead to owners**: in every run, whatever the DHT has answered, each
listener, each entry of the map and each port handed out leads, or has led, to the
peer of a key that owns the name's keyid. -/
theorem tunnels_owned (token : String) (l : List AgentEvent)
    (hl : Run.Each Agent.step Establishes (Agent.start token) l) :
    (∀ port li, (Run.run Agent.step (Agent.start token) l).listeners port = some li →
      OwnerOf li.key li.peer) ∧
    (∀ key port peer, (Run.run Agent.step (Agent.start token) l).tunnels key = some (port, peer) →
      OwnerOf key peer ∧ Led token l port key peer) ∧
    ∀ conn name port,
      (conn, .tunnel name port) ∈ (Run.run Agent.step (Agent.start token) l).responses →
      ∃ n peer, Name.parse name = .ok n ∧ Owner n peer ∧ Led token l port n.toString peer := by
  have h := owned_run token l hl
  refine ⟨h.listeners, h.tunnels, ?_⟩
  intro conn name port hm
  obtain ⟨n, peer, hn, ho, hled⟩ := h.answers conn name port hm
  exact ⟨n, peer, hn, owner_of_parse name n peer hn ho, hled⟩

/-! ## The hook -/

omit [Crates] [SerdeJson] in
/-- A tunnel suits a request for its name only. -/
theorem suits_tunnel (M : Name → Option UInt64 → Prop) (token : String) (req : Request)
    (name : String) (port : UInt16) (h : Suits M token (.request req) (.tunnel name port)) : name = req.name := by
  unfold Suits at h
  dsimp only at h
  rcases handleRequest_cases token req with ⟨resp, hr, hport⟩ | ⟨p, hp, -⟩
  · rw [hr] at h
    rw [← h] at hport
    cases hport
  · rw [hp] at h
    dsimp only at h
    rw [← req_of_wait token req p hp]
    unfold Pending.Ends at h
    split at h
    · obtain ⟨ms, ⟨⟩, -⟩ := h
    · rcases h with ⟨port', ht⟩ | ⟨e, ⟨⟩⟩
      cases ht
      rfl

omit [Crates] [SerdeJson] in
theorem mem_answered (s : Agent) (conn : Conn) (resp : Response) :
    resp ∈ s.answered conn ↔ (conn, resp) ∈ s.responses := by
  unfold Agent.answered
  rw [List.mem_filterMap]
  constructor
  · rintro ⟨⟨other, r⟩, hm, hr⟩
    dsimp only at hr
    split at hr
    · next ho =>
      cases hr
      rw [← ho]
      exact hm
    · cases hr
  · intro hm
    exact ⟨(conn, resp), hm, if_pos rfl⟩

omit [Crates] in
/-- The first answer is one to the first line. -/
theorem first_answer (token : String) (l : List AgentEvent) (conn : Conn) (read : LineRead)
    (reads : List LineRead) (resp : Response) (resps : List Response)
    (hasked : asked token l conn = read :: reads)
    (hans : (Run.run Agent.step (Agent.start token) l).answered conn = resp :: resps) :
    Suits (MeasuredIn token l) token read resp := by
  obtain ⟨done, hdone, hall⟩ := (dialogue_run token conn l).served
  rw [hans] at hall
  cases hall with
  | cons hsuits _ =>
    rw [hasked, List.cons_append] at hdone
    rw [(List.cons.inj hdone).1]
    exact hsuits

/-- **Who the hook leads to.**  Minecraft asks for a host that ends in `.minecraft`
while the agent of the control file runs, with whatever clients and whatever the
DHT answers it.  When the MOD gets the agent's first answer on its connection, the hook
returns no address or the port of a tunnel to the owner of the host's keyid. -/
theorem hook_leads_to_owner [Gson] [JavaText.CharacterData] (h : ReadsJson) (port : UInt16)
    (hport : port ≠ 0) (bytes : Vector UInt8 16) (serving : Serving)
    (agent : Answering) (hs : serving port.toNat = some agent) (l : List AgentEvent)
    (hl : Run.Each Agent.step Establishes (Agent.start (randomToken bytes)) l) (conn : Conn)
    (locale : JavaText.JavaLocale) (host : String)
    (hend : JavaText.endsWith (JavaText.toLowerCase locale host) ".minecraft" = true)
    (hlen : (Text.asBytes (Request.text ⟨"resolve", host, randomToken bytes⟩)).length ≤
      MAX_CONN_BYTES)
    (reads : List LineRead) (resps : List Response)
    (hasked : asked (randomToken bytes) l conn =
      .request ⟨"resolve", host, randomToken bytes⟩ :: reads)
    (hans : (Run.run Agent.step (Agent.start (randomToken bytes)) l).answered conn =
      agent.handle [] ⟨"resolve", host, randomToken bytes⟩ :: resps) :
    let hooked := AddressResolverMixin.resolve locale
      (endpoint (some (Control.text ⟨port, randomToken bytes⟩))) (wireExchange serving) (some host)
    hooked = .returned none ∨ ∃ n peer port', hooked = .returned (some ("127.0.0.1", port'.toNat)) ∧
      Name.parse host = .ok n ∧ Owner n peer ∧
      Led (randomToken bytes) l port' n.toString peer := by
  obtain ⟨e, he, hp, ht⟩ := endpoint_written h port hport bytes
  have hreq : AgentClient.resolveRequest e host = ⟨"resolve", host, randomToken bytes⟩ := by
    unfold AgentClient.resolveRequest
    rw [ht]
  intro hooked
  obtain ⟨address, hret, -⟩ := resolve_returned locale (some e) (wireExchange serving) host hend
  have hhooked : hooked = .returned address := by
    show AddressResolverMixin.resolve locale (endpoint (some (Control.text ⟨port, randomToken bytes⟩)))
      (wireExchange serving) (some host) = .returned address
    rw [he]
    exact hret
  cases address with
  | none => exact Or.inl hhooked
  | some address =>
    obtain ⟨a, p⟩ := address
    have hook := hook_wire h serving e agent (by rw [hp]; exact hs) locale host a p hend
    rw [hreq] at hook
    obtain ⟨rfl, -, name, port', hhandle, -, -, rfl⟩ := (hook hlen).mp hret
    have hfirst := first_answer (randomToken bytes) l conn _ _ _ _ hasked hans
    rw [hhandle] at hfirst hans
    have hname := suits_tunnel _ _ _ _ _ hfirst
    have hm : (conn, .tunnel name port') ∈
        (Run.run Agent.step (Agent.start (randomToken bytes)) l).responses := by
      rw [← mem_answered, hans]
      exact List.mem_cons_self
    obtain ⟨n, peer, hn, ho, hled⟩ := (owned_run (randomToken bytes) l hl).answers conn name port' hm
    rw [hname] at hn
    exact Or.inr ⟨n, peer, port', hhooked, hn, owner_of_parse host n peer hn ho, hled⟩

end

/-! ## A client asks for Alice -/

namespace Sample
attribute [local instance] crates libp2p flatSerde

def askAlice : Request := ⟨"resolve", aliceAddress, randomToken entropy⟩

/-- A client asks for Alice's address, and a tunnel is made at port 40001. -/
def connects : List AgentEvent :=
  [.line 1 askAlice.text, .lock 1] ++ makeTunnel 1 40001

theorem establishes_connects :
    Run.Each Agent.step Establishes (Agent.start (randomToken entropy)) connects := by
  refine ⟨trivial, trivial, ?_, trivial, trivial, trivial⟩
  intro p hp _
  have hname : ((Run.run Agent.step (Agent.start (randomToken entropy))
      [.line 1 askAlice.text, .lock 1]).pending 1).map Pending.name =
        some ⟨"alice", aliceKeyid⟩ := by
    decide +kernel
  obtain ⟨dials, hest⟩ := establish_alice
  have hp : (Run.run Agent.step (Agent.start (randomToken entropy))
      [.line 1 askAlice.text, .lock 1]).pending 1 = some p := hp
  rw [hp] at hname
  have hname := Option.some.inj hname
  rw [hname]
  exact ⟨0, [aliceRound], dials, hest⟩

theorem answered_connects :
    (Run.run Agent.step (Agent.start (randomToken entropy)) connects).answered 1 =
      [.tunnel aliceAddress 40001] := by
  decide +kernel

theorem asked_connects [Gson] (h : ReadsJson) :
    asked (randomToken entropy) connects 1 = [.request askAlice] := by
  have htakes : (Agent.start (randomToken entropy)).takes (.line 1 askAlice.text) 1 =
      some (.request askAlice) := by
    unfold Agent.takes
    dsimp only
    rw [if_pos ⟨rfl, rfl⟩, readText_request h]
  show List.filterMap id [(Agent.start (randomToken entropy)).takes (.line 1 askAlice.text) 1,
    none, none, none, none] = _
  rw [htakes]
  rfl

end Sample

section
attribute [local instance] Sample.crates Sample.libp2p Sample.flatSerde Sample.flatGson
  Sample.characterData

/-- The port that was handed out has led to the owner of Alice's keyid. -/
theorem tunnels_owned_alice : ∃ n peer, Name.parse Sample.aliceAddress = .ok n ∧ Owner n peer ∧
    Led (randomToken Sample.entropy) Sample.connects 40001 n.toString peer := by
  refine (tunnels_owned (randomToken Sample.entropy) Sample.connects
    Sample.establishes_connects).2.2 1 Sample.aliceAddress 40001 ?_
  rw [← mem_answered, Sample.answered_connects]
  exact List.mem_cons_self

/-- The agent of that run, which takes 12 s. -/
def Sample.answeringAlice : Answering := ⟨fun _ _ => .tunnel aliceAddress 40001, fun _ => some 12000⟩

theorem hook_leads_to_owner_alice :
    let hooked := AddressResolverMixin.resolve Sample.english
      (endpoint (some (Control.text ⟨40000, randomToken Sample.entropy⟩)))
      (wireExchange fun p => if p = 40000 then some Sample.answeringAlice else none)
      (some Sample.aliceAddress)
    hooked = .returned none ∨ ∃ n peer port', hooked = .returned (some ("127.0.0.1", port'.toNat)) ∧
      Name.parse Sample.aliceAddress = .ok n ∧ Owner n peer ∧
      Led (randomToken Sample.entropy) Sample.connects port' n.toString peer :=
  hook_leads_to_owner Sample.readsJson 40000 (by decide) Sample.entropy _
    Sample.answeringAlice rfl Sample.connects Sample.establishes_connects 1
    Sample.english Sample.aliceAddress (by decide +kernel) (by decide +kernel) [] []
    (Sample.asked_connects Sample.readsJson) Sample.answered_connects

end

end McTunnel
