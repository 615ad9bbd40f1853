import McTunnel.Cli.Agent

/-!
# The agent's tunnels (`agent.rs`, `resolve_and_tunnel`)

A resolve looks in the map of tunnels, and makes a tunnel when it finds none.
The lookup and the insert hold the lock one after the other, and the entry stays
when its listener ends.

    no name is looked up in vain while its tunnel is being made →
      one listener for a name, one port in all answers               (one_tunnel_of_alone)
    every entry is that of a running listener, and every answer names one ↔
      no listener ends that has an entry, or before it gets one      (always_live_iff)
-/

namespace McTunnel

section
variable [Libp2p]

/-! ## What the map is for -/

/-- At most one listener runs for a name. -/
def Agent.OneListener (s : Agent) : Prop :=
  ∀ port port' l l', s.listeners port = some l → s.listeners port' = some l' → l.key = l'.key →
    port = port'

/-- Answers for spellings of one name hand out one port. -/
def Agent.SamePort (s : Agent) : Prop :=
  ∀ conn conn' name name' port port' n, (conn, .tunnel name port) ∈ s.responses →
    (conn', .tunnel name' port') ∈ s.responses → Name.parse name = .ok n → Name.parse name' = .ok n →
    port = port'

/-- Every entry belongs to a listener that runs. -/
def Agent.MapLive (s : Agent) : Prop :=
  ∀ key port peer, s.tunnels key = some (port, peer) → s.listeners port = some ⟨key, peer⟩

/-- The task of the connection is making a tunnel under this key. -/
def Agent.Making (s : Agent) (key : String) (conn : Conn) : Prop :=
  ∃ p, s.pending conn = some p ∧ p.phase.past = true ∧ p.key = key

/-- No task finds no tunnel while another is making it. -/
def Alone (s : Agent) (e : AgentEvent) : Prop :=
  match e with
  | .lock conn => ∀ p, s.pending conn = some p → p.phase = .lookup → s.tunnels p.key = none →
      ∀ other, ¬ s.Making p.key other
  | _ => True

/-- An entry is made for a listener that runs, and no listener ends that has one. -/
def Steady (s : Agent) (e : AgentEvent) : Prop :=
  match e with
  | .lock conn => ∀ p port peer, s.pending conn = some p → p.phase = .insert port peer →
      s.listeners port = some ⟨p.key, peer⟩
  | .ended port => ∀ key peer, s.tunnels key ≠ some (port, peer)
  | _ => True

/-! ## Who is making a tunnel -/

theorem pending_wait (s : Agent) (conn other : Conn) (p q : Pending) :
    (s.wait conn p).pending other = some q ↔
      (other = conn ∧ q = p) ∨ (other ≠ conn ∧ s.pending other = some q) := by
  refine (Run.update_iff s.pending conn (some p) (· = some q) other).trans ?_
  simp [eq_comm]

theorem pending_respond (s : Agent) (conn other : Conn) (resp : Response) (q : Pending) :
    (s.respond conn resp).pending other = some q ↔ other ≠ conn ∧ s.pending other = some q := by
  refine (Run.update_iff s.pending conn none (· = some q) other).trans ?_
  simp

theorem making_wait (s : Agent) (conn other : Conn) (p : Pending) (key : String) :
    (s.wait conn p).Making key other ↔
      (other = conn ∧ p.phase.past = true ∧ p.key = key) ∨ (other ≠ conn ∧ s.Making key other) := by
  refine (Run.update_iff s.pending conn (some p)
    (fun o => ∃ q, o = some q ∧ q.phase.past = true ∧ q.key = key) other).trans ?_
  simp [Agent.Making]

theorem making_respond (s : Agent) (conn other : Conn) (resp : Response) (key : String) :
    (s.respond conn resp).Making key other ↔ other ≠ conn ∧ s.Making key other := by
  refine (Run.update_iff s.pending conn none
    (fun o => ∃ q, o = some q ∧ q.phase.past = true ∧ q.key = key) other).trans ?_
  simp [Agent.Making]

/-- The name of a task is that of its request. -/
def Agent.Parsed (s : Agent) : Prop :=
  ∀ conn p, s.pending conn = some p → Name.parse p.req.name = .ok p.name

theorem parsed_wait (s : Agent) (h : s.Parsed) (conn : Conn) (p : Pending)
    (hp : Name.parse p.req.name = .ok p.name) : (s.wait conn p).Parsed := by
  intro other q hq
  rcases (pending_wait s conn other p q).mp hq with ⟨-, rfl⟩ | ⟨-, hq⟩
  · exact hp
  · exact h other q hq

theorem parsed_respond (s : Agent) (h : s.Parsed) (conn : Conn) (resp : Response) :
    (s.respond conn resp).Parsed := by
  intro other q hq
  exact h other q ((pending_respond s conn other resp q).mp hq).2

theorem responses_ne_append (s : Agent) (conn : Conn) (resp : Response) :
    s.responses ≠ s.responses ++ [(conn, resp)] := by
  intro h
  have hl := congrArg List.length h
  rw [List.length_append] at hl
  exact absurd hl (by simp)

theorem response_eq (s : Agent) (conn conn' : Conn) (resp resp' : Response)
    (h : (s.respond conn resp).responses = s.responses ++ [(conn', resp')]) : resp = resp' := by
  have hl := List.append_cancel_left h
  cases hl
  rfl

/-! ## One tunnel for a name -/

/-- How the map, the listeners and the tasks belong together. -/
structure Sound (s : Agent) : Prop where
  parsed : s.Parsed
  missing : ∀ key conn, s.Making key conn → s.tunnels key = none
  one : ∀ key conn other, s.Making key conn → s.Making key other → conn = other
  owned : ∀ port l, s.listeners port = some l → s.tunnels l.key = some (port, l.peer) ∨
    ∃ conn p, s.pending conn = some p ∧ p.phase = .insert port l.peer ∧ p.key = l.key
  answered : ∀ conn name port, (conn, .tunnel name port) ∈ s.responses →
    ∃ n peer, Name.parse name = .ok n ∧ s.tunnels n.toString = some (port, peer)

theorem sound_start (token : String) : Sound (Agent.start token) where
  parsed := by rintro conn p ⟨⟩
  missing := by rintro key conn ⟨p, ⟨⟩, -⟩
  one := by rintro key conn other ⟨p, ⟨⟩, -⟩
  owned := by rintro port l ⟨⟩
  answered := by rintro conn name port ⟨⟩

/-- A listener whose tunnel is not in the map is that of a task with a tunnel to
insert, which `conn`'s is not. -/
theorem owned_other (s : Agent) (h : Sound s) (conn : Conn) (hno : s.NoInsert conn)
    (port : UInt16) (l : Listener) (hl : s.listeners port = some l) :
    s.tunnels l.key = some (port, l.peer) ∨ ∃ other q, other ≠ conn ∧
      s.pending other = some q ∧ q.phase = .insert port l.peer ∧ q.key = l.key := by
  rcases h.owned port l hl with hmap | ⟨other, q, hq, hphase, hk⟩
  · exact Or.inl hmap
  · have ho : other ≠ conn := by
      rintro rfl
      exact hno q port l.peer hq hphase
    exact Or.inr ⟨other, q, ho, hq, hphase, hk⟩

/-- A task that has no tunnel to insert goes on to wait for something. -/
theorem sound_wait (s : Agent) (h : Sound s) (conn : Conn) (p : Pending) (hno : s.NoInsert conn)
    (hp : Name.parse p.req.name = .ok p.name)
    (hpast : p.phase.past = true → s.tunnels p.key = none ∧ ∀ other, s.Making p.key other → other = conn) :
    Sound (s.wait conn p) where
  parsed := parsed_wait s h.parsed conn p hp
  missing := by
    intro key other hm
    rcases (making_wait s conn other p key).mp hm with ⟨-, hpp, rfl⟩ | ⟨-, hm⟩
    · exact (hpast hpp).1
    · exact h.missing key other hm
  one := by
    intro key other other' hm hm'
    rcases (making_wait s conn other p key).mp hm with ⟨ho, hpp, hk⟩ | ⟨ho, hm⟩
    · rcases (making_wait s conn other' p key).mp hm' with ⟨ho', -, -⟩ | ⟨ho', hm'⟩
      · rw [ho, ho']
      · rw [← hk] at hm'
        exact absurd ((hpast hpp).2 other' hm') ho'
    · rcases (making_wait s conn other' p key).mp hm' with ⟨-, hpp, hk⟩ | ⟨-, hm'⟩
      · rw [← hk] at hm
        exact absurd ((hpast hpp).2 other hm) ho
      · exact h.one key other other' hm hm'
  owned := by
    intro port l hl
    rcases owned_other s h conn hno port l hl with hmap | ⟨other, q, ho, hq, hphase, hk⟩
    · exact Or.inl hmap
    · exact Or.inr ⟨other, q, (pending_wait s conn other p q).mpr (Or.inr ⟨ho, hq⟩), hphase, hk⟩
  answered := h.answered

/-- A task that has no tunnel to insert answers; a port it hands out is in the map. -/
theorem sound_respond (s : Agent) (h : Sound s) (conn : Conn) (resp : Response)
    (hno : s.NoInsert conn)
    (hresp : ∀ name port, resp = .tunnel name port →
      ∃ n peer, Name.parse name = .ok n ∧ s.tunnels n.toString = some (port, peer)) :
    Sound (s.respond conn resp) where
  parsed := parsed_respond s h.parsed conn resp
  missing := by
    intro key other hm
    exact h.missing key other ((making_respond s conn other resp key).mp hm).2
  one := by
    intro key other other' hm hm'
    exact h.one key other other' ((making_respond s conn other resp key).mp hm).2
      ((making_respond s conn other' resp key).mp hm').2
  owned := by
    intro port l hl
    rcases owned_other s h conn hno port l hl with hmap | ⟨other, q, ho, hq, hphase, hk⟩
    · exact Or.inl hmap
    · exact Or.inr ⟨other, q, (pending_respond s conn other resp q).mpr ⟨ho, hq⟩, hphase, hk⟩
  answered := by
    intro other name port hm
    rcases List.mem_append.mp hm with hold | hnew
    · exact h.answered other name port hold
    · obtain ⟨-, hr⟩ := Prod.mk.inj (List.mem_singleton.mp hnew)
      exact hresp name port hr.symm

/-- The task that bound a port has the one listener of its name. -/
theorem sound_listen (s : Agent) (h : Sound s) (conn : Conn) (p : Pending) (port : UInt16)
    (peer : Libp2p.PeerId) (hp : s.pending conn = some p) (hphase : p.phase = .insert port peer) :
    Sound { s with listeners := Function.update s.listeners port (some ⟨p.key, peer⟩) } where
  parsed := h.parsed
  missing := h.missing
  one := h.one
  owned := by
    intro port' l hl
    rcases (Run.update_iff s.listeners port (some ⟨p.key, peer⟩) (· = some l) port').mp hl with
      ⟨rfl, hl'⟩ | ⟨-, hl⟩
    · cases hl'
      exact Or.inr ⟨conn, p, hp, hphase, rfl⟩
    · exact h.owned port' l hl
  answered := h.answered

/-- Who is making a tunnel is the only one, and there is none yet. -/
theorem making_alone (s : Agent) (h : Sound s) (conn : Conn) (p : Pending)
    (hp : s.pending conn = some p) (hpast : p.phase.past = true) :
    s.tunnels p.key = none ∧ ∀ other, s.Making p.key other → other = conn := by
  have hmaking : s.Making p.key conn := ⟨p, hp, hpast, rfl⟩
  refine ⟨h.missing p.key conn hmaking, ?_⟩
  intro other hm
  exact h.one p.key other conn hm hmaking

/-- The task inserts its tunnel and answers. -/
theorem sound_insert (s : Agent) (h : Sound s) (conn : Conn) (p : Pending) (port : UInt16)
    (peer : Libp2p.PeerId) (hp : s.pending conn = some p) (hphase : p.phase = .insert port peer) :
    Sound ({ s with tunnels := Function.update s.tunnels p.key (some (port, peer)) }.respond conn
      (.tunnel p.req.name port)) := by
  have hmaking : s.Making p.key conn := ⟨p, hp, by rw [hphase]; rfl, rfl⟩
  have hnone := h.missing p.key conn hmaking
  have hkeep : ∀ key v, s.tunnels key = some v →
      Function.update s.tunnels p.key (some (port, peer)) key = some v := by
    intro key v hv
    have hne : key ≠ p.key := by
      rintro rfl
      rw [hnone] at hv
      cases hv
    rw [Function.update_of_ne hne]
    exact hv
  constructor
  case parsed => exact parsed_respond { s with tunnels := _ } h.parsed conn (.tunnel p.req.name port)
  case missing =>
    intro key other hm
    obtain ⟨ho, hm⟩ := (making_respond _ conn other _ key).mp hm
    have hne : key ≠ p.key := by
      rintro rfl
      exact ho (h.one p.key other conn hm hmaking)
    show Function.update s.tunnels p.key (some (port, peer)) key = none
    rw [Function.update_of_ne hne]
    exact h.missing key other hm
  case one =>
    intro key other other' hm hm'
    exact h.one key other other' ((making_respond _ conn other _ key).mp hm).2
      ((making_respond _ conn other' _ key).mp hm').2
  case owned =>
    intro port' l hl
    rcases h.owned port' l hl with hmap | ⟨other, q, hq, hqp, hk⟩
    · exact Or.inl (hkeep l.key _ hmap)
    · by_cases ho : other = conn
      · rw [ho, hp] at hq
        cases hq
        rw [hphase] at hqp
        cases hqp
        left
        show Function.update s.tunnels p.key _ l.key = _
        rw [← hk, Function.update_self]
      · exact Or.inr ⟨other, q, (pending_respond _ conn other _ q).mpr ⟨ho, hq⟩, hqp, hk⟩
  case answered =>
    intro other name port' hm
    rcases List.mem_append.mp hm with hold | hnew
    · obtain ⟨n, peer', hn, ht⟩ := h.answered other name port' hold
      exact ⟨n, peer', hn, hkeep _ _ ht⟩
    · cases List.mem_singleton.mp hnew
      exact ⟨p.name, peer, h.parsed conn p hp, Function.update_self _ _ _⟩

theorem oneListener_of_sound (s : Agent) (h : Sound s) : s.OneListener := by
  intro port port' l l' hl hl' hk
  rcases h.owned port l hl with hmap | ⟨conn, p, hp, hphase, hpk⟩
  · rcases h.owned port' l' hl' with hmap' | ⟨conn', p', hp', hphase', hpk'⟩
    · rw [hk, hmap'] at hmap
      exact (Prod.mk.inj (Option.some.inj hmap)).1.symm
    · have hnone := h.missing l'.key conn' ⟨p', hp', by rw [hphase']; rfl, hpk'⟩
      rw [hk, hnone] at hmap
      cases hmap
  · have hmaking : s.Making l'.key conn := ⟨p, hp, by rw [hphase]; rfl, hpk.trans hk⟩
    rcases h.owned port' l' hl' with hmap' | ⟨conn', p', hp', hphase', hpk'⟩
    · rw [h.missing l'.key conn hmaking] at hmap'
      cases hmap'
    · have hcc := h.one l'.key conn conn' hmaking ⟨p', hp', by rw [hphase']; rfl, hpk'⟩
      rw [← hcc, hp] at hp'
      cases hp'
      rw [hphase] at hphase'
      exact (Phase.insert.inj hphase').1

theorem samePort_of_sound (s : Agent) (h : Sound s) : s.SamePort := by
  intro conn conn' name name' port port' n hr hr' hn hn'
  obtain ⟨m, peer, hm, ht⟩ := h.answered conn name port hr
  obtain ⟨m', peer', hm', ht'⟩ := h.answered conn' name' port' hr'
  rw [hn] at hm
  rw [hn'] at hm'
  cases hm
  cases hm'
  rw [ht] at ht'
  cases ht'
  rfl

variable [SerdeJson]

theorem sound_step (s : Agent) (e : AgentEvent) (h : Sound s) (ha : Alone s e) :
    Sound (s.step e) := by
  generalize hs : s.step e = s'
  have hdoes := does_step s e
  rw [hs] at hdoes
  cases hdoes with
  | nothing => exact h
  | answer e conn resp _ hport hno =>
    apply sound_respond s h conn resp hno
    rintro name port rfl
    cases hport
  | take conn text p hnone hparse hphase =>
    apply sound_wait s h conn p (noInsert_of_none s conn hnone) hparse
    intro hpast
    rw [hphase] at hpast
    cases hpast
  | hit conn p port peer hp hphase ht =>
    have hno := noInsert_of_phase s conn p hp (by rw [hphase]; rintro _ _ ⟨⟩)
    apply sound_respond s h conn _ hno
    rintro name port' ⟨⟩
    exact ⟨p.name, peer, h.parsed conn p hp, ht⟩
  | miss conn p hp hphase ht =>
    have hno := noInsert_of_phase s conn p hp (by rw [hphase]; rintro _ _ ⟨⟩)
    have h' : Sound { s with lookups := s.lookups ++ [p.name] } :=
      ⟨h.parsed, h.missing, h.one, h.owned, h.answered⟩
    refine sound_wait _ h' conn _ hno (h.parsed conn p hp) fun _ => ⟨ht, ?_⟩
    intro other hm
    exact absurd hm (ha p hp hphase ht other)
  | insert conn p port peer hp hphase => exact sound_insert s h conn p port peer hp hphase
  | establish conn p peer hp hphase =>
    have hno := noInsert_of_phase s conn p hp (by rw [hphase]; rintro _ _ ⟨⟩)
    exact sound_wait s h conn _ hno (h.parsed conn p hp) fun _ =>
      making_alone s h conn p hp (by rw [hphase]; rfl)
  | bind conn p port peer hp hphase hfree =>
    have hno := noInsert_of_phase s conn p hp (by rw [hphase]; rintro _ _ ⟨⟩)
    have hw : Sound (s.wait conn { p with phase := .insert port peer }) :=
      sound_wait s h conn _ hno (h.parsed conn p hp) fun _ =>
        making_alone s h conn p hp (by rw [hphase]; rfl)
    exact sound_listen _ hw conn { p with phase := .insert port peer } port peer
      (Function.update_self _ _ _) rfl
  | ended port =>
    refine ⟨h.parsed, h.missing, h.one, ?_, h.answered⟩
    intro port' l hl
    have hl : Function.update s.listeners port none port' = some l := hl
    by_cases he : port' = port
    · rw [he, Function.update_self] at hl
      cases hl
    · rw [Function.update_of_ne he] at hl
      exact h.owned port' l hl
  | measure peer ms => exact ⟨h.parsed, h.missing, h.one, h.owned, h.answered⟩

/-- The other connections wait for what they waited for. -/
theorem pending_step (s : Agent) (e : AgentEvent) (other : Conn) (ho : e.conn ≠ some other) :
    (s.step e).pending other = s.pending other := by
  generalize hs : s.step e = s'
  have hdoes := does_step s e
  rw [hs] at hdoes
  have hne : ∀ conn, e.conn = some conn → other ≠ conn := by
    rintro conn hc rfl
    exact ho hc
  cases hdoes with
  | nothing => rfl
  | answer e conn resp hc => exact Function.update_of_ne (hne conn hc) _ _
  | take conn => exact Function.update_of_ne (hne conn rfl) _ _
  | hit conn => exact Function.update_of_ne (hne conn rfl) _ _
  | miss conn => exact Function.update_of_ne (hne conn rfl) _ _
  | insert conn => exact Function.update_of_ne (hne conn rfl) _ _
  | establish conn => exact Function.update_of_ne (hne conn rfl) _ _
  | bind conn => exact Function.update_of_ne (hne conn rfl) _ _
  | ended => rfl
  | measure => rfl

/-- A single client never makes a tunnel twice. -/
theorem each_alone_single (conn : Conn) (token : String) (l : List AgentEvent)
    (hl : ∀ e ∈ l, ∀ other, e.conn = some other → other = conn) :
    Run.Each Agent.step Alone (Agent.start token) l := by
  obtain ⟨-, heach⟩ := Run.always_of_each Agent.step
    (fun _ e => ∀ other, e.conn = some other → other = conn)
    (fun s => ∀ other, other ≠ conn → s.pending other = none)
    (by
      intro s e hnone he other ho
      rw [pending_step s e other (fun h => ho (he other h))]
      exact hnone other ho)
    (Agent.start token) (fun _ _ => rfl) l (Run.each_of_forall _ _ l (fun e he _ => hl e he) _)
  apply Run.each_mono _ _ _ _ _ l heach
  rintro s e ⟨hnone, he⟩
  cases e with
  | lock conn' =>
    rintro p hp hphase - other ⟨q, hq, hpast, -⟩
    have ho : other = conn' := by
      rw [he conn' rfl]
      by_contra ho
      rw [hnone other ho] at hq
      cases hq
    rw [ho, hp] at hq
    cases hq
    rw [hphase] at hpast
    cases hpast
  | _ => trivial

/-! ## Live entries -/

theorem mapLive_step_iff (s : Agent) (e : AgentEvent) (h : s.MapLive) :
    (s.step e).MapLive ↔ Steady s e := by
  generalize hs : s.step e = s'
  have hdoes := does_step s e
  rw [hs] at hdoes
  have hsteady : ∀ conn, e.conn = some conn → s.NoInsert conn → Steady s e := by
    intro conn hc hno
    cases e with
    | lock conn' =>
      cases hc
      intro p port peer hp hphase
      exact absurd hphase (hno p port peer hp)
    | ended port => cases hc
    | line conn' text => trivial
    | established conn' result => trivial
    | bound conn' result => trivial
    | rtt peer ms => trivial
  cases hdoes with
  | nothing e conn hc hno =>
    refine ⟨fun _ => ?_, fun _ => h⟩
    cases e with
    | lock conn' => exact hsteady conn hc (hno (by cases hc; rfl))
    | ended port => cases hc
    | line conn' text => trivial
    | established conn' result => trivial
    | bound conn' result => trivial
    | rtt peer ms => trivial
  | answer e conn resp hc _ hno => exact ⟨fun _ => hsteady conn hc hno, fun _ => h⟩
  | take conn text p hnone hparse hphase => exact ⟨fun _ => trivial, fun _ => h⟩
  | hit conn p port peer hp hphase ht =>
    have hno := noInsert_of_phase s conn p hp (by rw [hphase]; rintro _ _ ⟨⟩)
    exact ⟨fun _ => hsteady conn rfl hno, fun _ => h⟩
  | miss conn p hp hphase ht =>
    have hno := noInsert_of_phase s conn p hp (by rw [hphase]; rintro _ _ ⟨⟩)
    exact ⟨fun _ => hsteady conn rfl hno, fun _ => h⟩
  | insert conn p port peer hp hphase =>
    constructor
    · intro hlive q port' peer' hq hqp
      rw [hp] at hq
      cases hq
      rw [hphase] at hqp
      cases hqp
      exact hlive p.key port peer (Function.update_self _ _ _)
    · intro hst key port' peer' ht
      rcases (Run.update_iff s.tunnels p.key (some (port, peer)) (· = some (port', peer')) key).mp ht
        with ⟨rfl, ht'⟩ | ⟨-, ht⟩
      · cases ht'
        exact hst p port peer hp hphase
      · exact h key port' peer' ht
  | establish conn p peer hp hphase => exact ⟨fun _ => trivial, fun _ => h⟩
  | bind conn p port peer hp hphase hfree =>
    refine ⟨fun _ => trivial, fun _ => ?_⟩
    intro key port' peer' ht
    have hl := h key port' peer' ht
    show Function.update s.listeners port _ port' = _
    have hne : port' ≠ port := by
      rintro rfl
      rw [hfree] at hl
      cases hl
    rw [Function.update_of_ne hne]
    exact hl
  | ended port =>
    constructor
    · intro hlive key peer ht
      have hl : Function.update s.listeners port none port = some ⟨key, peer⟩ := hlive key port peer ht
      rw [Function.update_self] at hl
      cases hl
    · intro hst key port' peer' ht
      have hne : port' ≠ port := by
        rintro rfl
        exact hst key peer' ht
      show Function.update s.listeners port none port' = _
      rw [Function.update_of_ne hne]
      exact h key port' peer' ht
  | measure peer ms => exact ⟨fun _ => trivial, fun _ => h⟩

theorem parsed_step (s : Agent) (e : AgentEvent) (h : s.Parsed) : (s.step e).Parsed := by
  generalize hs : s.step e = s'
  have hdoes := does_step s e
  rw [hs] at hdoes
  cases hdoes with
  | nothing => exact h
  | answer e conn resp => exact parsed_respond s h conn resp
  | take conn text p hnone hparse => exact parsed_wait s h conn p hparse
  | hit conn p port peer hp => exact parsed_respond s h conn _
  | miss conn p hp => exact parsed_wait { s with lookups := _ } h conn _ (h conn p hp)
  | insert conn p port peer hp =>
    exact parsed_respond { s with tunnels := _ } h conn (.tunnel p.req.name port)
  | establish conn p peer hp => exact parsed_wait s h conn _ (h conn p hp)
  | bind conn p port peer hp => exact parsed_wait { s with listeners := _ } h conn _ (h conn p hp)
  | ended port => exact h
  | measure peer ms => exact h

/-- A port that the step hands out is that of a listener of the name. -/
def HandsLive (s : Agent) (e : AgentEvent) : Prop :=
  ∀ conn name port, (s.step e).responses = s.responses ++ [(conn, .tunnel name port)] →
    ∃ n peer, Name.parse name = .ok n ∧ (s.step e).listeners port = some ⟨n.toString, peer⟩

theorem handsLive_step (s : Agent) (e : AgentEvent) (h : s.MapLive) (hparsed : s.Parsed)
    (hst : Steady s e) : HandsLive s e := by
  intro conn' name port' hr
  generalize hs : s.step e = s' at hr ⊢
  have hdoes := does_step s e
  rw [hs] at hdoes
  cases hdoes with
  | nothing => exact absurd hr (responses_ne_append s _ _)
  | answer e conn resp _ hport =>
    rw [response_eq s _ _ _ _ hr] at hport
    cases hport
  | take => exact absurd hr (responses_ne_append s _ _)
  | hit conn p port peer hp hphase ht =>
    obtain ⟨rfl, rfl⟩ := Response.tunnel.inj (response_eq s _ _ _ _ hr)
    exact ⟨p.name, peer, hparsed conn p hp, h p.key port peer ht⟩
  | miss => exact absurd hr (responses_ne_append s _ _)
  | insert conn p port peer hp hphase =>
    obtain ⟨rfl, rfl⟩ := Response.tunnel.inj (response_eq { s with tunnels := _ } _ _ _ _ hr)
    exact ⟨p.name, peer, hparsed conn p hp, hst p port peer hp hphase⟩
  | establish => exact absurd hr (responses_ne_append s _ _)
  | bind => exact absurd hr (responses_ne_append s _ _)
  | ended => exact absurd hr (responses_ne_append s _ _)
  | measure => exact absurd hr (responses_ne_append s _ _)

/-! ## Top theorems -/

/-- **One tunnel for a name**, in every run in which no name is looked up in
vain while its tunnel is being made: at every point at most one listener runs
for it, and all answers for its spellings hand out one port. -/
theorem one_tunnel_of_alone (token : String) (l : List AgentEvent)
    (hl : Run.Each Agent.step Alone (Agent.start token) l) :
    Run.Always Agent.step (fun s => s.OneListener ∧ s.SamePort) (Agent.start token) l := by
  obtain ⟨hall, -⟩ := Run.always_of_each Agent.step Alone Sound sound_step (Agent.start token)
    (sound_start token) l hl
  intro l1 l2 h
  have hs := hall l1 l2 h
  exact ⟨oneListener_of_sound _ hs, samePort_of_sound _ hs⟩

/-- **Every entry of the map belongs to a listener that runs, and every port is
that of one when it is handed out, exactly in the steady runs**: no listener
ends that has an entry, and none before it gets its entry. -/
theorem always_live_iff (token : String) (l : List AgentEvent) :
    (Run.Always Agent.step Agent.MapLive (Agent.start token) l ∧
      Run.Each Agent.step HandsLive (Agent.start token) l) ↔
    Run.Each Agent.step Steady (Agent.start token) l := by
  have hstart : (Agent.start token).MapLive := by rintro key port peer ⟨⟩
  have hparsed : (Agent.start token).Parsed := by rintro conn p ⟨⟩
  have hiff := Run.always_iff_each Agent.step Steady Agent.MapLive mapLive_step_iff
    (Agent.start token) hstart l
  constructor
  · rintro ⟨ha, -⟩
    exact hiff.mp ha
  · intro he
    refine ⟨hiff.mpr he, ?_⟩
    obtain ⟨-, heach⟩ := Run.always_of_each Agent.step Steady (fun s => s.MapLive ∧ s.Parsed)
      (fun s e h hst => ⟨(mapLive_step_iff s e h.1).mpr hst, parsed_step s e h.2⟩)
      (Agent.start token) ⟨hstart, hparsed⟩ l he
    apply Run.each_mono _ _ _ _ _ l heach
    rintro s e ⟨⟨hlive, hp⟩, hst⟩
    exact handsLive_step s e hlive hp hst

end

/-! ## Runs of Alice's clients -/

namespace Sample
attribute [local instance] libp2p serdeJson

/-- The connection's task makes a tunnel at this port. -/
def makeTunnel (conn : Conn) (port : UInt16) : List AgentEvent :=
  [.established conn (.ok alicePeer), .bound conn (.ok port), .lock conn]

/-- Two requests for Alice's name, the second while the first is under way. -/
def overlap : List AgentEvent :=
  [.line 1 resolveLine, .lock 1, .line 2 resolveLine, .lock 2] ++ makeTunnel 1 40001 ++
    makeTunnel 2 40002

/-- Two requests one after the other. -/
def repeated : List AgentEvent :=
  [.line 1 resolveLine, .lock 1] ++ makeTunnel 1 40001 ++ [.line 1 resolveLine, .lock 1]

/-- Two requests one after the other; in between the listener ends. -/
def outlived : List AgentEvent :=
  [.line 1 resolveLine, .lock 1] ++ makeTunnel 1 40001 ++ [.ended 40001] ++
    [.line 1 resolveLine, .lock 1]

end Sample

section
attribute [local instance] Sample.libp2p Sample.serdeJson

/-- Both of two overlapping requests make a tunnel, and both listeners run. -/
theorem overlapping_resolves :
    ¬ (Run.run Agent.step (Agent.start Sample.token) Sample.overlap).OneListener ∧
    ¬ (Run.run Agent.step (Agent.start Sample.token) Sample.overlap).SamePort := by
  generalize hs : Run.run Agent.step (Agent.start Sample.token) Sample.overlap = s
  obtain ⟨hport, hkey, hkey'⟩ : s.responses =
      [(1, .tunnel Sample.aliceAddress 40001), (2, .tunnel Sample.aliceAddress 40002)] ∧
      (s.listeners 40001).map Listener.key = some Sample.aliceAddress ∧
      (s.listeners 40002).map Listener.key = some Sample.aliceAddress := by
    rw [← hs]
    decide +kernel
  constructor
  · intro hone
    obtain ⟨l, hl, hk⟩ := Option.map_eq_some_iff.mp hkey
    obtain ⟨l', hl', hk'⟩ := Option.map_eq_some_iff.mp hkey'
    exact absurd (hone 40001 40002 l l' hl hl' (hk.trans hk'.symm)) (by decide)
  · intro hsame
    rw [Agent.SamePort, hport] at hsame
    have h := hsame 1 2 _ _ 40001 40002 _ List.mem_cons_self
      (List.mem_cons_of_mem _ List.mem_cons_self) Sample.parse_aliceAddress Sample.parse_aliceAddress
    exact absurd h (by decide)

theorem one_tunnel_repeated :
    Run.Always Agent.step (fun s => s.OneListener ∧ s.SamePort) (Agent.start Sample.token)
      Sample.repeated := by
  apply one_tunnel_of_alone
  exact each_alone_single 1 Sample.token _ (by decide)

/-- The second answer hands out a port at which nothing listens any more. -/
theorem dead_port_handed :
    (Run.run Agent.step (Agent.start Sample.token) Sample.outlived).responses =
      [(1, .tunnel Sample.aliceAddress 40001), (1, .tunnel Sample.aliceAddress 40001)] ∧
    (Run.run Agent.step (Agent.start Sample.token) Sample.outlived).listeners 40001 = none ∧
    ¬ (Run.run Agent.step (Agent.start Sample.token) Sample.outlived).MapLive := by
  generalize hs : Run.run Agent.step (Agent.start Sample.token) Sample.outlived = s
  obtain ⟨hresponses, hgone, htunnel⟩ : s.responses =
      [(1, .tunnel Sample.aliceAddress 40001), (1, .tunnel Sample.aliceAddress 40001)] ∧
      (s.listeners 40001).isNone = true ∧
      s.tunnels Sample.aliceAddress = some (40001, Sample.alicePeer) := by
    rw [← hs]
    decide +kernel
  have hnone := Option.isNone_iff_eq_none.mp hgone
  refine ⟨hresponses, hnone, fun hlive => ?_⟩
  rw [hlive _ _ _ htunnel] at hnone
  cases hnone

end

end McTunnel
