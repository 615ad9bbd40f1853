import McTunnel.Cli.Agent

/-!
# Requests without the token (`agent.rs`, `handle_request`)

What a line without the token is answered is read off the line (`refusal`).
Two agents that get the same such lines answer the same, whatever their tunnels,
round trips and tokens are and whatever else goes on, and neither does anything.

    no line presents the token → the run answers refusals and only that    (refused_run)
    two such runs with the same lines → the same answers, no tunnel, no
      lookup; tokenOk is equality                                          (unauthorized_inert)
-/

namespace McTunnel

/-! ## Refusals -/

/-- What a request with a wrong token is answered. -/
def refuse (op : String) : Response :=
  if op = "ping" then .ok
  else if op = "resolve" then .error "unauthorized (bad or missing token)"
  else if op = "rtt" then .error "unauthorized"
  else .error ("unknown op: " ++ op)

section
variable [SerdeJson]

/-- What a line without the token is answered. -/
def refusal (text : String) : Option Response :=
  if (Text.trim text).isEmpty then none
  else
    match SerdeJson.fromStr (Text.trim text) with
    | .error e => some (.error ("bad request: " ++ e))
    | .ok fields => some (refuse (Request.ofFields fields).op)

/-- The line is a request that carries this token. -/
def Presents (token text : String) : Prop :=
  ∃ fields, SerdeJson.fromStr (Text.trim text) = .ok fields ∧
    (Request.ofFields fields).token = token

def refusals (lines : List (Conn × String)) : List (Conn × Response) :=
  lines.filterMap fun l => (refusal l.2).map fun resp => (l.1, resp)

end

section
variable [Libp2p]

/-- The line an event hands to a connection's task. -/
def AgentEvent.taken : AgentEvent → Option (Conn × String)
  | .line conn text => some (conn, text)
  | _ => none

def linesOf (l : List AgentEvent) : List (Conn × String) := l.filterMap AgentEvent.taken

/-- No request is in flight. -/
def Agent.Idle (s : Agent) : Prop := ∀ conn, s.pending conn = none

theorem handleRequest_refused (token : String) (req : Request) (h : req.token ≠ token) :
    handleRequest token req = .reply (refuse req.op) := by
  have ht : tokenOk token req.token = false := by
    rw [← Bool.not_eq_true, tokenOk_eq_true_iff]
    exact fun he => h he.symm
  unfold handleRequest refuse
  rw [if_pos ht, if_pos ht]
  split
  · rfl
  · split
    · rfl
    · split
      · rfl
      · rfl

/-- What a step leaves as it is, and what it answers. -/
structure Refused (s s' : Agent) (answers : List (Conn × Response)) : Prop where
  idle : s'.Idle
  token : s'.token = s.token
  tunnels : s'.tunnels = s.tunnels
  lookups : s'.lookups = s.lookups
  responses : s'.responses = s.responses ++ answers

theorem refused_respond (s : Agent) (h : s.Idle) (conn : Conn) (resp : Response) :
    Refused s (s.respond conn resp) [(conn, resp)] where
  idle := by
    intro other
    show Function.update s.pending conn none other = none
    by_cases ho : other = conn
    · rw [ho, Function.update_self]
    · rw [Function.update_of_ne ho]
      exact h other
  token := rfl
  tunnels := rfl
  lookups := rfl
  responses := rfl

theorem refused_self (s : Agent) (h : s.Idle) : Refused s s [] :=
  ⟨h, rfl, rfl, rfl, (List.append_nil _).symm⟩

variable [SerdeJson]

theorem takeLine_refused (s : Agent) (conn : Conn) (text : String) (hnone : s.pending conn = none)
    (hno : ¬ Presents s.token text) :
    (refusal text = none ∧ s.takeLine conn text = s) ∨
      ∃ resp, refusal text = some resp ∧ s.takeLine conn text = s.respond conn resp := by
  unfold Agent.takeLine refusal
  rw [hnone]
  dsimp only
  by_cases hblank : (Text.trim text).isEmpty = true
  · rw [if_pos hblank, if_pos hblank]
    exact Or.inl ⟨rfl, rfl⟩
  · rw [if_neg hblank, if_neg hblank]
    right
    cases hf : SerdeJson.fromStr (Text.trim text) with
    | error e => exact ⟨_, rfl, rfl⟩
    | ok fields =>
      refine ⟨_, rfl, ?_⟩
      dsimp only
      rw [handleRequest_refused s.token _ fun ht => hno ⟨fields, hf, ht⟩]

theorem refused_takeLine (s : Agent) (h : s.Idle) (conn : Conn) (text : String)
    (hno : ¬ Presents s.token text) :
    Refused s (s.takeLine conn text) (refusals [(conn, text)]) := by
  rcases takeLine_refused s conn text (h conn) hno with ⟨hr, hs⟩ | ⟨resp, hr, hs⟩
  · have hnone : refusals [(conn, text)] = [] := by simp [refusals, hr]
    rw [hs, hnone]
    exact refused_self s h
  · have hsome : refusals [(conn, text)] = [(conn, resp)] := by simp [refusals, hr]
    rw [hs, hsome]
    exact refused_respond s h conn resp

theorem refused_step (s : Agent) (h : s.Idle) (e : AgentEvent)
    (hno : ∀ conn text, e.taken = some (conn, text) → ¬ Presents s.token text) :
    Refused s (s.step e) (refusals e.taken.toList) := by
  cases e with
  | line conn text => exact refused_takeLine s h conn text (hno conn text rfl)
  | lock conn =>
    have hs : s.getLock conn = s := by
      unfold Agent.getLock
      rw [h conn]
    show Refused s (s.getLock conn) []
    rw [hs]
    exact refused_self s h
  | established conn result =>
    have hs : s.establishes conn result = s := by
      unfold Agent.establishes
      rw [h conn]
    show Refused s (s.establishes conn result) []
    rw [hs]
    exact refused_self s h
  | bound conn result =>
    have hs : s.binds conn result = s := by
      unfold Agent.binds
      rw [h conn]
    show Refused s (s.binds conn result) []
    rw [hs]
    exact refused_self s h
  | ended port => exact ⟨h, rfl, rfl, rfl, (List.append_nil _).symm⟩
  | rtt peer ms => exact ⟨h, rfl, rfl, rfl, (List.append_nil _).symm⟩

/-- A run whose lines do not present the token. -/
theorem refused_run (s : Agent) (h : s.Idle) (l : List AgentEvent)
    (hno : ∀ p ∈ linesOf l, ¬ Presents s.token p.2) :
    Refused s (Run.run Agent.step s l) (refusals (linesOf l)) := by
  induction l generalizing s with
  | nil => exact refused_self s h
  | cons e l ih =>
    have hsplit : linesOf (e :: l) = e.taken.toList ++ linesOf l := by
      unfold linesOf
      rw [List.filterMap_cons]
      cases e.taken with
      | none => rfl
      | some p => rfl
    rw [hsplit] at hno ⊢
    have hs := refused_step s h e fun conn text he =>
      hno (conn, text) (List.mem_append_left _ (Option.mem_toList.mpr he))
    have hl := ih (s.step e) hs.idle fun p hp => by
      rw [hs.token]
      exact hno p (List.mem_append_right _ hp)
    refine ⟨hl.idle, hl.token.trans hs.token, hl.tunnels.trans hs.tunnels,
      hl.lookups.trans hs.lookups, ?_⟩
    rw [Run.run_cons, hl.responses, hs.responses, List.append_assoc, refusals, refusals, refusals,
      List.filterMap_append]

/-! ## Top theorem -/

/-- **Without the token an agent neither acts nor leaks.**  Two agents with
nothing in flight and whatever tokens, tunnels, listeners and round trips get
the same lines, none with a token of theirs, and anything else besides: what they
answer is the same, no tunnel is made, nobody is looked up.  And the comparison
of tokens is equality. -/
theorem unauthorized_inert (s1 s2 : Agent) (l1 l2 : List AgentEvent) (h1 : s1.Idle) (h2 : s2.Idle)
    (hlines : linesOf l1 = linesOf l2) (hno1 : ∀ p ∈ linesOf l1, ¬ Presents s1.token p.2)
    (hno2 : ∀ p ∈ linesOf l2, ¬ Presents s2.token p.2) :
    (∃ answers, (Run.run Agent.step s1 l1).responses = s1.responses ++ answers ∧
      (Run.run Agent.step s2 l2).responses = s2.responses ++ answers) ∧
    (Run.run Agent.step s1 l1).tunnels = s1.tunnels ∧
    (Run.run Agent.step s1 l1).lookups = s1.lookups ∧
    ∀ a b, tokenOk a b = true ↔ a = b := by
  have hr1 := refused_run s1 h1 l1 hno1
  have hr2 := refused_run s2 h2 l2 hno2
  rw [← hlines] at hr2
  exact ⟨⟨refusals (linesOf l1), hr1.responses, hr2.responses⟩, hr1.tunnels, hr1.lookups,
    tokenOk_eq_true_iff⟩

end

/-! ## Two agents -/

namespace Sample
attribute [local instance] libp2p serdeJson

/-- An agent with a tunnel and another token. -/
def busy : Agent := { Agent.start "0f0f0f0f0f0f0f0f0f0f0f0f0f0f0f0f" with
  tunnels := Function.update (fun _ => none) aliceAddress (some (40001, alicePeer)) }

/-- A resolve without a token, then garbage. -/
def hostile : List AgentEvent := [.line 1 bareLine, .line 2 garbage]

/-- The same lines, with a new round trip and a listener's end in between. -/
def hostile' : List AgentEvent :=
  [.rtt alicePeer (some 40), .line 1 bareLine, .ended 40001, .line 2 garbage]

theorem fromStr_bareLine : serdeJson.fromStr (Text.trim bareLine) =
    .ok ⟨"resolve", some "abcdefghijklmnop.minecraft", none⟩ := by
  have ht : Text.trim bareLine = bareLine ∧ bareLine ≠ resolveLine := by decide +kernel
  rw [ht.1]
  exact (if_neg ht.2).trans (if_pos rfl)

theorem fromStr_garbage : serdeJson.fromStr (Text.trim garbage) =
    .error "expected ident at line 1 column 2" := by
  have ht : Text.trim garbage = garbage ∧ garbage ≠ resolveLine ∧ garbage ≠ bareLine := by
    decide +kernel
  rw [ht.1]
  exact (if_neg ht.2.1).trans (if_neg ht.2.2)

theorem hostile_no_token (token : String) (h : "" ≠ token) :
    ∀ p ∈ linesOf hostile, ¬ Presents token p.2 := by
  rintro p hp ⟨fields, hf, ht⟩
  rcases List.mem_cons.mp hp with rfl | hp
  · cases fromStr_bareLine.symm.trans hf
    exact h ht
  · cases List.mem_singleton.mp hp
    cases fromStr_garbage.symm.trans hf

end Sample

section
attribute [local instance] Sample.libp2p Sample.serdeJson

theorem unauthorized_inert_hostile :
    (Run.run Agent.step (Agent.start Sample.token) Sample.hostile).responses =
      (Run.run Agent.step Sample.busy Sample.hostile').responses ∧
    (Run.run Agent.step (Agent.start Sample.token) Sample.hostile).lookups = [] := by
  obtain ⟨⟨answers, ha, hb⟩, -, hl, -⟩ := unauthorized_inert (Agent.start Sample.token) Sample.busy
    Sample.hostile Sample.hostile' (fun _ => rfl) (fun _ => rfl) rfl
    (Sample.hostile_no_token _ (by decide)) (Sample.hostile_no_token _ (by decide))
  exact ⟨ha.trans hb.symm, hl⟩

end

end McTunnel
