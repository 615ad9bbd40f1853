import McTunnel.Cli.Pacing
import McTunnel.Net.Queries
import McTunnel.System.Conversation

/-!
# A lookup at a node (`tunnel.rs` and `node.rs`)

`establish` runs in a task of its own: it hands the network task a command, waits for
the reply and pauses, and at last dials what the record says.  The network task takes
up the commands of other tasks and the events of the swarm meanwhile.

    the task ends as `establish` does on what was reported on its own queries,
      up to the end of each                                         (lookup_served)
    one answer that verifies is enough, whoever else answers             (lookup_finds)
-/

namespace McTunnel

open Clock (Time nanosPerSec)

/-! ## The task -/

section
variable [Libp2p]

/-- Where the task is. -/
inductive LookupAt
  /-- about to send `GetRecord` -/
  | asking
  | waiting (resp : Chan)
  /-- until that instant -/
  | sleeping (wake : Nat)
  /-- about to dial the first of these -/
  | dialing (peer : Libp2p.PeerId) (addrs : List Multiaddr)
  | ended (result : Except String Libp2p.PeerId)

/-- The node, the task, and the addresses it has dialed. -/
structure Lookup where
  node : Node
  at' : LookupAt
  dialed : List Multiaddr

inductive LookupStep
  /-- the network task takes up the command of the lookup -/
  | ask (resp : Chan) (swarm : Answers)
  /-- the network task goes on -/
  | input (i : Input)
  /-- the reply arrives, and `now_secs` reads this -/
  | reply (now : UInt64)
  | wake
  /-- the network task takes up a dial of the lookup, and answers it -/
  | dial (resp : Chan) (swarm : Answers)
  /-- there is no network task any more -/
  | closed

/-- `closed`. -/
def closedError : String := "network task has shut down"

namespace Lookup

def start (localPeer : Libp2p.PeerId) : Lookup := ⟨Node.new localPeer, .asking, []⟩

/-- The addresses that are left to dial. -/
def dialNext (peer : Libp2p.PeerId) (addrs : List Multiaddr) : LookupAt :=
  if addrs.isEmpty then .ended (.ok peer) else .dialing peer addrs

/-- What the task gets out of a `get_record` now. -/
def hears (s : Lookup) (x : Time × LookupStep) : Option Round :=
  match x.2, s.at' with
  | .reply now, .waiting resp =>
    match s.node.repliesTo resp with
    | .get result :: _ => some ⟨fun _ => result, now, x.1.nanos⟩
    | _ => none
  | .closed, .asking => some ⟨fun _ => .error closedError, 0, x.1.nanos⟩
  | .closed, .waiting _ => some ⟨fun _ => .error closedError, 0, x.1.nanos⟩
  | _, _ => none

section
variable [Crates] (name : Name) (start : Nat) (s : Lookup) (x : Time × LookupStep)

/-- `establish` from the record on. -/
def found (rec : Record) : LookupAt :=
  match peerIdFromEd25519 rec.body.pubkey with
  | .error e => .ended (.error e)
  | .ok peer =>
    if Libp2p.showPeer peer ≠ rec.body.peerId.val then
      .ended (.error "record peer_id does not match its signed pubkey — refusing to connect")
    else dialNext peer (rec.body.addrs.val.filterMap fun a => Libp2p.parseMultiaddr a.val)

/-- Where a round leads to. -/
def after (round : Round) : LookupAt :=
  match round.getRecord (dhtKey name.keyid).toList with
  | .error e => .ended (.error e)
  | .ok candidates =>
    match selectVerified candidates name.keyid round.now MAX_SKEW with
    | some rec => found rec
    | none =>
      if start + RESOLVE_TIMEOUT ≤ round.instant then .ended (.error (unresolved name))
      else .sleeping (round.instant + 2 * nanosPerSec)

/-- What the network task takes up. -/
def takes : Option (Time × Input) :=
  match x.2, s.at' with
  | .ask resp swarm, .asking =>
    some (x.1, .command (.getRecord (dhtKey name.keyid).toList resp) swarm)
  | .input i, _ => some (x.1, i)
  | .dial resp swarm, .dialing _ (addr :: _) => some (x.1, .command (.dial addr resp) swarm)
  | _, _ => none

/-- Where the task goes, and what it has dialed then. -/
def goes : LookupAt × List Multiaddr :=
  match x.2, s.at' with
  | .ask resp _, .asking => (.waiting resp, s.dialed)
  | .wake, .sleeping wake => (if wake ≤ x.1.nanos then .asking else s.at', s.dialed)
  -- the answer to a dial is not looked at
  | .dial _ _, .dialing peer (addr :: addrs) => (dialNext peer addrs, s.dialed ++ [addr])
  | .closed, .dialing peer (addr :: addrs) => (dialNext peer addrs, s.dialed ++ [addr])
  | _, _ =>
    match s.hears x with
    | some round => (after name start round, s.dialed)
    | none => (s.at', s.dialed)

def step : Lookup where
  node :=
    match s.takes name x with
    | some i => s.node.step i
    | none => s.node
  at' := (s.goes name start x).1
  dialed := (s.goes name start x).2

/-- The rounds of the lookup in a run. -/
def heard (l : List (Time × LookupStep)) : List Round :=
  (Run.trace (step name start) hears s l).filterMap id

end
end Lookup

/-- The channel that a step brings. -/
def LookupStep.resp (x : Time × LookupStep) : Option Chan :=
  match x.2 with
  | .ask resp _ => some resp
  | .input i => Input.resp (x.1, i)
  | .dial resp _ => some resp
  | _ => none

/-- The query that a step starts. -/
def LookupStep.issued (x : Time × LookupStep) : Option QueryId :=
  match x.2 with
  | .ask _ swarm => some swarm.getRecord
  | .input i => Input.issued (x.1, i)
  | _ => none

def LookupStep.input? (x : Time × LookupStep) : Option (Time × Input) :=
  match x.2 with
  | .input i => some (x.1, i)
  | _ => none

/-- What is reported on a query in a run. -/
def reported (query : QueryId) (l : List (Time × LookupStep)) : List QueryResult :=
  results query (l.filterMap LookupStep.input?)

end

/-! ## What the task does -/

section
variable [Crates] [Libp2p] (name : Name) (start : Nat)

omit [Libp2p] in
theorem resolve_append (deadline : Nat) (rounds rounds' : List Round) :
    resolve name deadline (rounds ++ rounds') =
      (resolve name deadline rounds).or (resolve name deadline rounds') := by
  induction rounds with
  | nil => rfl
  | cons round rounds ih =>
    rw [List.cons_append, resolve, resolve]
    split
    · rfl
    · split
      · rfl
      · split
        · rfl
        · exact ih

theorem establish_none_iff (rounds : List Round) :
    establish name start rounds = none ↔ resolve name (start + RESOLVE_TIMEOUT) rounds = none := by
  unfold establish
  constructor
  · intro h
    split at h
    · assumption
    · cases h
    · split at h
      · cases h
      · split at h <;> cases h
  · intro h
    rw [h]

/-- What the rounds so far decide. -/
def Agrees (rounds : List Round) (at' : LookupAt) (dialed : List Multiaddr) : Prop :=
  match at' with
  | .dialing peer addrs => establish name start rounds = some (.ok (peer, dialed ++ addrs))
  | .ended (.ok peer) => establish name start rounds = some (.ok (peer, dialed))
  | .ended (.error e) => establish name start rounds = some (.error e)
  | _ => establish name start rounds = none ∧ dialed = []

theorem agrees_dialNext (rounds : List Round) (peer : Libp2p.PeerId) (dialed addrs : List Multiaddr)
    (h : establish name start rounds = some (.ok (peer, dialed ++ addrs))) :
    Agrees name start rounds (Lookup.dialNext peer addrs) dialed := by
  unfold Lookup.dialNext
  cases addrs with
  | nil =>
    rw [List.append_nil] at h
    exact h
  | cons addr addrs => exact h

/-- Where the record of the last round leads. -/
theorem agrees_found (rounds : List Round) (rec : Record)
    (h : resolve name (start + RESOLVE_TIMEOUT) rounds = some (.ok rec)) :
    Agrees name start rounds (Lookup.found rec) [] := by
  have hest := establish.eq_1 name start rounds
  rw [h] at hest
  dsimp only at hest
  unfold Lookup.found
  cases hpeer : peerIdFromEd25519 rec.body.pubkey with
  | error e =>
    rw [hpeer] at hest
    exact hest
  | ok peer =>
    rw [hpeer] at hest
    dsimp only at hest ⊢
    by_cases hshow : Libp2p.showPeer peer ≠ rec.body.peerId.val
    · rw [if_pos hshow] at hest ⊢
      exact hest
    · rw [if_neg hshow] at hest ⊢
      exact agrees_dialNext name start rounds peer [] _ hest

/-- A round is heard. -/
theorem agrees_after (rounds : List Round) (h : establish name start rounds = none) (round : Round) :
    Agrees name start (rounds ++ [round]) (Lookup.after name start round) [] := by
  have hlast : resolve name (start + RESOLVE_TIMEOUT) (rounds ++ [round]) =
      resolve name (start + RESOLVE_TIMEOUT) [round] := by
    rw [resolve_append, (establish_none_iff name start rounds).mp h]
    rfl
  have herror : ∀ e, resolve name (start + RESOLVE_TIMEOUT) (rounds ++ [round]) = some (.error e) →
      Agrees name start (rounds ++ [round]) (.ended (.error e)) [] := by
    intro e he
    show establish name start (rounds ++ [round]) = some (.error e)
    unfold establish
    rw [he]
  have hround := hlast.trans (resolve.eq_2 name (start + RESOLVE_TIMEOUT) round [])
  unfold Lookup.after
  cases hget : round.getRecord (dhtKey name.keyid).toList with
  | error e =>
    rw [hget] at hround
    exact herror e hround
  | ok candidates =>
    rw [hget] at hround
    dsimp only at hround ⊢
    cases hsel : selectVerified candidates name.keyid round.now MAX_SKEW with
    | some rec =>
      rw [hsel] at hround
      exact agrees_found name start _ rec hround
    | none =>
      rw [hsel] at hround
      dsimp only at hround ⊢
      by_cases ht : start + RESOLVE_TIMEOUT ≤ round.instant
      · rw [if_pos ht] at hround ⊢
        exact herror _ hround
      · rw [if_neg ht] at hround ⊢
        exact ⟨(establish_none_iff name start _).mpr hround, rfl⟩

section
variable (s : Lookup)

omit [Crates] in
theorem hears_some (x : Time × LookupStep) (round : Round) (h : s.hears x = some round) :
    (∃ resp, s.at' = .waiting resp) ∨ s.at' = .asking := by
  unfold Lookup.hears at h
  split at h
  · next hat => exact Or.inl ⟨_, hat⟩
  · next hat => exact Or.inr hat
  · next hat => exact Or.inl ⟨_, hat⟩
  · cases h

/-- The task goes on as the rounds say. -/
theorem agrees_step (rounds : List Round) (x : Time × LookupStep)
    (h : Agrees name start rounds s.at' s.dialed) :
    Agrees name start (rounds ++ (s.hears x).toList) (s.step name start x).at'
      (s.step name start x).dialed := by
  show Agrees name start _ (s.goes name start x).1 (s.goes name start x).2
  have hnone : s.hears x = none → rounds ++ (s.hears x).toList = rounds := by
    intro hn
    rw [hn]
    exact List.append_nil rounds
  unfold Lookup.goes
  split
  · next resp _ hx hat =>
    rw [hnone (by unfold Lookup.hears; rw [hx, hat])]
    rw [hat] at h
    exact h
  · next wake hx hat =>
    rw [hnone (by unfold Lookup.hears; rw [hx, hat])]
    rw [hat] at h
    by_cases ht : wake ≤ x.1.nanos
    · rw [if_pos ht]
      exact h
    · rw [if_neg ht, hat]
      exact h
  · next peer addr addrs hx hat =>
    rw [hnone (by unfold Lookup.hears; rw [hx, hat])]
    rw [hat] at h
    apply agrees_dialNext
    rw [List.append_assoc]
    exact h
  · next peer addr addrs hx hat =>
    rw [hnone (by unfold Lookup.hears; rw [hx, hat])]
    rw [hat] at h
    apply agrees_dialNext
    rw [List.append_assoc]
    exact h
  · cases hh : s.hears x with
    | none =>
      show Agrees name start (rounds ++ []) s.at' s.dialed
      rw [List.append_nil]
      exact h
    | some round =>
      obtain ⟨hest, hdialed⟩ : establish name start rounds = none ∧ s.dialed = [] := by
        rcases hears_some s x round hh with ⟨resp, hat⟩ | hat <;> (rw [hat] at h; exact h)
      show Agrees name start (rounds ++ [round]) (Lookup.after name start round) s.dialed
      rw [hdialed]
      exact agrees_after name start rounds hest round

theorem heard_concat (l : List (Time × LookupStep)) (x : Time × LookupStep) :
    Lookup.heard name start s (l ++ [x]) = Lookup.heard name start s l ++
      ((Run.run (Lookup.step name start) s l).hears x).toList := by
  unfold Lookup.heard
  rw [Run.trace_concat, List.filterMap_append]
  cases (Run.run (Lookup.step name start) s l).hears x <;> rfl

theorem agrees_run (l : List (Time × LookupStep)) (localPeer : Libp2p.PeerId) :
    Agrees name start (Lookup.heard name start (Lookup.start localPeer) l)
      (Run.run (Lookup.step name start) (Lookup.start localPeer) l).at'
      (Run.run (Lookup.step name start) (Lookup.start localPeer) l).dialed := by
  induction l using List.reverseRecOn with
  | nil => exact ⟨rfl, rfl⟩
  | append_singleton l x ih =>
    rw [heard_concat, Run.run_concat]
    exact agrees_step name start _ _ x ih

end

/-- What ends the lookup of an agent's task is as its clients rely on. -/
theorem establishes_lookup [SerdeJson] (s : Agent) (conn : Conn) (peer : Libp2p.PeerId)
    (h : ∀ p, s.pending conn = some p → p.phase = .establish → ∃ start localPeer l,
      (Run.run (Lookup.step p.name start) (Lookup.start localPeer) l).at' = .ended (.ok peer)) :
    Establishes s (.established conn (.ok peer)) := by
  intro p hp hphase
  obtain ⟨start, localPeer, l, hend⟩ := h p hp hphase
  have hagrees := agrees_run p.name start l localPeer
  rw [hend] at hagrees
  exact ⟨start, _, _, hagrees⟩

/-! ## What the node answers it -/

section
variable (s : Lookup) (x : Time × LookupStep) (l : List (Time × LookupStep))

/-- What the network task takes up in a run. -/
def Lookup.taken : List (Time × Input) :=
  (Run.trace (Lookup.step name start) (Lookup.takes name) s l).filterMap id

theorem node_run : (Run.run (Lookup.step name start) s l).node =
    Run.run Node.step s.node (s.taken name start l) := by
  apply Run.run_taken (Lookup.step name start) Node.step Lookup.node (Lookup.takes name)
  intro s x
  show (match s.takes name x with | some i => s.node.step i | none => s.node) = _
  cases s.takes name x <;> rfl

theorem takes_some (i : Time × Input) (h : s.takes name x = some i) :
    Input.resp i = LookupStep.resp x ∧
      (Input.issued i = none ∨ Input.issued i = LookupStep.issued x) := by
  unfold Lookup.takes at h
  unfold LookupStep.resp LookupStep.issued
  split at h
  · next hx _ =>
    cases h
    rw [hx]
    exact ⟨rfl, Or.inr rfl⟩
  · next hx =>
    cases h
    rw [hx]
    exact ⟨rfl, Or.inr rfl⟩
  · next hx _ =>
    cases h
    rw [hx]
    exact ⟨rfl, Or.inl rfl⟩
  · cases h

/-- The commands of the task report nothing. -/
theorem progress_takes (query : QueryId) : (s.takes name x).bind (Input.progress query) =
    (LookupStep.input? x).bind (Input.progress query) := by
  unfold Lookup.takes LookupStep.input?
  obtain ⟨t, e⟩ := x
  cases e with
  | input i => cases s.at' <;> rfl
  | ask resp swarm => cases s.at' <;> rfl
  | dial resp swarm =>
    cases s.at' with
    | dialing peer addrs => cases addrs <;> rfl
    | _ => rfl
  | _ => rfl

theorem results_taken (query : QueryId) :
    results query (s.taken name start l) = reported query l := by
  unfold results reported Lookup.taken results
  rw [List.filterMap_filterMap, List.filterMap_filterMap]
  exact Run.filterMap_trace (Lookup.step name start) (Lookup.takes name)
    (fun i => i.bind (Input.progress query)) _ (fun s x => progress_takes name s x query) s l

/-- What the inputs of a run bring its steps bring. -/
theorem sublist_taken {α : Type} (f : Time × Input → Option α) (g : Time × LookupStep → Option α)
    (h : ∀ s x i, Lookup.takes name s x = some i → f i = none ∨ f i = g x) :
    ((s.taken name start l).filterMap f).Sublist (l.filterMap g) := by
  unfold Lookup.taken
  induction l generalizing s with
  | nil => exact List.Sublist.slnil
  | cons x l ih =>
    have hl := ih (s.step name start x)
    have hskip : (((Run.trace (Lookup.step name start) (Lookup.takes name) (s.step name start x)
        l).filterMap id).filterMap f).Sublist ((x :: l).filterMap g) := by
      rw [List.filterMap_cons]
      cases g x with
      | none => exact hl
      | some b => exact hl.cons b
    rw [Run.trace, List.filterMap_cons]
    cases ht : s.takes name x with
    | none => exact hskip
    | some i =>
      dsimp only [id]
      rw [List.filterMap_cons]
      cases hf : f i with
      | none => exact hskip
      | some b =>
        have hg : g x = some b := by
          rcases h s x i ht with hno | he
          · cases hno.symm.trans hf
          · exact he.symm.trans hf
        rw [List.filterMap_cons, hg]
        exact hl.cons_cons b

end

/-! ## What it hears -/

section
variable (localPeer : Libp2p.PeerId) (l1 l2 : List (Time × LookupStep)) (t : Time) (resp : Chan)
  (swarm : Answers)
  (hc : ((l1 ++ (t, .ask resp swarm) :: l2).filterMap LookupStep.resp).Nodup)
  (hq : ((l1 ++ (t, .ask resp swarm) :: l2).filterMap LookupStep.issued).Nodup)
  (hasks : (Run.run (Lookup.step name start) (Lookup.start localPeer) l1).at' = .asking)
include hc hq hasks

/-- The reply to a query of the task is what was reported on it. -/
theorem replies_ask : (Run.run (Lookup.step name start) (Lookup.start localPeer)
      (l1 ++ (t, .ask resp swarm) :: l2)).node.repliesTo resp =
    getReplies (reported swarm.getRecord l2) := by
  have htaken : (Lookup.start localPeer).taken name start (l1 ++ (t, .ask resp swarm) :: l2) =
      (Lookup.start localPeer).taken name start l1 ++
        (t, .command (.getRecord (dhtKey name.keyid).toList resp) swarm) ::
          (Lookup.step name start (Run.run (Lookup.step name start) (Lookup.start localPeer) l1)
            (t, .ask resp swarm)).taken name start l2 := by
    unfold Lookup.taken
    rw [Run.trace_append, List.filterMap_append, Run.trace, List.filterMap_cons]
    have ht : Lookup.takes name (Run.run (Lookup.step name start) (Lookup.start localPeer) l1)
        (t, .ask resp swarm) =
        some (t, .command (.getRecord (dhtKey name.keyid).toList resp) swarm) := by
      unfold Lookup.takes
      rw [hasks]
    rw [ht]
    rfl
  have hc' := hc.sublist (sublist_taken name start (Lookup.start localPeer) _ Input.resp
    LookupStep.resp fun s x i h => Or.inr (takes_some name s x i h).1)
  have hq' := hq.sublist (sublist_taken name start (Lookup.start localPeer) _ Input.issued
    LookupStep.issued fun s x i h => (takes_some name s x i h).2)
  rw [htaken] at hc' hq'
  rw [node_run, htaken]
  show (Run.run Node.step (Node.new localPeer) _).repliesTo resp = _
  rw [repliesTo_query localPeer _ _ _ resp hc' hq' (.get swarm.getRecord) (fun _ => rfl)]
  show (Correlation.outcome [] ((results swarm.getRecord _).filterMap _)).toList = _
  rw [outcome_get, results_taken]
  unfold getReplies
  split <;> rfl

end

/-- A round of the run: its query was asked and ended, and what was found on it until
then is all that the round has. -/
def HeardOut (l : List (Time × LookupStep)) (round : Round) : Prop :=
  ∃ l1 t resp swarm l2 t' now l3,
    l = l1 ++ (t, .ask resp swarm) :: l2 ++ (t', .reply now) :: l3 ∧
    (reported swarm.getRecord l2).any QueryResult.endsGet = true ∧
    round = ⟨fun _ => .ok ((candidates (reported swarm.getRecord l2)).filter inCap), now, t'.nanos⟩

omit [Crates] in
theorem dialNext_ne_waiting (peer : Libp2p.PeerId) (addrs : List Multiaddr) (resp : Chan) :
    Lookup.dialNext peer addrs ≠ .waiting resp := by
  unfold Lookup.dialNext
  split <;> rintro ⟨⟩

theorem after_ne_waiting (round : Round) (resp : Chan) :
    Lookup.after name start round ≠ .waiting resp := by
  unfold Lookup.after
  split
  · rintro ⟨⟩
  · split
    · unfold Lookup.found
      split
      · rintro ⟨⟩
      · split
        · rintro ⟨⟩
        · exact dialNext_ne_waiting _ _ resp
    · split <;> rintro ⟨⟩

section
variable (localPeer : Libp2p.PeerId) (l : List (Time × LookupStep))

/-- A task that waits has asked. -/
theorem asked_of_waiting (resp : Chan)
    (h : (Run.run (Lookup.step name start) (Lookup.start localPeer) l).at' = .waiting resp) :
    ∃ l1 t swarm l2, l = l1 ++ (t, .ask resp swarm) :: l2 ∧
      (Run.run (Lookup.step name start) (Lookup.start localPeer) l1).at' = .asking := by
  induction l using List.reverseRecOn with
  | nil => cases h
  | append_singleton l x ih =>
    rw [Run.run_concat] at h
    generalize hs : Run.run (Lookup.step name start) (Lookup.start localPeer) l = s at h ih
    have h : (s.goes name start x).1 = .waiting resp := h
    have hstill : s.at' = .waiting resp → ∃ l1 t swarm l2,
        l ++ [x] = l1 ++ (t, .ask resp swarm) :: l2 ∧
        (Run.run (Lookup.step name start) (Lookup.start localPeer) l1).at' = .asking := by
      intro hat
      obtain ⟨l1, t, swarm, l2, rfl, hasks⟩ := ih hat
      exact ⟨l1, t, swarm, l2 ++ [x], List.append_assoc _ _ _, hasks⟩
    unfold Lookup.goes at h
    split at h
    · next resp' swarm hx hat =>
      cases h
      obtain ⟨t, e⟩ := x
      cases hx
      exact ⟨l, t, swarm, [], rfl, by rw [hs]; exact hat⟩
    · next wake _ hat =>
      dsimp only at h
      split at h
      · cases h
      · exact hstill h
    · exact absurd h (dialNext_ne_waiting _ _ resp)
    · exact absurd h (dialNext_ne_waiting _ _ resp)
    · split at h
      · exact absurd h (after_ne_waiting name start _ resp)
      · exact hstill h

variable (hc : (l.filterMap LookupStep.resp).Nodup) (hq : (l.filterMap LookupStep.issued).Nodup)
include hc hq

theorem heardOut_of_hears (x : Time × LookupStep) (round : Round)
    (h : (Run.run (Lookup.step name start) (Lookup.start localPeer) l).hears x = some round) :
    round.getRecord = (fun _ => .error closedError) ∨ HeardOut (l ++ [x]) round := by
  unfold Lookup.hears at h
  split at h
  · next now resp hx hat =>
    obtain ⟨l1, t, swarm, l2, rfl, hasks⟩ := asked_of_waiting name start localPeer l resp hat
    rw [replies_ask name start localPeer l1 l2 t resp swarm hc hq hasks] at h
    unfold getReplies at h
    by_cases hends : (reported swarm.getRecord l2).any QueryResult.endsGet = true
    · rw [if_pos hends] at h
      cases h
      obtain ⟨t', e⟩ := x
      cases hx
      exact Or.inr ⟨l1, t, resp, swarm, l2, t', now, [], rfl, hends, rfl⟩
    · rw [if_neg hends] at h
      cases h
  · cases h
    exact Or.inl rfl
  · cases h
    exact Or.inl rfl
  · cases h

/-- **The lookup is served.**  Whatever else the network task does meanwhile, the task
of a lookup goes the way of `establish` on its rounds, and ends with its result and
having dialed the addresses it names.  A round has what was reported on its own query
before the query ended, less what is over the size cap; or there is no network task
any more, and that error is all it has. -/
theorem lookup_served :
    Agrees name start (Lookup.heard name start (Lookup.start localPeer) l)
      (Run.run (Lookup.step name start) (Lookup.start localPeer) l).at'
      (Run.run (Lookup.step name start) (Lookup.start localPeer) l).dialed ∧
    ∀ round ∈ Lookup.heard name start (Lookup.start localPeer) l,
      round.getRecord = (fun _ => .error closedError) ∨ HeardOut l round := by
  refine ⟨agrees_run name start l localPeer, ?_⟩
  induction l using List.reverseRecOn with
  | nil => rintro round ⟨⟩
  | append_singleton l x ih =>
    have hpart : l.Sublist (l ++ [x]) := List.sublist_append_left l [x]
    intro round hm
    rw [heard_concat] at hm
    rcases List.mem_append.mp hm with hm | hm
    · rcases ih (hc.sublist (hpart.filterMap _)) (hq.sublist (hpart.filterMap _)) round hm with
        hclosed | ⟨l1, t, resp, swarm, l2, t', now, l3, rfl, hends, hround⟩
      · exact Or.inl hclosed
      · exact Or.inr ⟨l1, t, resp, swarm, l2, t', now, l3 ++ [x], List.append_assoc _ _ _,
          hends, hround⟩
    · exact heardOut_of_hears name start localPeer l (hc.sublist (hpart.filterMap _))
        (hq.sublist (hpart.filterMap _)) x round (Option.mem_toList.mp hm)

end

section
variable (localPeer : Libp2p.PeerId) (l1 l2 : List (Time × LookupStep)) (t : Time) (resp : Chan)
  (swarm : Answers)
  (hc : ((l1 ++ (t, .ask resp swarm) :: l2).filterMap LookupStep.resp).Nodup)
  (hq : ((l1 ++ (t, .ask resp swarm) :: l2).filterMap LookupStep.issued).Nodup)
  (hasks : (Run.run (Lookup.step name start) (Lookup.start localPeer) l1).at' = .asking)
  (hwaits : (Run.run (Lookup.step name start) (Lookup.start localPeer)
    (l1 ++ (t, .ask resp swarm) :: l2)).at' = .waiting resp)
  (hends : (reported swarm.getRecord l2).any QueryResult.endsGet = true)
include hc hq hasks hwaits hends

/-- **One answer is enough.**  Of a query that has ended, whoever answered it and with
whatever else: when a record was found that verifies, the lookup is over, and goes on
with a record that verifies and is not older. -/
theorem lookup_finds (t' : Time) (now : UInt64) (value : List UInt8) (r : Record)
    (hv : value ∈ candidates (reported swarm.getRecord l2))
    (hg : Genuine name.keyid now MAX_SKEW value r) :
    ∃ chosen, chosen.verify name.keyid now MAX_SKEW = .ok () ∧ r.body.ts ≤ chosen.body.ts ∧
      (Run.run (Lookup.step name start) (Lookup.start localPeer)
        (l1 ++ (t, .ask resp swarm) :: l2 ++ [(t', .reply now)])).at' = Lookup.found chosen := by
  have hreplies := replies_ask name start localPeer l1 l2 t resp swarm hc hq hasks
  unfold getReplies at hreplies
  rw [if_pos hends] at hreplies
  have hmem : value ∈ (candidates (reported swarm.getRecord l2)).filter inCap :=
    List.mem_filter.mpr ⟨hv, decide_eq_true (length_le_of_fromBytes _ _ hg.1)⟩
  generalize (candidates (reported swarm.getRecord l2)).filter inCap = values at hreplies hmem
  rw [Run.run_concat]
  generalize Run.run (Lookup.step name start) (Lookup.start localPeer)
    (l1 ++ (t, .ask resp swarm) :: l2) = s at hreplies hwaits
  have hhears : s.hears (t', .reply now) = some ⟨fun _ => .ok values, now, t'.nanos⟩ := by
    unfold Lookup.hears
    rw [hwaits]
    dsimp only
    rw [hreplies]
  have hgoes : (s.step name start (t', .reply now)).at' =
      Lookup.after name start ⟨fun _ => .ok values, now, t'.nanos⟩ := by
    show (s.goes name start (t', .reply now)).1 = _
    unfold Lookup.goes
    rw [hhears]
  cases hsel : selectVerified values name.keyid now MAX_SKEW with
  | none =>
    exact absurd hg ((select_eq_none_iff name.keyid now MAX_SKEW values).mp hsel value hmem r)
  | some chosen =>
    obtain ⟨bytes, -, -, hver⟩ := select_mem name.keyid now MAX_SKEW values chosen hsel
    refine ⟨chosen, hver, UInt64.le_iff_toNat_le.mpr
      (select_newest name.keyid now MAX_SKEW values chosen hsel value hmem r hg), ?_⟩
    rw [hgoes]
    unfold Lookup.after
    dsimp only
    rw [hsel]

end

end

namespace Sample
attribute [local instance] crates libp2p

def aliceName : Name := ⟨"alice", aliceKeyid⟩

def aliceSwarm : Answers := ⟨.ok 0, 3, .ok (), [], 1, ""⟩

def aliceAsk : Time × LookupStep := (Time.ofSecs 1700000000, .ask 7 aliceSwarm)

/-- Until the lookup's query ends another task asks too, and strangers answer both. -/
def aliceReports : List (Time × LookupStep) :=
  let found (query : QueryId) (value : List UInt8) : Time × LookupStep :=
    (Time.ofSecs 1700000001, .input (.event (.outboundQueryProgressed query
      (.foundRecord ⟨[], value, none, none⟩))))
  [(Time.ofSecs 1700000001, .input (.command (.getRecord [0x01] 8)
      { aliceSwarm with getRecord := 4 })),
    found 4 [0x02], found 3 [0x00], found 3 (aliceRecord 1700000000).toBytes,
    (Time.ofSecs 1700000001, .input (.event (.outboundQueryProgressed 3
      .finishedWithNoAdditionalRecord)))]

/-- The whole lookup: the reply comes, and Alice's address is dialed. -/
def aliceLookup : List (Time × LookupStep) :=
  aliceAsk :: aliceReports ++
    [(Time.ofSecs 1700000002, .reply 1700000002), (Time.ofSecs 1700000002, .dial 9 aliceSwarm)]

end Sample

section
attribute [local instance] Sample.crates Sample.libp2p

theorem lookup_served_alice :
    (Lookup.heard Sample.aliceName 0 (Lookup.start []) Sample.aliceLookup).length = 1 ∧
    (Run.run (Lookup.step Sample.aliceName 0) (Lookup.start []) Sample.aliceLookup).dialed.length =
      1 ∧
    Agrees Sample.aliceName 0
      (Lookup.heard Sample.aliceName 0 (Lookup.start []) Sample.aliceLookup)
      (Run.run (Lookup.step Sample.aliceName 0) (Lookup.start []) Sample.aliceLookup).at'
      (Run.run (Lookup.step Sample.aliceName 0) (Lookup.start []) Sample.aliceLookup).dialed ∧
    ∀ round ∈ Lookup.heard Sample.aliceName 0 (Lookup.start []) Sample.aliceLookup,
      round.getRecord = (fun _ => .error closedError) ∨ HeardOut Sample.aliceLookup round :=
  ⟨by decide +kernel, by decide +kernel, lookup_served Sample.aliceName 0 [] Sample.aliceLookup
    (by decide) (by decide)⟩

/-- A stranger's byte comes before Alice's record. -/
theorem lookup_finds_alice :
    ∃ chosen, chosen.verify Sample.aliceKeyid 1700000002 MAX_SKEW = .ok () ∧
      (Sample.aliceRecord 1700000000).body.ts ≤ chosen.body.ts ∧
      (Run.run (Lookup.step Sample.aliceName 0) (Lookup.start []) (Sample.aliceAsk ::
        Sample.aliceReports ++ [(Time.ofSecs 1700000002, .reply 1700000002)])).at' =
          Lookup.found chosen :=
  lookup_finds Sample.aliceName 0 [] [] Sample.aliceReports (Time.ofSecs 1700000000) 7
    Sample.aliceSwarm (by decide) (by decide) rfl rfl rfl _ 1700000002 _
    (Sample.aliceRecord 1700000000) (List.mem_cons_of_mem [0x00] (List.mem_singleton.mpr rfl))
    ⟨Sample.fromBytes_alice 1700000000,
      Sample.verify_alice 1700000000 1700000002 MAX_SKEW (by decide)⟩

end

end McTunnel
