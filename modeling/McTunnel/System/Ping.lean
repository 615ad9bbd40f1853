import McTunnel.Lib.LastWrite
import McTunnel.System.Conversation

/-!
# Round trips (`node.rs`, `agent.rs`)

The network task writes the round trips that it measures to a map (`RttMap`), and
the agent's tasks read them from there.

    the map holds the last ping of each peer that has not gone since   (rtt_iff_lastPing)
    what is measured for a name is the last ping to its owner       (lastPing_of_measured)
-/

namespace McTunnel

open Clock (Time)

/-! ## Code -/

section
variable [Libp2p] [Crates] [SerdeJson]

/-- What an input of the network task writes to the map of round trips. -/
def Input.measures (input : Time × Input) : Option (Libp2p.PeerId × Option UInt64) :=
  match input.2 with
  | .event (.ping peer rttMillis) => some (peer, some (UInt64.ofNat rttMillis))
  | .event (.connectionClosed peerId numEstablished) =>
    if numEstablished = 0 then some (peerId, none) else none
  | _ => none

/-- The agent's process: the network task, and the tasks of the control endpoint. -/
structure Host where
  node : Node
  agent : Agent

def Host.start (localPeer : Libp2p.PeerId) (token : String) : Host where
  node := Node.new localPeer
  agent := Agent.start token

inductive HostStep
  | node (input : Time × Input)
  | agent (e : AgentEvent)

/-- The tasks share the map, and only the network task writes it. -/
def Host.step (s : Host) (i : HostStep) : Host :=
  match i with
  | .node input =>
    let node := s.node.step input
    ⟨node, { s.agent with rtt := node.rtt }⟩
  | .agent (.rtt _ _) => s
  | .agent e => { s with agent := s.agent.step e }

/-- What a step is to the agent. -/
def HostStep.toAgent : HostStep → Option AgentEvent
  | .node input => (Input.measures input).map fun w => .rtt w.1 w.2
  | .agent (.rtt _ _) => none
  | .agent e => some e

/-- What a step is to the network task. -/
def HostStep.toNode : HostStep → Option (Time × Input)
  | .node input => some input
  | .agent _ => none

end

/-! ## The map of round trips -/

section
variable [Libp2p] [Crates]

omit [Crates] in
theorem rtt_handleKadResult (node : Node) (id : QueryId) (result : QueryResult) :
    (handleKadResult node id result).rtt = node.rtt := by
  unfold handleKadResult Node.send
  repeat' split
  all_goals rfl

theorem rtt_handleCommand (node : Node) (t : Time) (cmd : Command) (swarm : Answers) :
    (handleCommand node t cmd swarm).rtt = node.rtt := by
  unfold handleCommand Node.send
  cases cmd with
  | putRecord key value resp =>
    dsimp only
    split <;> rfl
  | getRecord key resp => rfl
  | dial addr resp => rfl
  | doctor resp => rfl

theorem rtt_handleInboundPut (node : Node) (t : Time) (record : KadRecord) :
    (handleInboundPut node t record).rtt = node.rtt := by
  unfold handleInboundPut
  repeat' split
  all_goals rfl

/-- Pings and closed connections alone change the map. -/
theorem rtt_step (node : Node) (input : Time × Input) :
    (Input.measures input = none → (node.step input).rtt = node.rtt) ∧
    ∀ peer ms, Input.measures input = some (peer, ms) →
      (node.step input).rtt = Function.update node.rtt peer ms := by
  obtain ⟨t, input⟩ := input
  cases input with
  | command cmd swarm => exact ⟨fun _ => rtt_handleCommand node t cmd swarm, by rintro _ _ ⟨⟩⟩
  | expire => exact ⟨fun _ => rfl, by rintro _ _ ⟨⟩⟩
  | event ev =>
    cases ev with
    | ping peer millis =>
      refine ⟨by rintro ⟨⟩, ?_⟩
      rintro _ _ ⟨⟩
      rfl
    | connectionClosed peerId numEstablished =>
      unfold Node.step handleEvent Input.measures
      dsimp only
      split
      · refine ⟨by rintro ⟨⟩, ?_⟩
        rintro _ _ ⟨⟩
        rfl
      · exact ⟨fun _ => rfl, by rintro _ _ ⟨⟩⟩
    | externalAddrConfirmed address =>
      refine ⟨fun _ => ?_, by rintro _ _ ⟨⟩⟩
      unfold Node.step handleEvent
      dsimp only
      split <;> rfl
    | outboundQueryProgressed id result =>
      exact ⟨fun _ => rtt_handleKadResult node id result, by rintro _ _ ⟨⟩⟩
    | inboundPutRecord record =>
      refine ⟨fun _ => ?_, by rintro _ _ ⟨⟩⟩
      cases record with
      | none => rfl
      | some record => exact rtt_handleInboundPut node t record
    | _ => exact ⟨fun _ => rfl, by rintro _ _ ⟨⟩⟩

/-- The input is no ping of the peer, and does not close its last connection. -/
def Quiet (peer : Libp2p.PeerId) (input : Time × Input) : Prop :=
  (∀ millis, input.2 ≠ .event (.ping peer millis)) ∧ input.2 ≠ .event (.connectionClosed peer 0)

/-- The last ping of the peer took so long, and the peer has not gone since. -/
def LastPing (l : List (Time × Input)) (peer : Libp2p.PeerId) (ms : UInt64) : Prop :=
  ∃ l1 t millis l2, l = l1 ++ (t, .event (.ping peer millis)) :: l2 ∧ UInt64.ofNat millis = ms ∧
    ∀ input ∈ l2, Quiet peer input

omit [Crates] in
theorem measures_some_iff (peer : Libp2p.PeerId) (ms : Option UInt64) (input : Time × Input) :
    Input.measures input = some (peer, ms) ↔
      (∃ millis, input.2 = .event (.ping peer millis) ∧ some (UInt64.ofNat millis) = ms) ∨
      (input.2 = .event (.connectionClosed peer 0) ∧ ms = none) := by
  constructor
  · intro h
    unfold Input.measures at h
    split at h
    · next heq =>
      cases h
      exact Or.inl ⟨_, heq, rfl⟩
    · next heq =>
      split at h
      · next hz =>
        cases h
        rw [hz] at heq
        exact Or.inr ⟨heq, rfl⟩
      · cases h
    · cases h
  · unfold Input.measures
    rintro (⟨millis, heq, rfl⟩ | ⟨heq, rfl⟩)
    · rw [heq]
    · rw [heq]
      rfl

omit [Crates] in
theorem spares_iff_quiet (peer : Libp2p.PeerId) (input : Time × Input) :
    LastWrite.Spares Input.measures peer input ↔ Quiet peer input := by
  constructor
  · intro h
    constructor
    · intro millis heq
      exact h _ ((measures_some_iff peer _ input).mpr (Or.inl ⟨millis, heq, rfl⟩))
    · intro heq
      exact h none ((measures_some_iff peer _ input).mpr (Or.inr ⟨heq, rfl⟩))
  · rintro ⟨hping, hclosed⟩ ms hms
    rcases (measures_some_iff peer ms input).mp hms with ⟨millis, heq, -⟩ | ⟨heq, -⟩
    · exact hping millis heq
    · exact hclosed heq

omit [Crates] in
theorem lastPing_iff (l : List (Time × Input)) (peer : Libp2p.PeerId) (ms : UInt64) :
    LastWrite.WroteLast Input.measures l peer (some ms) ↔ LastPing l peer ms := by
  constructor
  · rintro ⟨l1, ⟨t, input⟩, l2, rfl, hw, hrest⟩
    rcases (measures_some_iff peer _ _).mp hw with ⟨millis, heq, hms⟩ | ⟨-, ⟨⟩⟩
    cases heq
    cases hms
    exact ⟨l1, t, millis, l2, rfl, rfl, fun i hi => (spares_iff_quiet peer i).mp (hrest i hi)⟩
  · rintro ⟨l1, t, millis, l2, rfl, rfl, hrest⟩
    exact ⟨l1, _, l2, rfl, rfl, fun i hi => (spares_iff_quiet peer i).mpr (hrest i hi)⟩

/-- What the map holds is the last ping. -/
theorem rtt_iff_lastPing (localPeer : Libp2p.PeerId) (l : List (Time × Input))
    (peer : Libp2p.PeerId) (ms : UInt64) :
    (Run.run Node.step (Node.new localPeer) l).rtt peer = some ms ↔ LastPing l peer ms := by
  have hiff := LastWrite.run_writes_iff Node.step Node.rtt Input.measures
    (fun node i => (rtt_step node i).1) (fun node i => (rtt_step node i).2)
    (Node.new localPeer) l peer (some ms)
  rw [hiff, ← lastPing_iff]
  constructor
  · rintro (h | ⟨⟨⟩, -⟩)
    exact h
  · exact Or.inl

end

/-! ## The agent in its process -/

section
variable [Libp2p] [Crates] [SerdeJson]

omit [Crates] in
theorem rtt_agentStep (s : Agent) (e : AgentEvent) (h : ∀ peer ms, e ≠ .rtt peer ms) :
    (s.step e).rtt = s.rtt := by
  generalize hs : s.step e = s'
  have hdoes := does_step s e
  rw [hs] at hdoes
  cases hdoes with
  | measure peer ms => exact absurd rfl (h peer ms)
  | _ => rfl

/-- What a step of the process is to its parts, while they agree on the map. -/
theorem host_step (s : Host) (i : HostStep) (h : s.agent.rtt = s.node.rtt) :
    (s.step i).node = i.toNode.elim s.node s.node.step ∧
    (s.step i).agent = i.toAgent.elim s.agent s.agent.step ∧
    (s.step i).agent.rtt = (s.step i).node.rtt := by
  cases i with
  | node input =>
    refine ⟨rfl, ?_, rfl⟩
    show { s.agent with rtt := (s.node.step input).rtt } =
      ((Input.measures input).map fun w => AgentEvent.rtt w.1 w.2).elim s.agent s.agent.step
    obtain ⟨hnone, hsome⟩ := rtt_step s.node input
    cases hm : Input.measures input with
    | none =>
      rw [hnone hm, ← h]
      rfl
    | some w =>
      rw [hsome w.1 w.2 hm, ← h]
      rfl
  | agent e =>
    cases e with
    | rtt peer ms => exact ⟨rfl, rfl, h⟩
    | _ => exact ⟨rfl, rfl, (rtt_agentStep s.agent _ (by rintro _ _ ⟨⟩)).trans h⟩

/-- The process is made of a run of the network task and one of the agent. -/
theorem host_run (localPeer : Libp2p.PeerId) (token : String) (l : List HostStep) :
    (Run.run Host.step (Host.start localPeer token) l).node =
      Run.run Node.step (Node.new localPeer) (l.filterMap HostStep.toNode) ∧
    (Run.run Host.step (Host.start localPeer token) l).agent =
      Run.run Agent.step (Agent.start token) (l.filterMap HostStep.toAgent) ∧
    (Run.run Host.step (Host.start localPeer token) l).agent.rtt =
      (Run.run Host.step (Host.start localPeer token) l).node.rtt := by
  induction l using List.reverseRecOn with
  | nil => exact ⟨rfl, rfl, rfl⟩
  | append_singleton l i ih =>
    obtain ⟨hnode, hagent, hrtt⟩ := ih
    obtain ⟨hnode', hagent', hrtt'⟩ :=
      host_step (Run.run Host.step (Host.start localPeer token) l) i hrtt
    rw [Run.run_concat]
    refine ⟨?_, ?_, hrtt'⟩
    · rw [hnode', hnode, List.filterMap_append, Run.run_append]
      cases hi : i.toNode with
      | none => simp [hi, Run.run]
      | some input => simp [hi, Run.run]
    · rw [hagent', hagent, List.filterMap_append, Run.run_append]
      cases hi : i.toAgent with
      | none => simp [hi, Run.run]
      | some e => simp [hi, Run.run]

/-- What is measured for a name is the last ping of its owner. -/
theorem lastPing_of_measured (localPeer : Libp2p.PeerId) (token : String) (l : List HostStep)
    (hl : Run.Each Agent.step Establishes (Agent.start token) (l.filterMap HostStep.toAgent))
    (text : String) (n : Name) (hn : Name.parse text = .ok n) (ms : UInt64)
    (hm : (Run.run Host.step (Host.start localPeer token) l).agent.measured n = some ms) :
    ∃ peer, Owner n peer ∧ LastPing (l.filterMap HostStep.toNode) peer ms := by
  obtain ⟨hnode, hagent, hrtt⟩ := host_run localPeer token l
  obtain ⟨⟨port, peer⟩, htunnel, hpeer⟩ := Option.bind_eq_some_iff.mp hm
  rw [hagent] at htunnel
  have howned := ((owned_run token _ hl).tunnels _ _ _ htunnel).1
  refine ⟨peer, owner_of_parse text n peer hn howned, ?_⟩
  rw [← rtt_iff_lastPing localPeer, ← hnode, ← hrtt]
  exact hpeer

end

end McTunnel
