import McTunnel.Lib.Run

/-!
# Where messages come from

Nodes take up inputs that may carry payloads, send on what they have, and make
payloads of their own.  Between them anything is lost, repeated, delayed and sent
to anybody, and strangers send whatever is `ok`: what they can produce by
themselves, given all that has been made so far.

    a step leaves a node with what it had and what came in →
      whatever anybody has, or has sent, is ok                      (ok_run)
-/

namespace Provenance

open Function (update update_self update_of_ne)

/-- Nodes of state `σ` and inputs `α`, and the payloads that go in and stay there. -/
structure Nodes (σ α κ : Type) where
  step : σ → α → σ
  has : σ → κ → Prop
  brings : α → κ → Prop
  has_step : ∀ s a k, has (step s a) k → has s k ∨ brings a k

/-- The nodes, what has been sent, and what has been made. -/
structure Net (ι σ κ ω : Type) where
  nodes : ι → σ
  sent : List κ
  made : List ω

inductive Step (ι α κ ω : Type)
  | input (i : ι) (a : α)
  /-- the node makes something and takes it up as an input -/
  | make (i : ι) (w : ω) (a : α)
  /-- the node sends a payload -/
  | share (i : ι) (k : κ)

section
variable {ι σ α κ ω : Type} [DecidableEq ι] (nodes : Nodes σ α κ)

def step (net : Net ι σ κ ω) : Step ι α κ ω → Net ι σ κ ω
  | .input i a => { net with nodes := update net.nodes i (nodes.step (net.nodes i) a) }
  | .make i w a =>
    { net with nodes := update net.nodes i (nodes.step (net.nodes i) a), made := net.made ++ [w] }
  | .share _ k => { net with sent := net.sent ++ [k] }

variable (ok : List ω → κ → Prop)

/-- A stranger's payload is ok, a node's own is once it has been made, and a node
sends what it has. -/
def Allowed (net : Net ι σ κ ω) : Step ι α κ ω → Prop
  | .input _ a => ∀ k, nodes.brings a k → k ∈ net.sent ∨ ok net.made k
  | .make _ w a => ∀ k, nodes.brings a k → ok (net.made ++ [w]) k
  | .share i k => nodes.has (net.nodes i) k

/-- Whatever anybody has or has sent is ok. -/
structure Sound (net : Net ι σ κ ω) : Prop where
  has : ∀ i k, nodes.has (net.nodes i) k → ok net.made k
  sent : ∀ k ∈ net.sent, ok net.made k

/-- One node takes up an input that brings what is ok. -/
theorem has_update (net : Net ι σ κ ω) (made : List ω) (i : ι) (a : α)
    (h : ∀ j k, nodes.has (net.nodes j) k → ok made k) (ha : ∀ k, nodes.brings a k → ok made k) :
    ∀ j k, nodes.has (update net.nodes i (nodes.step (net.nodes i) a) j) k → ok made k := by
  intro j k hk
  by_cases hj : j = i
  · subst hj
    rw [update_self] at hk
    rcases nodes.has_step _ _ _ hk with hk | hk
    · exact h j k hk
    · exact ha k hk
  · rw [update_of_ne hj] at hk
    exact h j k hk

variable (hmono : ∀ made w k, ok made k → ok (made ++ [w]) k)
include hmono

theorem sound_step (net : Net ι σ κ ω) (x : Step ι α κ ω) (h : Sound nodes ok net)
    (hx : Allowed nodes ok net x) : Sound nodes ok (step nodes net x) := by
  cases x with
  | input i a =>
    refine ⟨has_update nodes ok net net.made i a h.has ?_, h.sent⟩
    intro k hk
    rcases hx k hk with hs | ho
    · exact h.sent k hs
    · exact ho
  | make i w a =>
    refine ⟨has_update nodes ok net (net.made ++ [w]) i a ?_ hx, ?_⟩
    · intro j k hk
      exact hmono _ w k (h.has j k hk)
    · intro k hk
      exact hmono _ w k (h.sent k hk)
  | share i k =>
    refine ⟨h.has, ?_⟩
    intro k' hk'
    rcases List.mem_append.mp hk' with hk' | hk'
    · exact h.sent k' hk'
    · rw [List.mem_singleton.mp hk']
      exact h.has i k hx

/-- In every state of a run. -/
theorem ok_run (net : Net ι σ κ ω) (h : Sound nodes ok net) (l : List (Step ι α κ ω))
    (hl : Run.Each (step nodes) (Allowed nodes ok) net l) :
    Run.Always (step nodes) (Sound nodes ok) net l :=
  (Run.always_of_each (step nodes) (Allowed nodes ok) (Sound nodes ok)
    (sound_step nodes ok hmono) net h l hl).1

end

end Provenance
