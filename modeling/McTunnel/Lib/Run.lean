import Mathlib

/-!
# Runs of a state machine

A machine is a step function; a run is a list of inputs.  `Each` says of every
step of a run what held before it and what came in, `Always` says of every
state the run goes through what holds there.

    each step keeps Inv → Inv holds after every run                  (run_invariant)
    each step is one of another machine → so is every run            (view_run)
    Q after a step ↔ P of the step → (Always Q ↔ Each P)             (always_iff_each)
    the same for what a state has to do with the inputs before it    (fits_iff_each)
    each step keeps what holds of the inputs so far and the state        (run_history)
-/

namespace Run

variable {σ ι : Type} (step : σ → ι → σ)

def run (s : σ) (l : List ι) : σ := l.foldl step s

theorem run_cons (s : σ) (i : ι) (l : List ι) : run step s (i :: l) = run step (step s i) l := rfl

theorem run_append (s : σ) (l l' : List ι) : run step s (l ++ l') = run step (run step s l) l' :=
  List.foldl_append

theorem run_concat (s : σ) (l : List ι) (i : ι) :
    run step s (l ++ [i]) = step (run step s l) i := by
  rw [run_append]
  rfl

/-- What each step keeps holds after every run. -/
theorem run_invariant (Inv : σ → Prop) (hstep : ∀ s i, Inv s → Inv (step s i)) (s : σ) (h : Inv s)
    (l : List ι) : Inv (run step s l) := by
  induction l generalizing s with
  | nil => exact h
  | cons i l ih => exact ih (step s i) (hstep s i h)

/-! ## What another machine sees of a run -/

section
variable {τ κ : Type} (step' : τ → κ → τ) (view : σ → τ) (act : σ → ι → κ)

/-- What `act` makes of the steps of a run. -/
def trace : σ → List ι → List κ
  | _, [] => []
  | s, i :: l => act s i :: trace (step s i) l

theorem trace_append (s : σ) (l l' : List ι) :
    trace step act s (l ++ l') = trace step act s l ++ trace step act (run step s l) l' := by
  induction l generalizing s with
  | nil => rfl
  | cons i l ih => exact congrArg (act s i :: ·) (ih (step s i))

theorem take_trace (n : Nat) (s : σ) (l : List ι) :
    (trace step act s l).take n = trace step act s (l.take n) := by
  induction n generalizing s l with
  | zero => rfl
  | succ n ih =>
    cases l with
    | nil => rfl
    | cons i l => exact congrArg (act s i :: ·) (ih (step s i) l)

theorem drop_trace (n : Nat) (s : σ) (l : List ι) :
    (trace step act s l).drop n = trace step act (run step s (l.take n)) (l.drop n) := by
  induction n generalizing s l with
  | zero => rfl
  | succ n ih =>
    cases l with
    | nil => rfl
    | cons i l => exact ih (step s i) l

/-- What is read of an act without the state is read of the inputs. -/
theorem filterMap_trace {β : Type} (f : κ → Option β) (g : ι → Option β)
    (h : ∀ s i, f (act s i) = g i) (s : σ) (l : List ι) :
    (trace step act s l).filterMap f = l.filterMap g := by
  induction l generalizing s with
  | nil => rfl
  | cons i l ih =>
    show (act s i :: trace step act (step s i) l).filterMap f = _
    rw [List.filterMap_cons, List.filterMap_cons, h, ih]

/-- When each step is one of the other machine, so is a run. -/
theorem view_run (h : ∀ s i, view (step s i) = step' (view s) (act s i)) (s : σ) (l : List ι) :
    view (run step s l) = run step' (view s) (trace step act s l) := by
  induction l generalizing s with
  | nil => rfl
  | cons i l ih =>
    show view (run step (step s i) l) = run step' (step' (view s) (act s i)) _
    rw [ih, h]

/-- A part of the state that takes some steps of its own, and is otherwise left alone. -/
theorem run_taken (takes : σ → ι → Option κ)
    (h : ∀ s i, view (step s i) = (takes s i).elim (view s) (step' (view s))) (s : σ) (l : List ι) :
    view (run step s l) = run step' (view s) ((trace step takes s l).filterMap id) := by
  induction l generalizing s with
  | nil => rfl
  | cons i l ih =>
    rw [run_cons, ih, h, trace, List.filterMap_cons]
    cases takes s i <;> rfl

end

/-! ## Two machines over the same inputs -/

section
variable {τ ρ : Type} (step' : τ → ι → τ) (view : σ → τ)

theorem run_view (h : ∀ s i, view (step s i) = step' (view s) i) (s : σ) (l : List ι) :
    view (run step s l) = run step' (view s) l := by
  induction l generalizing s with
  | nil => rfl
  | cons i l ih =>
    show view (run step (step s i) l) = run step' (step' (view s) i) l
    rw [ih, h]

theorem trace_view (h : ∀ s i, view (step s i) = step' (view s) i) (act : σ → ι → ρ)
    (act' : τ → ι → ρ) (hact : ∀ s i, act s i = act' (view s) i) (s : σ) (l : List ι) :
    trace step act s l = trace step' act' (view s) l := by
  induction l generalizing s with
  | nil => rfl
  | cons i l ih =>
    show act s i :: trace step act (step s i) l = act' (view s) i :: trace step' act' _ l
    rw [ih, h, hact]

end

/-! ## Parts of a state -/

/-- What holds of a part `j` of a state after the part `k` has changed. -/
theorem update_iff {κ α : Type} [DecidableEq κ] (f : κ → α) (k : κ) (a : α) (P : α → Prop) (j : κ) :
    P (Function.update f k a j) ↔ (j = k ∧ P a) ∨ (j ≠ k ∧ P (f j)) := by
  by_cases hj : j = k
  · rw [hj, Function.update_self]
    simp
  · rw [Function.update_of_ne hj]
    simp [hj]

/-! ## All steps and all states -/

/-- Each step of the run is as `P` says. -/
def Each (P : σ → ι → Prop) : σ → List ι → Prop
  | _, [] => True
  | s, i :: l => P s i ∧ Each P (step s i) l

/-- `Q` holds in every state of the run. -/
def Always (Q : σ → Prop) (s : σ) (l : List ι) : Prop :=
  ∀ l1 l2, l = l1 ++ l2 → Q (run step s l1)

theorem always_cons (Q : σ → Prop) (s : σ) (i : ι) (l : List ι) :
    Always step Q s (i :: l) ↔ Q s ∧ Always step Q (step s i) l := by
  constructor
  · intro h
    refine ⟨h [] (i :: l) rfl, ?_⟩
    intro l1 l2 hl
    exact h (i :: l1) l2 (by rw [hl]; rfl)
  · rintro ⟨h0, h⟩ l1 l2 hl
    cases l1 with
    | nil => exact h0
    | cons j l1 =>
      obtain ⟨hj, hl'⟩ := List.cons.inj hl
      rw [← hj]
      exact h l1 l2 hl'

/-- Beside an invariant that every step keeps: when a step leads to a good state
and is as `R` says exactly if it is as `P` says, the whole run does. -/
theorem always_each_iff (Inv : σ → Prop) (hinv : ∀ s i, Inv s → Inv (step s i))
    (P R : σ → ι → Prop) (Q : σ → Prop)
    (hstep : ∀ s i, Inv s → Q s → (Q (step s i) ∧ R s i ↔ P s i)) (s : σ) (hi : Inv s) (h : Q s)
    (l : List ι) : Always step Q s l ∧ Each step R s l ↔ Each step P s l := by
  induction l generalizing s with
  | nil =>
    refine ⟨fun _ => trivial, fun _ => ⟨fun l1 l2 hl => ?_, trivial⟩⟩
    obtain ⟨rfl, -⟩ := List.append_eq_nil_iff.mp hl.symm
    exact h
  | cons i l ih =>
    rw [always_cons]
    constructor
    · rintro ⟨⟨-, ha⟩, hr, he⟩
      have hq : Q (step s i) := ha [] l rfl
      exact ⟨(hstep s i hi h).mp ⟨hq, hr⟩, (ih _ (hinv s i hi) hq).mp ⟨ha, he⟩⟩
    · rintro ⟨hp, he⟩
      obtain ⟨hq, hr⟩ := (hstep s i hi h).mpr hp
      obtain ⟨ha, he⟩ := (ih _ (hinv s i hi) hq).mpr he
      exact ⟨⟨h, ha⟩, hr, he⟩

theorem each_true (s : σ) (l : List ι) : Each step (fun _ _ => True) s l := by
  induction l generalizing s with
  | nil => trivial
  | cons i l ih => exact ⟨trivial, ih (step s i)⟩

/-- When a step leads to a good state exactly if it is as `P` says, all states
are good exactly if all steps are. -/
theorem always_iff_each_of (Inv : σ → Prop) (hinv : ∀ s i, Inv s → Inv (step s i))
    (P : σ → ι → Prop) (Q : σ → Prop)
    (hstep : ∀ s i, Inv s → Q s → (Q (step s i) ↔ P s i)) (s : σ) (hi : Inv s) (h : Q s)
    (l : List ι) : Always step Q s l ↔ Each step P s l := by
  have hboth := always_each_iff step Inv hinv P (fun _ _ => True) Q
    (fun s i hi hq => (and_iff_left trivial).trans (hstep s i hi hq)) s hi h l
  exact (and_iff_left (each_true step s l)).symm.trans hboth

/-- The same with the inputs so far: when a step leads to a state that fits them
exactly if it is as `P` says, all states fit what came before them exactly if
all steps are. -/
theorem fits_iff_each (P : σ → ι → Prop) (Fits : List ι → σ → Prop)
    (hstep : ∀ h s i, Fits h s → (Fits (h ++ [i]) (step s i) ↔ P s i)) (h : List ι) (s : σ)
    (hs : Fits h s) (l : List ι) :
    (∀ l1 l2, l = l1 ++ l2 → Fits (h ++ l1) (run step s l1)) ↔ Each step P s l := by
  induction l generalizing h s with
  | nil =>
    refine ⟨fun _ => trivial, fun _ l1 l2 hl => ?_⟩
    obtain ⟨rfl, -⟩ := List.append_eq_nil_iff.mp hl.symm
    rw [List.append_nil]
    exact hs
  | cons i l ih =>
    constructor
    · intro hall
      have hfirst : Fits (h ++ [i]) (step s i) := hall [i] l rfl
      refine ⟨(hstep h s i hs).mp hfirst, (ih (h ++ [i]) (step s i) hfirst).mp ?_⟩
      intro l1 l2 hl
      have hnext := hall (i :: l1) l2 (by rw [hl]; rfl)
      rwa [List.append_cons] at hnext
    · rintro ⟨hp, hrest⟩ l1 l2 hl
      have hfirst := (hstep h s i hs).mpr hp
      cases l1 with
      | nil =>
        rw [List.append_nil]
        exact hs
      | cons j l1 =>
        obtain ⟨hj, hl'⟩ := List.cons.inj hl
        rw [← hj, List.append_cons]
        exact (ih (h ++ [i]) (step s i) hfirst).mpr hrest l1 l2 hl'

theorem always_iff_each (P : σ → ι → Prop) (Q : σ → Prop)
    (hstep : ∀ s i, Q s → (Q (step s i) ↔ P s i)) (s : σ) (h : Q s) (l : List ι) :
    Always step Q s l ↔ Each step P s l :=
  always_iff_each_of step (fun _ => True) (fun _ _ _ => trivial) P Q (fun s i _ => hstep s i) s
    trivial h l

/-- Steps that are as `P` says keep `Inv`; then `Inv` holds all along, and each
step does what it does from a state in which `Inv` holds. -/
theorem always_of_each (P : σ → ι → Prop) (Inv : σ → Prop)
    (hstep : ∀ s i, Inv s → P s i → Inv (step s i)) (s : σ) (h : Inv s) (l : List ι)
    (hl : Each step P s l) : Always step Inv s l ∧ Each step (fun s i => Inv s ∧ P s i) s l := by
  induction l generalizing s with
  | nil =>
    refine ⟨fun l1 l2 hl => ?_, trivial⟩
    obtain ⟨rfl, -⟩ := List.append_eq_nil_iff.mp hl.symm
    exact h
  | cons i l ih =>
    obtain ⟨ha, he⟩ := ih _ (hstep s i h hl.1) hl.2
    exact ⟨(always_cons step Inv s i l).mpr ⟨h, ha⟩, ⟨h, hl.1⟩, he⟩

theorem each_append (P : σ → ι → Prop) (s : σ) (l l' : List ι) :
    Each step P s (l ++ l') ↔ Each step P s l ∧ Each step P (run step s l) l' := by
  induction l generalizing s with
  | nil =>
    constructor
    · intro h
      exact ⟨trivial, h⟩
    · rintro ⟨-, h⟩
      exact h
  | cons i l ih =>
    show P s i ∧ Each step P (step s i) (l ++ l') ↔ (P s i ∧ Each step P (step s i) l) ∧ _
    rw [ih, and_assoc]
    rfl

/-- Inputs that are as `P` says wherever they come in. -/
theorem each_of_forall (P : σ → ι → Prop) (l : List ι) (h : ∀ i ∈ l, ∀ s, P s i) (s : σ) :
    Each step P s l := by
  induction l generalizing s with
  | nil => trivial
  | cons i l ih =>
    refine ⟨h i List.mem_cons_self s, ih ?_ _⟩
    intro j hj
    exact h j (List.mem_cons_of_mem _ hj)

theorem each_mono (P P' : σ → ι → Prop) (h : ∀ s i, P s i → P' s i) (s : σ) (l : List ι)
    (hl : Each step P s l) : Each step P' s l := by
  induction l generalizing s with
  | nil => trivial
  | cons i l ih => exact ⟨h s i hl.1, ih _ hl.2⟩

/-! ## What has come before -/

/-- Steps that are as `P` says keep what is said of the inputs so far and the state
they lead to. -/
theorem run_history (P : σ → ι → Prop) (Inv : List ι → σ → Prop) (s : σ) (h : Inv [] s)
    (hstep : ∀ l i, Inv l (run step s l) → P (run step s l) i →
      Inv (l ++ [i]) (run step s (l ++ [i]))) (l : List ι) (hl : Each step P s l) :
    Inv l (run step s l) := by
  induction l using List.reverseRecOn with
  | nil => exact h
  | append_singleton l i ih =>
    obtain ⟨hbefore, hlast, -⟩ := (each_append step P s l [i]).mp hl
    exact hstep l i (ih hbefore) hlast

/-- Some state of the run is as `Q` says. -/
def Met (Q : σ → Prop) (s : σ) (l : List ι) : Prop := ∃ l1 l2, l = l1 ++ l2 ∧ Q (run step s l1)

theorem met_last (Q : σ → Prop) (s : σ) (l : List ι) (h : Q (run step s l)) : Met step Q s l :=
  ⟨l, [], (List.append_nil l).symm, h⟩

theorem met_append (Q : σ → Prop) (s : σ) (l l' : List ι) (h : Met step Q s l) :
    Met step Q s (l ++ l') := by
  obtain ⟨l1, l2, rfl, hq⟩ := h
  exact ⟨l1, l2 ++ l', List.append_assoc l1 l2 l', hq⟩

theorem trace_concat {κ : Type} (act : σ → ι → κ) (s : σ) (l : List ι) (i : ι) :
    trace step act s (l ++ [i]) = trace step act s l ++ [act (run step s l) i] :=
  trace_append step act s l [i]

end Run
