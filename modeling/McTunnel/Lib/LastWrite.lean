import McTunnel.Lib.Run

/-!
# Registers

Some inputs of a run write to one of many registers; nothing else changes them.

    a register holds the value that was last written to it       (run_writes_iff)
-/

namespace LastWrite

variable {σ ι κ α : Type} [DecidableEq κ] (step : σ → ι → σ) (registers : σ → κ → α)
  (write : ι → Option (κ × α))

/-- The input writes nothing to the register. -/
def Spares (k : κ) (i : ι) : Prop := ∀ v, write i ≠ some (k, v)

/-- The last of the inputs that write to the register writes this. -/
def WroteLast (l : List ι) (k : κ) (v : α) : Prop :=
  ∃ l1 i l2, l = l1 ++ i :: l2 ∧ write i = some (k, v) ∧ ∀ j ∈ l2, Spares write k j

omit [DecidableEq κ] in
theorem wroteLast_concat_iff (l : List ι) (i : ι) (k : κ) (v : α) :
    WroteLast write (l ++ [i]) k v ↔
      write i = some (k, v) ∨ (Spares write k i ∧ WroteLast write l k v) := by
  constructor
  · rintro ⟨l1, j, l2, hl, hj, hrest⟩
    rcases List.eq_nil_or_concat l2 with rfl | ⟨l2, m, rfl⟩
    · obtain ⟨-, he⟩ := List.append_inj' hl rfl
      cases he
      exact Or.inl hj
    · right
      have hl' : l ++ [i] = (l1 ++ j :: l2) ++ [m] := by simpa using hl
      obtain ⟨rfl, he⟩ := List.append_inj' hl' rfl
      cases he
      exact ⟨hrest i (by simp), l1, j, l2, rfl, hj, fun m hm => hrest m (by simp [hm])⟩
  · rintro (hi | ⟨hs, l1, j, l2, rfl, hj, hrest⟩)
    · exact ⟨l, i, [], rfl, hi, by rintro j ⟨⟩⟩
    · refine ⟨l1, j, l2 ++ [i], by simp, hj, ?_⟩
      intro m hm
      rcases List.mem_append.mp hm with hm | hm
      · exact hrest m hm
      · cases List.mem_singleton.mp hm
        exact hs

variable (hnone : ∀ s i, write i = none → registers (step s i) = registers s)
  (hsome : ∀ s i k v, write i = some (k, v) →
    registers (step s i) = Function.update (registers s) k v)
include hnone hsome

/-- A register holds the value last written to it, or the one it began with. -/
theorem run_writes_iff (s : σ) (l : List ι) (k : κ) (v : α) :
    registers (Run.run step s l) k = v ↔
      WroteLast write l k v ∨ (registers s k = v ∧ ∀ i ∈ l, Spares write k i) := by
  induction l using List.reverseRecOn with
  | nil =>
    constructor
    · intro hv
      exact Or.inr ⟨hv, by rintro i ⟨⟩⟩
    · rintro (⟨l1, i, l2, hl, -⟩ | ⟨hv, -⟩)
      · cases List.append_ne_nil_of_right_ne_nil l1 (List.cons_ne_nil i l2) hl.symm
      · exact hv
  | append_singleton l i ih =>
    rw [Run.run_concat, wroteLast_concat_iff]
    cases hw : write i with
    | none =>
      have hs : Spares write k i := by
        intro w
        rw [hw]
        rintro ⟨⟩
      rw [hnone _ i hw, ih]
      simp [hs, or_imp, forall_and]
    | some p =>
      obtain ⟨k', w⟩ := p
      rw [hsome _ i k' w hw]
      by_cases hk : k = k'
      · subst hk
        have hs : ¬ Spares write k i := fun hs => hs w hw
        rw [Function.update_self]
        simp [hs, or_imp, forall_and]
      · have hs : Spares write k i := by
          intro u
          rw [hw]
          rintro ⟨⟩
          exact hk rfl
        rw [Function.update_of_ne hk, ih]
        simp [hs, or_imp, forall_and, Ne.symm hk]

end LastWrite
