import Mathlib.Data.List.Basic
import Mathlib.Data.List.Count

/-!
# Instants some time apart

    of instants that are `d` apart, few are in a window           (count_window)
    a loop that pauses does what it does at such instants           (apart_loop)
-/

namespace Spacing

/-- Each instant comes at least `d` after those before it. -/
def Apart (d : Nat) (l : List Nat) : Prop := l.Pairwise fun a b => a + d ≤ b

/-- How many are in the window of length `w` from `t`. -/
def inWindow (t w : Nat) (l : List Nat) : Nat := l.countP fun x => decide (t ≤ x ∧ x < t + w)

theorem inWindow_late (t w : Nat) (l : List Nat) (h : ∀ x ∈ l, t + w ≤ x) : inWindow t w l = 0 := by
  apply List.countP_eq_zero.mpr
  intro x hx
  have := h x hx
  simp only [decide_eq_true_eq]
  omega

/-- What comes before all of them does not count. -/
theorem inWindow_shift (t t' w w' : Nat) (l : List Nat) (h : ∀ x ∈ l, t' ≤ x) (ht : t ≤ t')
    (hend : t + w = t' + w') : inWindow t w l = inWindow t' w' l := by
  apply List.countP_congr
  intro x hx
  have := h x hx
  simp only [decide_eq_true_eq]
  omega

/-- A window of length `w` has at most `w / d + 1` of them. -/
theorem count_window (d : Nat) (l : List Nat) (h : Apart d l) (t w : Nat) (hw : 0 < w) :
    inWindow t w l * d < w + d := by
  induction l generalizing t w with
  | nil =>
    show 0 * d < w + d
    omega
  | cons x l ih =>
    obtain ⟨hx, hl⟩ := List.pairwise_cons.mp h
    have hcount : inWindow t w (x :: l) =
        inWindow t w l + if t ≤ x ∧ x < t + w then 1 else 0 := by
      unfold inWindow
      rw [List.countP_cons]
      simp only [decide_eq_true_eq]
    rw [hcount]
    by_cases hin : t ≤ x ∧ x < t + w
    · rw [if_pos hin, Nat.add_mul, Nat.one_mul]
      by_cases hend : t + w ≤ x + d
      · -- the next one comes after the window
        rw [inWindow_late t w l fun y hy => Nat.le_trans hend (hx y hy)]
        omega
      · have hrest := ih hl (x + d) (t + w - (x + d)) (by omega)
        rw [← inWindow_shift t (x + d) w _ l hx (by omega) (by omega)] at hrest
        omega
    · rw [if_neg hin]
      exact ih hl t w hw

/-! ## Loops -/

section
variable {ι : Type} (event : Nat → ι → Option Nat) (next : Nat → ι → Nat)

/-- The instants that the turns of a loop give, each from the instant it begins. -/
def loop : Nat → List ι → List Nat
  | _, [] => []
  | begin, i :: l => (event begin i).toList ++ loop (next begin i) l

/-- A loop that pauses after what it does. -/
theorem apart_loop (d : Nat)
    (hevent : ∀ begin i x, event begin i = some x → begin ≤ x ∧ x + d ≤ next begin i)
    (hnext : ∀ begin i, begin ≤ next begin i) (begin : Nat) (l : List ι) :
    Apart d (loop event next begin l) ∧ ∀ x ∈ loop event next begin l, begin ≤ x := by
  induction l generalizing begin with
  | nil => exact ⟨List.Pairwise.nil, by rintro x ⟨⟩⟩
  | cons i l ih =>
    obtain ⟨hapart, hlate⟩ := ih (next begin i)
    have hn := hnext begin i
    unfold loop
    cases he : event begin i with
    | none => exact ⟨hapart, fun x hx => Nat.le_trans hn (hlate x hx)⟩
    | some x =>
      obtain ⟨hx, hd⟩ := hevent begin i x he
      refine ⟨List.pairwise_cons.mpr ⟨fun y hy => Nat.le_trans hd (hlate y hy), hapart⟩, ?_⟩
      intro y hy
      rcases List.mem_cons.mp hy with rfl | hy
      · exact hx
      · exact Nat.le_trans hn (hlate y hy)

end

end Spacing
