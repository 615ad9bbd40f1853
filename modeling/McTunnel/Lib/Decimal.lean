import McTunnel.Lib.Text

/-!
# Decimal numerals

`parse` is Rust's `str::parse` for an unsigned integer type of values below
`bound`; `Nat.repr` is its `to_string`.

    n < bound → parse bound (repr n) = some n                        (parse_repr)
    the first r digits of n are read as n / 10 ^ (length - r)         (parse_take_repr)
-/

namespace Decimal

/-- A leading plus sign is skipped. -/
def unsigned : List Char → List Char
  | '+' :: digits => digits
  | digits => digits

def parse (bound : Nat) (s : String) : Option Nat :=
  let digits := unsigned s.toList
  if digits.isEmpty || !digits.all Char.isDigit then none
  else if Nat.ofDigitChars 10 digits 0 < bound then some (Nat.ofDigitChars 10 digits 0)
  else none

/-! ## Digits -/

theorem isDigit_of_mem_repr (n : Nat) (c : Char) (h : c ∈ (Nat.repr n).toList) :
    c.isDigit = true := by
  rw [Nat.toList_repr] at h
  exact Nat.isDigit_of_mem_toDigits (by decide) (by decide) h

theorem toNat_isDigit (c : Char) (h : c.isDigit = true) : 48 ≤ c.toNat ∧ c.toNat ≤ 57 := by
  unfold Char.isDigit at h
  rw [Bool.and_eq_true, decide_eq_true_eq, decide_eq_true_eq] at h
  exact h

theorem utf8Size_isDigit (c : Char) (h : c.isDigit = true) : c.utf8Size = 1 := by
  have hd := toNat_isDigit c h
  rw [Char.utf8Size_eq_one_iff]
  show c.toNat ≤ 127
  omega

theorem isWhitespace_isDigit (c : Char) (h : c.isDigit = true) : Text.isWhitespace c = false := by
  have hd := toNat_isDigit c h
  unfold Text.isWhitespace
  simp only [Bool.or_eq_false_iff, Bool.and_eq_false_iff, decide_eq_false_iff_not,
    beq_eq_false_iff_ne]
  omega

theorem not_mem_repr (n : Nat) (c : Char) (h : c.isDigit = false) : c ∉ (Nat.repr n).toList := by
  intro hm
  rw [isDigit_of_mem_repr n c hm] at h
  cases h

theorem ofDigitChars_lt (l : List Char) (h : ∀ c ∈ l, c.isDigit = true) :
    Nat.ofDigitChars 10 l 0 < 10 ^ l.length := by
  induction l with
  | nil => simp
  | cons c l ih =>
    have hd := toNat_isDigit c (h c List.mem_cons_self)
    have hl := ih fun d hm => h d (List.mem_cons_of_mem _ hm)
    have hc : 10 ^ l.length * (c.toNat - 48) ≤ 10 ^ l.length * 9 :=
      Nat.mul_le_mul_left _ (by omega)
    rw [Nat.ofDigitChars_cons, Nat.ofDigitChars_eq_ofDigitChars_zero, List.length_cons, pow_succ,
      Nat.mul_zero, Nat.zero_add]
    show 10 ^ l.length * (c.toNat - 48) + _ < _
    omega

/-- The number of a digit text is that of its beginning, without the other places. -/
theorem ofDigitChars_take (l : List Char) (h : ∀ c ∈ l, c.isDigit = true) (r : Nat) :
    Nat.ofDigitChars 10 (l.take r) 0 = Nat.ofDigitChars 10 l 0 / 10 ^ (l.length - r) := by
  have hlt := ofDigitChars_lt (l.drop r) fun c hm => h c (List.mem_of_mem_drop hm)
  have hsplit : Nat.ofDigitChars 10 l 0 =
      10 ^ (l.drop r).length * Nat.ofDigitChars 10 (l.take r) 0 +
        Nat.ofDigitChars 10 (l.drop r) 0 := by
    rw [← Nat.ofDigitChars_eq_ofDigitChars_zero, ← Nat.ofDigitChars_append, List.take_append_drop]
  rw [hsplit, List.length_drop] at *
  rw [Nat.mul_add_div (Nat.pow_pos (by decide)), Nat.div_eq_of_lt hlt, Nat.add_zero]

/-! ## Reading -/

theorem unsigned_digits (l : List Char) (h : ∀ c ∈ l, c.isDigit = true) : unsigned l = l := by
  cases l with
  | nil => rfl
  | cons c l =>
    unfold unsigned
    split
    · next heq =>
      cases heq
      exact absurd (h '+' List.mem_cons_self) (by decide)
    · rfl

theorem parse_digits (bound : Nat) (l : List Char) (h : ∀ c ∈ l, c.isDigit = true) (hne : l ≠ [])
    (hb : Nat.ofDigitChars 10 l 0 < bound) :
    parse bound (String.ofList l) = some (Nat.ofDigitChars 10 l 0) := by
  have hall : l.all Char.isDigit = true := List.all_eq_true.mpr h
  have he : l.isEmpty = false := by
    rw [← Bool.not_eq_true, List.isEmpty_iff]
    exact hne
  unfold parse
  rw [String.toList_ofList, unsigned_digits l h]
  simp only [he, hall, Bool.not_true, Bool.or_self, Bool.false_eq_true, if_false, if_pos hb]

/-- The first `r` digits. -/
theorem parse_take_repr (bound n r : Nat) (h : n < bound) (hr : 0 < r) :
    parse bound (String.ofList ((Nat.repr n).toList.take r)) =
      some (n / 10 ^ ((Nat.repr n).toList.length - r)) := by
  have hdig := isDigit_of_mem_repr n
  have hval := ofDigitChars_take (Nat.repr n).toList hdig r
  have hn : Nat.ofDigitChars 10 (Nat.repr n).toList 0 = n := by
    rw [Nat.toList_repr, Nat.ofDigitChars_ten_toDigits]
  rw [hn] at hval
  rw [← hval]
  apply parse_digits
  · intro c hm
    exact hdig c (List.mem_of_mem_take hm)
  · intro he
    rw [Nat.toList_repr, List.take_eq_nil_iff] at he
    rcases he with he | he
    · omega
    · exact Nat.toDigits_ne_nil he
  · rw [hval]
    exact lt_of_le_of_lt (Nat.div_le_self _ _) h

theorem parse_repr (bound n : Nat) (h : n < bound) : parse bound (Nat.repr n) = some n := by
  have hlen : 0 < (Nat.repr n).toList.length := by
    rw [Nat.toList_repr]
    exact Nat.length_toDigits_pos
  have hp := parse_take_repr bound n (Nat.repr n).toList.length h hlen
  rw [List.take_length, String.ofList_toList, Nat.sub_self, pow_zero, Nat.div_one] at hp
  exact hp

/-- Digits have no whitespace around them. -/
theorem trim_digits (l : List Char) (h : ∀ c ∈ l, c.isDigit = true) :
    Text.trim (String.ofList l) = String.ofList l := by
  apply Text.trim_surround
  · exact ⟨[], [], by simp, rfl, rfl⟩
  · intro c hm
    rw [String.toList_ofList] at hm
    exact isWhitespace_isDigit c (h c hm)

end Decimal
