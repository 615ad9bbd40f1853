import McTunnel.Lib.Decimal

/-!
# Java's `String` operations

`toLowerCase` lowers one character after another by Unicode's table, but for the
special casing: a final sigma, the dotted and the dotless i of Turkish and
Azeri, and the dot that Lithuanian keeps under an accent.

    ASCII text is lowered as in Rust, except for the Turkic I          (toLowerCase_ascii)
    splitLast sep (a ++ sep ++ b) = (a, b), with no sep in b            (splitLast_append)
    n < 2 ^ 31 → parseInt (repr n) = n                                 (parseInt_repr)
-/

namespace JavaText

/-- The tables of `Character` and `Normalizer`, of which no more is assumed than
what they have for ASCII. -/
class CharacterData where
  toLowerCase : Char → Char
  combiningClass : Char → Nat
  /-- is a sigma between these characters, the ones before it in reverse, the last
  letter of its word? -/
  finalCased : List Char → List Char → Bool
  digit : Char → Option Nat
  toLowerCase_ascii : ∀ c : Char, c.toNat < 128 → toLowerCase c = Text.lower c
  combiningClass_ascii : ∀ c : Char, c.toNat < 128 → combiningClass c = 0
  digit_ascii : ∀ c : Char, c.isDigit = true → digit c = some (c.toNat - '0'.toNat)

structure JavaLocale where
  /-- `getLanguage()` -/
  language : String

/-- The languages with a dotless i. -/
def JavaLocale.Turkic (locale : JavaLocale) : Prop :=
  locale.language = "tr" ∨ locale.language = "az"

instance (locale : JavaLocale) : Decidable locale.Turkic := by
  unfold JavaLocale.Turkic
  infer_instance

/-! ## Lowercase -/

def dotlessI : Char := Char.ofNat 0x131

def dottedI : Char := Char.ofNat 0x130

def dotAbove : Char := Char.ofNat 0x307

def ogonekI : Char := Char.ofNat 0x12E

def sigma : Char := Char.ofNat 0x3A3

def finalSigma : Char := Char.ofNat 0x3C2

/-- On the way from a character one of `hit` comes before any of `stop`. -/
def reaches (hit stop : Char → Bool) : List Char → Bool
  | [] => false
  | c :: l => hit c || (!stop c && reaches hit stop l)

section
variable [CharacterData]

/-- A character of combining class zero, or an accent above. -/
def isBaseOrAbove (c : Char) : Bool :=
  CharacterData.combiningClass c == 0 || CharacterData.combiningClass c == 230

def isBeforeDot (after : List Char) : Bool := reaches (· == dotAbove) isBaseOrAbove after

def isAfterI (before : List Char) : Bool := reaches (· == 'I') isBaseOrAbove before

def isMoreAbove (after : List Char) : Bool :=
  reaches (fun c => CharacterData.combiningClass c == 230)
    (fun c => CharacterData.combiningClass c == 0) after

/-- A character in any language. -/
def lowerPlain (before : List Char) (c : Char) (after : List Char) : List Char :=
  if c = sigma ∧ CharacterData.finalCased before after = true then [finalSigma]
  else if c = dottedI then ['i', dotAbove]
  else [CharacterData.toLowerCase c]

/-- A character between those before it, the nearest first, and those after it. -/
def lowerAt (locale : JavaLocale) (before : List Char) (c : Char) (after : List Char) : List Char :=
  if locale.Turkic then
    if c = 'I' ∧ isBeforeDot after = false then [dotlessI]
    else if c = dottedI then ['i']
    else if c = dotAbove ∧ isAfterI before = true then []
    else lowerPlain before c after
  else if locale.language = "lt" then
    if (c = 'I' ∨ c = 'J' ∨ c = ogonekI) ∧ isMoreAbove after = true then
      [CharacterData.toLowerCase c, dotAbove]
    -- i with an accent above, which is written after the dot
    else if c = Char.ofNat 0xCC then ['i', dotAbove, Char.ofNat 0x300]
    else if c = Char.ofNat 0xCD then ['i', dotAbove, Char.ofNat 0x301]
    else if c = Char.ofNat 0x128 then ['i', dotAbove, Char.ofNat 0x303]
    else lowerPlain before c after
  else lowerPlain before c after

def lowerFrom (locale : JavaLocale) (before : List Char) : List Char → List Char
  | [] => []
  | c :: after => lowerAt locale before c after ++ lowerFrom locale (c :: before) after

/-- `String.toLowerCase(Locale)`. -/
def toLowerCase (locale : JavaLocale) (s : String) : String :=
  String.ofList (lowerFrom locale [] s.toList)

end

/-- `String.endsWith`. -/
def endsWith (s suffix : String) : Bool := decide (suffix.toList <:+ s.toList)

/-! ## Lowercase of ASCII -/

/-- What an ASCII character is lowered to. -/
def lowerAscii (locale : JavaLocale) (c : Char) : Char :=
  if locale.Turkic ∧ c = 'I' then dotlessI else Text.lower c

section
variable [CharacterData]

omit [CharacterData] in
theorem ne_of_ascii (c d : Char) (hc : c.toNat < 128) (hd : 128 ≤ d.toNat) : c ≠ d := by
  rintro rfl
  omega

omit [CharacterData] in
/-- The context of a character ends at an ASCII character. -/
theorem reaches_ascii (hit stop : Char → Bool) (hhit : ∀ c : Char, c.toNat < 128 → hit c = false)
    (hstop : ∀ c : Char, c.toNat < 128 → stop c = true) (l : List Char)
    (h : ∀ c ∈ l, c.toNat < 128) : reaches hit stop l = false := by
  cases l with
  | nil => rfl
  | cons c l =>
    have hc := h c List.mem_cons_self
    unfold reaches
    rw [hhit c hc, hstop c hc]
    rfl

theorem isBeforeDot_ascii (after : List Char) (h : ∀ c ∈ after, c.toNat < 128) :
    isBeforeDot after = false := by
  apply reaches_ascii _ _ _ _ after h
  · intro c hc
    rw [beq_eq_false_iff_ne]
    exact ne_of_ascii c dotAbove hc (by decide)
  · intro c hc
    unfold isBaseOrAbove
    rw [CharacterData.combiningClass_ascii c hc]
    rfl

theorem isMoreAbove_ascii (after : List Char) (h : ∀ c ∈ after, c.toNat < 128) :
    isMoreAbove after = false := by
  apply reaches_ascii _ _ _ _ after h
  · intro c hc
    rw [CharacterData.combiningClass_ascii c hc]
    rfl
  · intro c hc
    rw [CharacterData.combiningClass_ascii c hc]
    rfl

theorem lowerPlain_ascii (before : List Char) (c : Char) (after : List Char) (hc : c.toNat < 128) :
    lowerPlain before c after = [Text.lower c] := by
  unfold lowerPlain
  rw [if_neg fun h => ne_of_ascii c sigma hc (by decide) h.1,
    if_neg (ne_of_ascii c dottedI hc (by decide)), CharacterData.toLowerCase_ascii c hc]

theorem lowerAt_ascii (locale : JavaLocale) (before : List Char) (c : Char) (after : List Char)
    (hc : c.toNat < 128) (hafter : ∀ d ∈ after, d.toNat < 128) :
    lowerAt locale before c after = [lowerAscii locale c] := by
  have hplain := lowerPlain_ascii before c after hc
  unfold lowerAt lowerAscii
  rw [isBeforeDot_ascii after hafter, isMoreAbove_ascii after hafter]
  by_cases ht : locale.Turkic
  · rw [if_pos ht]
    by_cases hi : c = 'I'
    · rw [if_pos ⟨hi, rfl⟩, if_pos ⟨ht, hi⟩]
    · rw [if_neg fun h => hi h.1, if_neg (ne_of_ascii c dottedI hc (by decide)),
        if_neg fun h => ne_of_ascii c dotAbove hc (by decide) h.1, if_neg fun h => hi h.2, hplain]
  · have hplace : ¬ (locale.Turkic ∧ c = 'I') := fun h => ht h.1
    rw [if_neg ht, if_neg hplace]
    by_cases hlt : locale.language = "lt"
    · rw [if_pos hlt, if_neg fun h => Bool.false_ne_true h.2,
        if_neg (ne_of_ascii c (Char.ofNat 0xCC) hc (by decide)),
        if_neg (ne_of_ascii c (Char.ofNat 0xCD) hc (by decide)),
        if_neg (ne_of_ascii c (Char.ofNat 0x128) hc (by decide)), hplain]
    · rw [if_neg hlt, hplain]

theorem lowerFrom_ascii (locale : JavaLocale) (before l : List Char) (h : ∀ c ∈ l, c.toNat < 128) :
    lowerFrom locale before l = l.map (lowerAscii locale) := by
  induction l generalizing before with
  | nil => rfl
  | cons c l ih =>
    have hl : ∀ d ∈ l, d.toNat < 128 := fun d hd => h d (List.mem_cons_of_mem _ hd)
    unfold lowerFrom
    rw [lowerAt_ascii locale before c l (h c List.mem_cons_self) hl, ih _ hl]
    rfl

/-- ASCII text is lowered one character at a time, whatever is around it. -/
theorem toLowerCase_ascii (locale : JavaLocale) (s : String) (h : ∀ c ∈ s.toList, c.toNat < 128) :
    (toLowerCase locale s).toList = s.toList.map (lowerAscii locale) := by
  unfold toLowerCase
  rw [String.toList_ofList, lowerFrom_ascii locale [] s.toList h]

end

/-! ## The last separator -/

/-- What is before and after `lastIndexOf(sep)`, if there is one. -/
def splitLast (sep : Char) (s : String) : Option (String × String) :=
  let after := s.toList.reverse.takeWhile (· != sep)
  match s.toList.reverse.dropWhile (· != sep) with
  | [] => none
  | _ :: before => some (String.ofList before.reverse, String.ofList after.reverse)

theorem splitLast_append (sep : Char) (a b : String) (h : sep ∉ b.toList) :
    splitLast sep (a ++ String.singleton sep ++ b) = some (a, b) := by
  have hb : ∀ c ∈ b.toList.reverse, (c != sep) = true := by
    intro c hc
    rw [bne_iff_ne]
    rintro rfl
    exact h (List.mem_reverse.mp hc)
  have hlist : (a ++ String.singleton sep ++ b).toList.reverse =
      b.toList.reverse ++ sep :: a.toList.reverse := by
    simp
  unfold splitLast
  rw [hlist, List.takeWhile_append_of_pos hb, List.dropWhile_append_of_pos hb]
  simp

/-! ## Numbers -/

section
variable [CharacterData]

/-- The number of these digits, after what has been read. -/
def digits (n : Nat) : List Char → Option Nat
  | [] => some n
  | c :: l => (CharacterData.digit c).bind fun d => digits (10 * n + d) l

/-- `Integer.parseInt`; `none` when it throws. -/
def parseInt (s : String) : Option Int :=
  match s.toList with
  | [] => none
  | '-' :: l => if l = [] then none else (digits 0 l).bind fun n =>
      if n ≤ 2 ^ 31 then some (-(n : Int)) else none
  | '+' :: l => if l = [] then none else (digits 0 l).bind fun n =>
      if n < 2 ^ 31 then some (n : Int) else none
  | l => (digits 0 l).bind fun n => if n < 2 ^ 31 then some (n : Int) else none

theorem digits_eq (l : List Char) (h : ∀ c ∈ l, c.isDigit = true) (n : Nat) :
    digits n l = some (Nat.ofDigitChars 10 l n) := by
  induction l generalizing n with
  | nil => rfl
  | cons c l ih =>
    unfold digits
    rw [CharacterData.digit_ascii c (h c List.mem_cons_self), Nat.ofDigitChars_cons]
    exact ih (fun d hd => h d (List.mem_cons_of_mem _ hd)) _

theorem parseInt_repr (n : Nat) (h : n < 2 ^ 31) :
    parseInt (Nat.repr n) = some (n : Int) := by
  have hdig := Decimal.isDigit_of_mem_repr n
  have hn : Nat.ofDigitChars 10 (Nat.repr n).toList 0 = n := by
    rw [Nat.toList_repr, Nat.ofDigitChars_ten_toDigits]
  have hread := digits_eq (Nat.repr n).toList hdig 0
  rw [hn] at hread
  unfold parseInt
  split
  · next hnil =>
    rw [Nat.toList_repr] at hnil
    exact absurd hnil Nat.toDigits_ne_nil
  · next l hl => exact absurd (hdig '-' (by rw [hl]; exact List.mem_cons_self)) (by decide)
  · next l hl => exact absurd (hdig '+' (by rw [hl]; exact List.mem_cons_self)) (by decide)
  · rw [hread, Option.bind_some, if_pos h]

end

end JavaText
