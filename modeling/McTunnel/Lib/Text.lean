import Mathlib

/-!
# Rust's `str` operations

A Rust string is a sequence of Unicode scalar values, as is a Lean `String`.
`trim`, `toAsciiLowercase` and `split` are the `str` methods of those names.

    trim s = t  when s is t between whitespace and t has none        (trim_surround)
-/

namespace Text

/-- `str::as_bytes`. -/
def asBytes (s : String) : List UInt8 := s.toByteArray.data.toList

theorem length_asBytes (s : String) : (asBytes s).length = s.utf8ByteSize := by
  rw [asBytes, Array.length_toList]
  rfl

/-- `String::from_utf8(..).ok()`. -/
def fromUtf8 (b : List UInt8) : Option String := String.fromUTF8? ⟨b.toArray⟩

theorem fromUtf8_asBytes (s : String) : fromUtf8 (asBytes s) = some s := by
  have hb : (⟨(asBytes s).toArray⟩ : ByteArray) = s.toByteArray := by
    simp [asBytes]
  unfold fromUtf8
  rw [hb, String.fromUTF8?, dif_pos s.isValidUTF8]
  rfl

theorem asBytes_cons (c : Char) (l : List Char) (h : c.utf8Size = 1) :
    asBytes (String.ofList (c :: l)) = c.val.toUInt8 :: asBytes (String.ofList l) := by
  unfold asBytes
  rw [String.toByteArray_ofList, String.toByteArray_ofList, List.utf8Encode_cons,
    List.utf8Encode_singleton, String.utf8EncodeChar_eq_singleton h]
  simp

theorem asBytes_ascii (l : List Char) (h : ∀ c ∈ l, c.utf8Size = 1) :
    asBytes (String.ofList l) = l.map fun c => c.val.toUInt8 := by
  induction l with
  | nil => rfl
  | cons c l ih =>
    rw [asBytes_cons c l (h c List.mem_cons_self), ih fun d hd => h d (List.mem_cons_of_mem _ hd)]
    rfl

/-- The first bytes of a text of one-byte characters are its first characters. -/
theorem take_asBytes (l : List Char) (h : ∀ c ∈ l, c.utf8Size = 1) (r : Nat) :
    (asBytes (String.ofList l)).take r = asBytes (String.ofList (l.take r)) := by
  induction l generalizing r with
  | nil => simp [asBytes]
  | cons c l ih =>
    have hc := h c List.mem_cons_self
    cases r with
    | zero => simp [asBytes]
    | succ r =>
      rw [List.take_succ_cons, asBytes_cons c l hc, asBytes_cons c _ hc, List.take_succ_cons,
        ih fun d hd => h d (List.mem_cons_of_mem _ hd)]

theorem asBytes_append (s t : String) : asBytes (s ++ t) = asBytes s ++ asBytes t := by
  unfold asBytes
  rw [String.toByteArray_append, ByteArray.data_append, Array.toList_append]

/-- A byte of a character is all of it, or has its first bit set. -/
theorem utf8EncodeChar_bytes (c : Char) :
    ∀ b ∈ String.utf8EncodeChar c, b.toNat = c.toNat ∨ 128 ≤ b.toNat := by
  have hc : c.toNat = c.val.toNat := rfl
  unfold String.utf8EncodeChar
  dsimp only
  repeat' split
  all_goals
    simp only [List.forall_mem_cons, List.not_mem_nil, false_imp_iff, implies_true, and_true,
      UInt8.toNat_ofNat']
    omega

theorem mem_of_mem_asBytes (s : String) (b : UInt8) (hb : b.toNat < 128) (h : b ∈ asBytes s) :
    ∃ c ∈ s.toList, c.toNat = b.toNat := by
  have hlist : ∀ l : List Char, b ∈ asBytes (String.ofList l) → ∃ c ∈ l, c.toNat = b.toNat := by
    intro l
    induction l with
    | nil =>
      intro h
      cases h
    | cons c l ih =>
      intro h
      have hcons : asBytes (String.ofList (c :: l)) =
          String.utf8EncodeChar c ++ asBytes (String.ofList l) := by
        unfold asBytes
        rw [String.toByteArray_ofList, String.toByteArray_ofList, List.utf8Encode_cons,
          List.utf8Encode_singleton, ByteArray.data_append, Array.toList_append]
        simp
      rw [hcons, List.mem_append] at h
      rcases h with h | h
      · exact ⟨c, List.mem_cons_self, by have := utf8EncodeChar_bytes c b h; omega⟩
      · obtain ⟨d, hd, he⟩ := ih h
        exact ⟨d, List.mem_cons_of_mem _ hd, he⟩
  rw [← String.ofList_toList (s := s)] at h
  exact hlist s.toList h

theorem asBytes_inj (s t : String) (h : asBytes s = asBytes t) : s = t := by
  apply String.toByteArray_inj.mp
  exact ByteArray.ext (Array.toList_inj.mp h)

/-- `char::is_whitespace`: the Unicode property White_Space. -/
def isWhitespace (c : Char) : Bool :=
  let n := c.toNat
  (9 ≤ n && n ≤ 13) || n == 32 || n == 0x85 || n == 0xA0 || n == 0x1680 ||
    (0x2000 ≤ n && n ≤ 0x200A) || n == 0x2028 || n == 0x2029 || n == 0x202F || n == 0x205F ||
    n == 0x3000

/-- `str::trim`. -/
def trim (s : String) : String :=
  String.ofList ((s.toList.dropWhile isWhitespace).reverse.dropWhile isWhitespace).reverse

/-- `char::to_ascii_lowercase`. -/
def lower (c : Char) : Char :=
  if 'A' ≤ c ∧ c ≤ 'Z' then Char.ofNat (c.toNat + 32) else c

/-- `str::to_ascii_lowercase`. -/
def toAsciiLowercase (s : String) : String := String.ofList (s.toList.map lower)

/-- `str::split` at a character. -/
def split (sep : Char) (s : String) : List String := (s.toList.splitOn sep).map String.ofList

/-- `str::contains`. -/
def contains (pat s : String) : Bool := decide (pat.toList <:+: s.toList)

/-- `String::truncate`, on a string of ASCII characters (one byte each). -/
def truncate (s : String) (len : Nat) : String := String.ofList (s.toList.take len)

/-- `s` is `t` with whitespace around it. -/
def Surrounds (s t : String) : Prop :=
  ∃ l r : List Char, s.toList = l ++ t.toList ++ r ∧ l.all isWhitespace ∧ r.all isWhitespace

theorem dropWhile_append_all {α : Type} (p : α → Bool) (l t : List α) (h : l.all p) :
    (l ++ t).dropWhile p = t.dropWhile p := by
  induction l with
  | nil => rfl
  | cons a l ih =>
    simp only [List.all_cons, Bool.and_eq_true] at h
    simp only [List.cons_append, List.dropWhile_cons, h.1, if_true]
    exact ih h.2

theorem trim_surround (s t : String) (h : Surrounds s t) (ht : ∀ c ∈ t.toList, isWhitespace c = false) :
    trim s = t := by
  obtain ⟨l, r, hs, hl, hr⟩ := h
  have hd : ∀ u : List Char, (∀ c ∈ u, isWhitespace c = false) → u.dropWhile isWhitespace = u := by
    intro u hu
    cases u with
    | nil => rfl
    | cons c u => simp [hu c List.mem_cons_self]
  unfold trim
  rw [hs, List.append_assoc, dropWhile_append_all _ _ _ hl]
  apply String.toList_inj.mp
  rw [String.toList_ofList]
  by_cases hne : t.toList = []
  · have hrr : r.dropWhile isWhitespace = [] := by
      rw [List.dropWhile_eq_nil_iff]
      exact List.all_eq_true.mp hr
    rw [hne, List.nil_append, hrr]
    rfl
  · obtain ⟨c, u, hc⟩ := List.exists_cons_of_ne_nil hne
    have h1 : (t.toList ++ r).dropWhile isWhitespace = t.toList ++ r := by
      rw [hc, List.cons_append, List.dropWhile_cons, ht c (by rw [hc]; exact List.mem_cons_self)]
      rfl
    rw [h1, List.reverse_append, dropWhile_append_all _ _ _ (by rw [List.all_reverse]; exact hr),
      hd _ (fun c hc => ht c (List.mem_reverse.mp hc)), List.reverse_reverse]

/-- Only whitespace is trimmed. -/
theorem mem_trim (s : String) (c : Char) (hc : c ∈ s.toList) (hw : isWhitespace c = false) :
    c ∈ (trim s).toList := by
  have hkeep : ∀ l : List Char, c ∈ l → c ∈ l.dropWhile isWhitespace := by
    intro l hl
    rw [← List.takeWhile_append_dropWhile (p := isWhitespace) (l := l), List.mem_append] at hl
    rcases hl with hl | hl
    · rw [List.mem_takeWhile_imp hl] at hw
      cases hw
    · exact hl
  unfold trim
  rw [String.toList_ofList, List.mem_reverse]
  exact hkeep _ (List.mem_reverse.mpr (hkeep _ hc))

/-! ## Searching -/

/-- A pattern that ends in a character `b` has not does not reach into `b`. -/
theorem infix_of_append {α : Type} (x a b : List α) (c : α) (hc : c ∉ b)
    (h : x ++ [c] <:+: a ++ b) : x ++ [c] <:+: a := by
  obtain ⟨s, t, h⟩ := h
  rcases List.append_eq_append_iff.mp h with ⟨e, ha, -⟩ | ⟨e, ha, hb⟩
  · exact ⟨s, e, ha.symm⟩
  · rcases List.eq_nil_or_concat e with rfl | ⟨e, d, rfl⟩
    · refine ⟨s, [], ?_⟩
      rw [List.append_nil, ha, List.append_nil]
    · have hd : d ∈ b := by
        rw [hb]
        simp
      have hcd : c = d := by
        have hl := congrArg List.getLast? ha
        simpa [← List.append_assoc] using hl
      exact absurd (hcd ▸ hd) hc

theorem contains_append (pat s b : String) (x : List Char) (c : Char)
    (hp : pat.toList = x ++ [c]) (hc : c ∉ b.toList) : contains pat (s ++ b) = contains pat s := by
  unfold contains
  rw [decide_eq_decide, String.toList_append, hp]
  constructor
  · exact infix_of_append x _ _ c hc
  · intro h
    exact h.trans (List.prefix_append _ _).isInfix

end Text
