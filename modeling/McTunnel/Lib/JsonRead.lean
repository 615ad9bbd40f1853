import McTunnel.Lib.JsonText

/-!
# Reading JSON objects

The grammar of JSON for an object whose members are texts, integers, `true` and
`false`; `read` gives none for anything else, arrays, objects within the object,
fractions and `null` included.  So where it gives members, every JSON reader does.

    a text that some writer has escaped is read back                 (readString_text)
    what is written member by member is read back                      (read_write)
    the same with the members in the order of their keys                 (read_object)
    what is written is one line                                     (newline_not_mem_write)
-/

namespace JsonText

inductive Value
  | bool (b : Bool)
  | num (n : Int)
  | str (s : String)
deriving DecidableEq

/-! ## The grammar -/

def isSpace (c : Char) : Bool := c == ' ' || c == '\t' || c == '\n' || c == '\r'

def skip (l : List Char) : List Char := l.dropWhile isSpace

def hexValue (c : Char) : Option Nat :=
  if '0' ≤ c ∧ c ≤ '9' then some (c.toNat - 48)
  else if 'a' ≤ c ∧ c ≤ 'f' then some (c.toNat - 87)
  else if 'A' ≤ c ∧ c ≤ 'F' then some (c.toNat - 55)
  else none

/-- Four hexadecimal digits. -/
def readHex : List Char → Option (Nat × List Char)
  | a :: b :: c :: d :: rest =>
    match hexValue a, hexValue b, hexValue c, hexValue d with
    | some a, some b, some c, some d => some (((a * 16 + b) * 16 + c) * 16 + d, rest)
    | _, _, _, _ => none
  | _ => none

/-- What follows `\u`: a character, or the two halves of one. -/
def readUnicode (l : List Char) : Option (Char × List Char) :=
  match readHex l with
  | none => none
  | some (high, rest) =>
    if high < 0xD800 ∨ 0xDFFF < high then some (Char.ofNat high, rest)
    else if high < 0xDC00 then
      match rest with
      | '\\' :: 'u' :: rest =>
        match readHex rest with
        | some (low, rest) =>
          if 0xDC00 ≤ low ∧ low ≤ 0xDFFF then
            some (Char.ofNat (0x10000 + (high - 0xD800) * 0x400 + (low - 0xDC00)), rest)
          else none
        | none => none
      | _ => none
    else none

/-- One character of a string. -/
def readChar : List Char → Option (Char × List Char)
  | [] => none
  | '\\' :: '"' :: rest => some ('"', rest)
  | '\\' :: '\\' :: rest => some ('\\', rest)
  | '\\' :: '/' :: rest => some ('/', rest)
  | '\\' :: 'b' :: rest => some (Char.ofNat 8, rest)
  | '\\' :: 'f' :: rest => some (Char.ofNat 12, rest)
  | '\\' :: 'n' :: rest => some ('\n', rest)
  | '\\' :: 'r' :: rest => some ('\r', rest)
  | '\\' :: 't' :: rest => some ('\t', rest)
  | '\\' :: 'u' :: rest => readUnicode rest
  | '\\' :: _ => none
  | c :: rest => if c.toNat < 32 then none else some (c, rest)

/-- A string after its opening quote; `fuel` bounds its characters. -/
def readString : Nat → List Char → Option (List Char × List Char)
  | 0, _ => none
  | fuel + 1, l =>
    if l.head? = some '"' then some ([], l.tail)
    else
      match readChar l with
      | none => none
      | some (c, rest) => (readString fuel rest).map fun p => (c :: p.1, p.2)

/-- Digits that do not begin with a zero but for zero itself, and no fraction or
exponent after them. -/
def readNat (l : List Char) : Option (Nat × List Char) :=
  let digits := l.takeWhile Char.isDigit
  let rest := l.dropWhile Char.isDigit
  if digits.isEmpty || (decide (1 < digits.length) && digits.head? == some '0') then none
  else if rest.head?.any fun c => c == '.' || c == 'e' || c == 'E' then none
  else some (Nat.ofDigitChars 10 digits 0, rest)

def readValue (l : List Char) : Option (Value × List Char) :=
  match l with
  | '"' :: rest =>
    (readString rest.length rest).map fun p => (.str (String.ofList p.1), p.2)
  | 't' :: 'r' :: 'u' :: 'e' :: rest => some (.bool true, rest)
  | 'f' :: 'a' :: 'l' :: 's' :: 'e' :: rest => some (.bool false, rest)
  | '-' :: rest => (readNat rest).map fun p => (.num (-(p.1 : Int)), p.2)
  | l => (readNat l).map fun p => (.num p.1, p.2)

def readMember (l : List Char) : Option ((String × Value) × List Char) :=
  match skip l with
  | '"' :: rest =>
    match readString rest.length rest with
    | none => none
    | some (key, rest) =>
      match skip rest with
      | ':' :: rest =>
        (readValue (skip rest)).map fun p => ((String.ofList key, p.1), skip p.2)
      | _ => none
  | _ => none

/-- The members up to the closing brace; `fuel` bounds their number. -/
def readMembers : Nat → List Char → Option (List (String × Value) × List Char)
  | 0, _ => none
  | fuel + 1, l =>
    match readMember l with
    | none => none
    | some (m, rest) =>
      match rest with
      | ',' :: rest => (readMembers fuel rest).map fun p => (m :: p.1, p.2)
      | '\x7d' :: rest => some ([m], rest)
      | _ => none

/-- A text that is an object. -/
def read (text : String) : Option (List (String × Value)) :=
  match skip text.toList with
  | '\x7b' :: rest =>
    match skip rest with
    | '\x7d' :: rest => if (skip rest).isEmpty then some [] else none
    | l =>
      match readMembers l.length l with
      | some (members, rest) => if (skip rest).isEmpty then some members else none
      | none => none
  | _ => none

example : read " \x7b \"op\" : \"r\\u00e9solve\" , \"n\":-12,\"ok\":true \x7d\n" =
    some [("op", .str (String.ofList ['r', Char.ofNat 233, 's', 'o', 'l', 'v', 'e'])),
      ("n", .num (-12)), ("ok", .bool true)] := by decide +kernel

/-! ## Strings -/

/-- A way to write the characters of a string: each can be read, and none looks
like the end. -/
structure Escapes (esc : Char → List Char) : Prop where
  read : ∀ c rest, readChar (esc c ++ rest) = some (c, rest)
  not_end : ∀ c rest, (esc c ++ rest).head? ≠ some '"'

theorem readString_text (esc : Char → List Char) (h : Escapes esc) (s rest : List Char) (fuel : Nat)
    (hf : s.length < fuel) :
    readString fuel (s.flatMap esc ++ '"' :: rest) = some (s, rest) := by
  induction s generalizing fuel with
  | nil =>
    cases fuel with
    | zero => exact absurd hf (Nat.not_lt_zero _)
    | succ fuel => rfl
  | cons c s ih =>
    cases fuel with
    | zero => exact absurd hf (Nat.not_lt_zero _)
    | succ fuel =>
      rw [List.length_cons] at hf
      rw [List.flatMap_cons, List.append_assoc]
      unfold readString
      rw [if_neg (h.not_end c _), h.read]
      dsimp only
      rw [ih fuel (by omega)]
      rfl

theorem Escapes.length_pos {esc : Char → List Char} (h : Escapes esc) (c : Char) :
    1 ≤ (esc c).length := by
  cases he : esc c with
  | nil =>
    have hr := h.read c []
    rw [he] at hr
    cases hr
  | cons a l => exact Nat.succ_pos _

theorem Escapes.length_le {esc : Char → List Char} (h : Escapes esc) (s : List Char) :
    s.length ≤ (s.flatMap esc).length := by
  induction s with
  | nil => exact Nat.zero_le _
  | cons c s ih =>
    have hc := h.length_pos c
    rw [List.flatMap_cons, List.length_append, List.length_cons]
    omega

theorem readChar_plain (c : Char) (rest : List Char) (hc : c ≠ '\\') (h : ¬ c.toNat < 32) :
    readChar (c :: rest) = some (c, rest) := by
  unfold readChar
  split <;> simp_all

theorem hexValue_hexDigit (n : Nat) (h : n < 16) : hexValue (hexDigit n) = some n := by
  have hall : ∀ m ∈ List.range 16, hexValue (hexDigit m) = some m := by decide
  exact hall n (List.mem_range.mpr h)

/-- A control character in hexadecimal. -/
theorem readChar_control (c : Char) (rest : List Char) (h : c.toNat < 32) :
    readChar ('\\' :: 'u' :: '0' :: '0' :: hexDigit (c.toNat / 16) :: hexDigit (c.toNat % 16) ::
      rest) = some (c, rest) := by
  have h0 : hexValue '0' = some 0 := rfl
  have hhigh := hexValue_hexDigit (c.toNat / 16) (by omega)
  have hlow := hexValue_hexDigit (c.toNat % 16) (by omega)
  have hsum : ((0 * 16 + 0) * 16 + c.toNat / 16) * 16 + c.toNat % 16 = c.toNat := by omega
  show readUnicode _ = _
  unfold readUnicode readHex
  simp only [h0, hhigh, hlow]
  rw [hsum, if_pos (Or.inl (by omega)), Char.ofNat_toNat]

/-- `serde_json` escapes so that it can be read. -/
theorem escapes_escape : Escapes escape where
  read c rest := by
    unfold escape
    by_cases hq : c = '"'
    · rw [if_pos hq, hq]
      rfl
    by_cases hb : c = '\\'
    · rw [if_neg hq, if_pos hb, hb]
      rfl
    rw [if_neg hq, if_neg hb]
    have hof : ∀ n, c.toNat = n → Char.ofNat n = c := by
      rintro n rfl
      exact Char.ofNat_toNat c
    split
    · next h => exact congrArg (fun d => some (d, rest)) (hof 8 h)
    split
    · next h => exact congrArg (fun d => some (d, rest)) (hof 9 h)
    split
    · next h => exact congrArg (fun d => some (d, rest)) (hof 10 h)
    split
    · next h => exact congrArg (fun d => some (d, rest)) (hof 12 h)
    split
    · next h => exact congrArg (fun d => some (d, rest)) (hof 13 h)
    split
    · next h => exact readChar_control c rest h
    · next h => exact readChar_plain c rest hb h
  not_end c rest := by
    unfold escape
    repeat' split
    all_goals simp_all

/-! ## Numbers -/

/-- Only zero begins with a zero. -/
theorem head_toDigits (n : Nat) (h : 0 < n) : (Nat.toDigits 10 n).head? ≠ some '0' := by
  induction n using Nat.strong_induction_on with
  | h n ih =>
    by_cases hn : n < 10
    · rw [Nat.toDigits_of_lt_base hn]
      have hall : ∀ m ∈ List.range 10, 0 < m → [Nat.digitChar m].head? ≠ some '0' := by decide
      exact hall n (List.mem_range.mpr hn) h
    · rw [Nat.toDigits_of_base_le (by decide) (by omega), List.head?_append]
      have hdiv := ih (n / 10) (by omega) (by omega)
      cases hd : (Nat.toDigits 10 (n / 10)).head? with
      | none => exact absurd (List.head?_eq_none_iff.mp hd) Nat.toDigits_ne_nil
      | some c =>
        rw [hd] at hdiv
        exact hdiv

/-- What may come after a number. -/
def Ends (rest : List Char) : Prop :=
  ∀ c, rest.head? = some c → c.isDigit = false ∧ c ≠ '.' ∧ c ≠ 'e' ∧ c ≠ 'E'

theorem readNat_repr (n : Nat) (rest : List Char) (h : Ends rest) :
    readNat ((Nat.repr n).toList ++ rest) = some (n, rest) := by
  have hdig : ∀ c ∈ (Nat.repr n).toList, c.isDigit = true := Decimal.isDigit_of_mem_repr n
  have hrest : rest.takeWhile Char.isDigit = [] ∧ rest.dropWhile Char.isDigit = rest := by
    cases rest with
    | nil => exact ⟨rfl, rfl⟩
    | cons c rest => simp [(h c rfl).1]
  have hempty : (Nat.repr n).toList.isEmpty = false := by
    rw [List.isEmpty_eq_false_iff, Nat.toList_repr]
    exact Nat.toDigits_ne_nil
  have hzero : (decide (1 < (Nat.repr n).toList.length) &&
      (Nat.repr n).toList.head? == some '0') = false := by
    rw [Bool.and_eq_false_iff, decide_eq_false_iff_not, beq_eq_false_iff_ne, Nat.toList_repr]
    by_cases hn : n = 0
    · left
      rw [hn]
      decide
    · exact Or.inr (head_toDigits n (Nat.pos_of_ne_zero hn))
  have hafter : (rest.head?.any fun c => c == '.' || c == 'e' || c == 'E') = false := by
    cases hh : rest.head? with
    | none => rfl
    | some c =>
      obtain ⟨-, h1, h2, h3⟩ := h c hh
      simp [h1, h2, h3]
  unfold readNat
  rw [List.takeWhile_append_of_pos hdig, List.dropWhile_append_of_pos hdig, hrest.1, hrest.2,
    List.append_nil]
  simp only [hempty, hzero, hafter, Bool.or_self, Bool.false_eq_true, if_false]
  rw [Nat.toList_repr, Nat.ofDigitChars_ten_toDigits]

/-! ## Writing -/

def quoteWith (esc : Char → List Char) (s : String) : List Char :=
  '"' :: (s.toList.flatMap esc ++ ['"'])

def Value.write (esc : Char → List Char) : Value → List Char
  | .bool true => "true".toList
  | .bool false => "false".toList
  | .num n => writeInt n
  | .str s => quoteWith esc s

def memberWith (esc : Char → List Char) (m : String × Value) : List Char :=
  quoteWith esc m.1 ++ [':'] ++ m.2.write esc

/-- An object, its members in the order of the list. -/
def write (esc : Char → List Char) (members : List (String × Value)) : String :=
  String.ofList ('\x7b' :: ([','].intercalate (members.map (memberWith esc)) ++ ['\x7d']))

section
variable (esc : Char → List Char) (h : Escapes esc)
include h

theorem readString_quote (s : String) (rest : List Char) :
    readString (s.toList.flatMap esc ++ ['"'] ++ rest).length
      (s.toList.flatMap esc ++ ['"'] ++ rest) = some (s.toList, rest) := by
  have hle := h.length_le s.toList
  rw [List.append_assoc]
  apply readString_text esc h
  rw [List.length_append, List.length_append]
  show _ < _ + (1 + rest.length)
  omega

theorem readValue_write (v : Value) (rest : List Char) (hr : Ends rest) :
    readValue (v.write esc ++ rest) = some (v, rest) := by
  cases v with
  | bool b => cases b <;> rfl
  | num n =>
    cases n with
    | ofNat n =>
      show readValue ((Nat.repr n).toList ++ rest) = _
      have hread := readNat_repr n rest hr
      cases hl : (Nat.repr n).toList with
      | nil =>
        rw [Nat.toList_repr] at hl
        exact absurd hl Nat.toDigits_ne_nil
      | cons c l =>
        have hc : c.isDigit = true :=
          Decimal.isDigit_of_mem_repr n c (by rw [hl]; exact List.mem_cons_self)
        rw [hl] at hread
        unfold readValue
        -- a digit begins nothing else
        split
        all_goals first
          | (next heq =>
              obtain ⟨rfl, -⟩ := List.cons.inj heq
              exact absurd hc (by decide))
          | (rw [hread]; rfl)
    | negSucc n =>
      show (readNat ((Nat.repr (n + 1)).toList ++ rest)).map _ = _
      rw [readNat_repr (n + 1) rest hr]
      rfl
  | str s =>
    show (readString (s.toList.flatMap esc ++ ['"'] ++ rest).length
      (s.toList.flatMap esc ++ ['"'] ++ rest)).map _ = _
    rw [readString_quote esc h s rest, Option.map_some, String.ofList_toList]

omit h in
theorem skip_cons (c : Char) (l : List Char) (hc : isSpace c = false) : skip (c :: l) = c :: l := by
  unfold skip
  rw [List.dropWhile_cons_of_neg (by rw [hc]; exact Bool.false_ne_true)]

omit h in
/-- What begins a value is no space. -/
theorem skip_value (v : Value) (rest : List Char) : skip (v.write esc ++ rest) = v.write esc ++ rest := by
  cases v with
  | bool b => cases b <;> rfl
  | num n =>
    cases n with
    | ofNat n =>
      have hw : (Value.num (Int.ofNat n)).write esc = (Nat.repr n).toList := rfl
      rw [hw]
      cases hl : (Nat.repr n).toList with
      | nil =>
        rw [Nat.toList_repr] at hl
        exact absurd hl Nat.toDigits_ne_nil
      | cons c l =>
        have hc := Decimal.isDigit_of_mem_repr n c (by rw [hl]; exact List.mem_cons_self)
        have hd := Decimal.toNat_isDigit c hc
        apply skip_cons c (l ++ rest)
        simp only [isSpace, Bool.or_eq_false_iff, beq_eq_false_iff_ne]
        refine ⟨⟨⟨?_, ?_⟩, ?_⟩, ?_⟩ <;> rintro rfl <;> exact absurd hd (by decide)
    | negSucc n => rfl
  | str s => rfl

theorem readMember_write (m : String × Value) (rest : List Char) (hr : Ends rest) :
    readMember (memberWith esc m ++ rest) = some (m, skip rest) := by
  have htext : memberWith esc m ++ rest = '"' ::
      (m.1.toList.flatMap esc ++ ['"'] ++ (':' :: (m.2.write esc ++ rest))) := by
    unfold memberWith quoteWith
    simp
  rw [htext]
  unfold readMember
  simp only [skip_cons '"' _ rfl]
  rw [readString_quote esc h m.1]
  simp only [skip_cons ':' _ rfl]
  rw [skip_value esc m.2 rest, readValue_write esc h m.2 rest hr, Option.map_some,
    String.ofList_toList]

omit h in
theorem ends_cons (c : Char) (rest : List Char) (hc : c = ',' ∨ c = '\x7d') : Ends (c :: rest) := by
  intro d hd
  cases hd
  rcases hc with rfl | rfl <;> decide

/-- A member that another follows. -/
theorem readMembers_cons (m : String × Value) (rest : List Char) (fuel : Nat) :
    readMembers (fuel + 1) (memberWith esc m ++ ',' :: rest) =
      (readMembers fuel rest).map fun p => (m :: p.1, p.2) := by
  have hread := readMember_write esc h m (',' :: rest) (ends_cons ',' rest (Or.inl rfl))
  rw [skip_cons ',' rest rfl] at hread
  rw [readMembers, hread]
  rfl

theorem readMembers_write (m : String × Value) (ms : List (String × Value)) (rest : List Char)
    (fuel : Nat) (hf : ms.length < fuel) :
    readMembers fuel ([','].intercalate ((m :: ms).map (memberWith esc)) ++ '\x7d' :: rest) =
      some (m :: ms, rest) := by
  induction ms generalizing m fuel with
  | nil =>
    cases fuel with
    | zero => exact absurd hf (Nat.not_lt_zero _)
    | succ fuel =>
      have hone : [','].intercalate ([m].map (memberWith esc)) = memberWith esc m := by
        simp [List.intercalate]
      rw [hone]
      unfold readMembers
      rw [readMember_write esc h m _ (ends_cons '\x7d' rest (Or.inr rfl)), skip_cons '\x7d' rest rfl]
      rfl
  | cons m' ms ih =>
    cases fuel with
    | zero => exact absurd hf (Nat.not_lt_zero _)
    | succ fuel =>
      rw [List.length_cons] at hf
      have hnext := ih m' fuel (by omega)
      rw [List.map_cons, List.map_cons, List.intercalate_cons_cons, List.append_assoc,
        List.append_assoc, ← List.map_cons]
      rw [List.singleton_append, readMembers_cons esc h m, hnext]
      rfl

omit h in
theorem length_le_intercalate (ls : List (List Char)) :
    ls.length ≤ ([','].intercalate ls).length + 1 := by
  induction ls with
  | nil => exact Nat.zero_le _
  | cons l ls ih =>
    cases ls with
    | nil => exact Nat.le_add_left _ _
    | cons l' ls =>
      rw [List.intercalate_cons_cons, List.length_append, List.length_append, List.length_cons,
        List.length_singleton]
      omega

/-! ## Round trip -/

/-- **What is written is read back.** -/
theorem read_write (members : List (String × Value)) :
    read (write esc members) = some members := by
  unfold read write
  rw [String.toList_ofList, skip_cons '\x7b' _ rfl]
  cases members with
  | nil => rfl
  | cons m ms =>
    have hlen := length_le_intercalate ((m :: ms).map (memberWith esc))
    rw [List.length_map, List.length_cons] at hlen
    have hread := readMembers_write esc h m ms [] ([','].intercalate ((m :: ms).map
      (memberWith esc)) ++ ['\x7d']).length (by rw [List.length_append, List.length_singleton]; omega)
    have hquote : ∃ l, [','].intercalate ((m :: ms).map (memberWith esc)) ++ ['\x7d'] = '"' :: l := by
      cases ms with
      | nil => exact ⟨_, rfl⟩
      | cons m' ms => exact ⟨_, rfl⟩
    obtain ⟨l, hl⟩ := hquote
    rw [hl] at hread
    simp only [hl, skip_cons '"' l rfl]
    show (match readMembers ('"' :: l).length ('"' :: l) with
      | some (members, rest) => if (skip rest).isEmpty then some members else none
      | none => none) = _
    rw [hread]
    rfl

end

/-- `serde_json` puts the members in the order of their keys. -/
theorem object_eq_write (members : List (String × Value)) :
    object (members.map fun m => (m.1, m.2.write escape)) =
      write escape (members.insertionSort fun a b => a.1 ≤ b.1) := by
  have hsort := List.map_insertionSort (fun a b : String × Value => a.1 ≤ b.1)
    (fun a b : String × List Char => a.1 ≤ b.1) (fun m => (m.1, m.2.write escape)) members
    fun a _ b _ => Iff.rfl
  unfold object write
  rw [← hsort, List.map_map]
  rfl

theorem read_object (members : List (String × Value)) :
    read (object (members.map fun m => (m.1, m.2.write escape))) =
      some (members.insertionSort fun a b => a.1 ≤ b.1) := by
  rw [object_eq_write]
  exact read_write escape escapes_escape _

/-! ## Texts as they are -/

/-- Neither a quote nor a control character. -/
def Bare (c : Char) : Prop := c ≠ '"' ∧ ¬ c.toNat < 32

theorem escape_bare (c : Char) (h : Bare c) (hb : c ≠ '\\') : escape c = [c] := by
  obtain ⟨hq, hc⟩ := h
  unfold escape
  rw [if_neg hq, if_neg hb, if_neg (by omega), if_neg (by omega), if_neg (by omega),
    if_neg (by omega), if_neg (by omega), if_neg hc]

theorem flatMap_escape_bare (l : List Char) (h : ∀ c ∈ l, Bare c ∧ c ≠ '\\') :
    l.flatMap escape = l := by
  induction l with
  | nil => rfl
  | cons c l ih =>
    have hc := h c List.mem_cons_self
    rw [List.flatMap_cons, escape_bare c hc.1 hc.2, ih fun d hd => h d (List.mem_cons_of_mem c hd)]
    rfl

/-- Reading goes on after a member that another follows. -/
theorem readMembers_after (esc : Char → List Char) (h : Escapes esc) (m : String × Value)
    (text : List Char) (fuel : Nat) (ms : List (String × Value)) (rest : List Char)
    (hread : readMembers fuel (memberWith esc m ++ ',' :: text) = some (ms, rest)) :
    ∃ fuel' ms', readMembers fuel' text = some (ms', rest) ∧ ms = m :: ms' := by
  cases fuel with
  | zero => cases hread
  | succ fuel =>
    rw [readMembers_cons esc h] at hread
    obtain ⟨p, hp, he⟩ := Option.map_eq_some_iff.mp hread
    cases he
    exact ⟨fuel, p.1, hp, rfl⟩

/-- An object that begins with a member. -/
theorem readMembers_of_read (text : String) (l : List Char) (ms : List (String × Value))
    (htext : text.toList = '\x7b' :: '"' :: l) (h : JsonText.read text = some ms) :
    ∃ fuel rest, readMembers fuel ('"' :: l) = some (ms, rest) := by
  unfold JsonText.read at h
  rw [htext, skip_cons '\x7b' _ rfl] at h
  simp only [skip_cons '"' l rfl] at h
  have h : (match readMembers ('"' :: l).length ('"' :: l) with
      | some (members, rest) => if (skip rest).isEmpty then some members else none
      | none => none) = some ms := h
  refine ⟨('"' :: l).length, ?_⟩
  cases hm : readMembers ('"' :: l).length ('"' :: l) with
  | none =>
    rw [hm] at h
    cases h
  | some p =>
    rw [hm] at h
    dsimp only at h
    split at h
    · cases h
      exact ⟨p.2, rfl⟩
    · cases h

/-- The first member that is read, if the text after its key is read. -/
theorem head_of_readMembers (esc : Char → List Char) (h : Escapes esc) (key : String)
    (text : List Char) (fuel : Nat) (ms : List (String × Value)) (rest : List Char)
    (hread : readMembers fuel (quoteWith esc key ++ ':' :: '"' :: text) = some (ms, rest)) :
    ∃ body after, readString text.length text = some (body, after) ∧
      ms.head? = some (key, .str (String.ofList body)) := by
  have hkey : readMember (quoteWith esc key ++ ':' :: '"' :: text) =
      (readString text.length text).map
        fun p => ((key, .str (String.ofList p.1)), skip p.2) := by
    have htext : quoteWith esc key ++ ':' :: '"' :: text =
        '"' :: (key.toList.flatMap esc ++ ['"'] ++ (':' :: '"' :: text)) := by
      unfold quoteWith
      simp
    rw [htext]
    unfold readMember
    simp only [skip_cons '"' _ rfl]
    rw [readString_quote esc h key]
    simp only [skip_cons ':' _ rfl, skip_cons '"' _ rfl, String.ofList_toList]
    have hvalue : readValue ('"' :: text) =
      (readString text.length text).map fun p => (.str (String.ofList p.1), p.2) := rfl
    rw [hvalue, Option.map_map]
    rfl
  cases fuel with
  | zero => cases hread
  | succ fuel =>
    unfold readMembers at hread
    rw [hkey] at hread
    cases hs : readString text.length text with
    | none =>
      rw [hs] at hread
      cases hread
    | some p =>
      refine ⟨p.1, p.2, rfl, ?_⟩
      rw [hs, Option.map_some] at hread
      dsimp only at hread
      split at hread
      · obtain ⟨q, -, hq⟩ := Option.map_eq_some_iff.mp hread
        cases hq
        rfl
      · cases hread
        rfl
      · cases hread

/-! ## One line -/

theorem newline_not_mem_write (esc : Char → List Char) (hn : ∀ c, '\n' ∉ esc c)
    (members : List (String × Value)) : '\n' ∉ (write esc members).toList := by
  have hquote : ∀ s, '\n' ∉ quoteWith esc s := by
    intro s
    have hbody : '\n' ∉ s.toList.flatMap esc := by
      rw [List.mem_flatMap]
      rintro ⟨c, -, hc⟩
      exact hn c hc
    unfold quoteWith
    simp [hbody]
  have hvalue : ∀ v : Value, '\n' ∉ v.write esc := by
    intro v
    cases v with
    | bool b => cases b <;> simp [Value.write]
    | num n => exact newline_not_mem_writeInt n
    | str s => exact hquote s
  have hbody : '\n' ∉ [','].intercalate (members.map (memberWith esc)) := by
    apply not_mem_intercalate ',' '\n' (by decide)
    intro l hl
    obtain ⟨m, -, rfl⟩ := List.mem_map.mp hl
    have hkey := hquote m.1
    have hval := hvalue m.2
    unfold memberWith
    simp [hkey, hval]
  unfold write
  rw [String.toList_ofList]
  simp [hbody]

end JsonText
