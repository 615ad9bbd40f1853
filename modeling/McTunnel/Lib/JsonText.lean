import McTunnel.Lib.Decimal

/-!
# JSON as one line of text

How `serde_json` writes a flat object without spaces: the fields by their keys,
control characters escaped.  So what it writes has no newline in it, whatever
the strings are.

    '\n' is not in object fields                                     (newline_not_mem_object)
    texts without newlines, a newline after each, are read back      (split_unlines)
-/

namespace JsonText

def hexDigit (n : Nat) : Char := "0123456789abcdef".toList.getD n '0'

/-- `format_escaped_str`, for one character. -/
def escape (c : Char) : List Char :=
  if c = '"' then ['\\', '"']
  else if c = '\\' then ['\\', '\\']
  else if c.toNat = 8 then ['\\', 'b']
  else if c.toNat = 9 then ['\\', 't']
  else if c.toNat = 10 then ['\\', 'n']
  else if c.toNat = 12 then ['\\', 'f']
  else if c.toNat = 13 then ['\\', 'r']
  else if c.toNat < 32 then ['\\', 'u', '0', '0', hexDigit (c.toNat / 16), hexDigit (c.toNat % 16)]
  else [c]

def quote (s : String) : List Char := ['"'] ++ s.toList.flatMap escape ++ ['"']

def writeInt : Int → List Char
  | .ofNat n => (Nat.repr n).toList
  | .negSucc n => '-' :: (Nat.repr (n + 1)).toList

def member (field : String × List Char) : List Char := quote field.1 ++ [':'] ++ field.2

/-- An object of values already written, in the order of their keys. -/
def object (fields : List (String × List Char)) : String :=
  String.ofList (['\x7b'] ++
    [','].intercalate ((fields.insertionSort fun a b => a.1 ≤ b.1).map member) ++ ['\x7d'])

example : object [("ok", "false".toList), ("error", quote "line 1\n\"x\"")] =
    "\x7b\"error\":\"line 1\\n\\\"x\\\"\",\"ok\":false\x7d" := by decide +kernel

/-! ## No newlines -/

theorem newline_not_mem_escape (c : Char) : '\n' ∉ escape c := by
  have hhex : ∀ n : Nat, hexDigit n ≠ '\n' := by
    intro n
    unfold hexDigit
    rw [List.getD_eq_getElem?_getD]
    cases h : "0123456789abcdef".toList[n]? with
    | none => decide
    | some d =>
      have hd := List.mem_of_getElem? h
      rintro rfl
      exact absurd hd (by decide)
  have hself : c.toNat ≠ 10 → '\n' ≠ c := by
    rintro h rfl
    exact h rfl
  unfold escape
  repeat' split
  all_goals simp_all [eq_comm]

theorem newline_not_mem_quote (s : String) : '\n' ∉ quote s := by
  have hbody : '\n' ∉ s.toList.flatMap escape := by
    rw [List.mem_flatMap]
    rintro ⟨c, -, hc⟩
    exact newline_not_mem_escape c hc
  unfold quote
  simp [hbody]

theorem newline_not_mem_writeInt (n : Int) : '\n' ∉ writeInt n := by
  cases n with
  | ofNat n => exact Decimal.not_mem_repr n '\n' rfl
  | negSucc n =>
    show '\n' ∉ '-' :: (Nat.repr (n + 1)).toList
    rw [List.mem_cons, not_or]
    exact ⟨by decide, Decimal.not_mem_repr (n + 1) '\n' rfl⟩

theorem not_mem_intercalate {α : Type} (sep a : α) (hsep : a ≠ sep) (ls : List (List α))
    (h : ∀ l ∈ ls, a ∉ l) : a ∉ [sep].intercalate ls := by
  induction ls with
  | nil => simp [List.intercalate]
  | cons l ls ih =>
    have hl := h l List.mem_cons_self
    have ih := ih fun l' hl' => h l' (List.mem_cons_of_mem _ hl')
    cases ls with
    | nil => simpa [List.intercalate] using hl
    | cons l' ls =>
      rw [List.intercalate_cons_cons]
      simp [hl, hsep, ih]

theorem newline_not_mem_object (fields : List (String × List Char))
    (h : ∀ field ∈ fields, '\n' ∉ field.2) : '\n' ∉ (object fields).toList := by
  have hbody : '\n' ∉ [','].intercalate
      ((fields.insertionSort fun a b => a.1 ≤ b.1).map member) := by
    apply not_mem_intercalate ',' '\n' (by decide)
    intro l hl
    obtain ⟨field, hf, rfl⟩ := List.mem_map.mp hl
    have hv := h field ((List.mem_insertionSort _).mp hf)
    have hq := newline_not_mem_quote field.1
    unfold member
    simp [hq, hv]
  unfold object
  rw [String.toList_ofList]
  simp [hbody]

/-! ## Lines -/

/-- Texts, a newline after each. -/
def unlines (texts : List String) : String :=
  String.ofList (texts.flatMap fun t => t.toList ++ ['\n'])

theorem split_unlines (texts : List String) (h : ∀ t ∈ texts, '\n' ∉ t.toList) :
    Text.split '\n' (unlines texts) = texts ++ [""] := by
  have hjoin : texts.flatMap (fun t => t.toList ++ ['\n']) =
      ['\n'].intercalate ((texts ++ [""]).map String.toList) := by
    clear h
    induction texts with
    | nil => rfl
    | cons t texts ih =>
      rw [List.flatMap_cons, ih]
      cases texts with
      | nil => simp [List.intercalate]
      | cons t' texts =>
        simp only [List.cons_append, List.map_cons]
        rw [List.intercalate_cons_cons]
  have hnot : ∀ l ∈ (texts ++ [""]).map String.toList, '\n' ∉ l := by
    intro l hl
    obtain ⟨t, ht, rfl⟩ := List.mem_map.mp hl
    rcases List.mem_append.mp ht with ht | ht
    · exact h t ht
    · rw [List.mem_singleton.mp ht]
      exact List.not_mem_nil
  unfold Text.split unlines
  rw [String.toList_ofList, hjoin, List.splitOn_intercalate '\n' hnot (by simp), List.map_map]
  simp

end JsonText
