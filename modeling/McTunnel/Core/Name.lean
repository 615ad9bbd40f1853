import McTunnel.Core.Types
import McTunnel.Lib.Base32
import McTunnel.Lib.Text

/-!
# Self-certifying names (`name.rs`, `identity.rs`)

A name is `keyid.minecraft` or `vanity.keyid.minecraft`; the keyid is the first
16 to 52 letters of the lowercase base32 SHA-256 of a public key.

    Name.parse s = ok n → Address (trimmed and lowercased s) n          (address_of_parse)
    Valid n, s a spelling of n.toString → Name.parse s = ok n           (parse_spelling)
    Name.fromPubkey pk vanity len = ok n → Valid n                      (fromPubkey_valid)
-/

namespace McTunnel

open Text

/-! ## Code -/

def isBase32Lower (c : Char) : Bool := ('a' ≤ c && c ≤ 'z') || ('2' ≤ c && c ≤ '7')

def checkKeyidLen (len : Nat) : Except CoreError Unit :=
  if MIN_KEYID_LEN ≤ len ∧ len ≤ MAX_KEYID_LEN then .ok ()
  else .error (.keyidLen len MIN_KEYID_LEN MAX_KEYID_LEN)

def validateKeyid (keyid : String) : Except CoreError String :=
  if keyid.isEmpty then .error .emptyLabel
  else do
    checkKeyidLen keyid.utf8ByteSize
    if keyid.toList.all isBase32Lower = false then .error .keyidCharset else .ok keyid

def validateVanity (vanity : String) : Except CoreError Unit :=
  if vanity.isEmpty then .ok ()
  else if vanity.utf8ByteSize > 8 then .error (.vanityTooLong vanity.utf8ByteSize)
  else if vanity.toList.all isBase32Lower = false then .error .vanityCharset
  else .ok ()

/-- A parsed address; an empty vanity means none. -/
structure Name where
  vanity : String
  keyid : String
deriving DecidableEq, Repr

namespace Name

/-- The length of the keyid, which is what the name commits to. -/
def keyidLen (n : Name) : Nat := n.keyid.utf8ByteSize

def parse (input : String) : Except CoreError Name :=
  let input := toAsciiLowercase (trim input)
  let labels := split '.' input
  match labels.getLast? with
  | none => .error .emptyLabel
  | some suffix =>
    if suffix ≠ SUFFIX then .error (.badSuffix SUFFIX)
    else
      match labels.dropLast with
      | [keyid] => do
        let keyid ← validateKeyid keyid
        .ok { vanity := "", keyid := keyid }
      | [vanity, keyid] => do
        validateVanity vanity
        let keyid ← validateKeyid keyid
        .ok { vanity := vanity, keyid := keyid }
      | [] => .error .emptyLabel
      | _ => .error .tooManyLabels

/-- `Display`. -/
def toString (n : Name) : String :=
  if n.vanity.isEmpty then n.keyid ++ "." ++ SUFFIX
  else n.vanity ++ "." ++ n.keyid ++ "." ++ SUFFIX

end Name

section
variable [Crates]

/-- Lowercase base32 of `SHA-256(pubkey)`, 52 letters. -/
def keyidFullFromPubkey (pubkey : Vector UInt8 32) : String :=
  toAsciiLowercase (String.ofList (Base32.encode (Crates.sha256 pubkey.toList).toList))

/-- The keyid truncated to `len` letters. -/
def keyidFromPubkey (pubkey : Vector UInt8 32) (len : Nat) : String :=
  truncate (keyidFullFromPubkey pubkey) len

def Name.fromPubkey (pubkey : Vector UInt8 32) (vanity : String) (keyidLen : Nat) :
    Except CoreError Name := do
  checkKeyidLen keyidLen
  validateVanity vanity
  .ok { vanity := vanity, keyid := keyidFromPubkey pubkey keyidLen }

/-- `keyid` is the start of the key's own full keyid, at its length. -/
def keyidMatchesPubkey (keyid : String) (pubkey : Vector UInt8 32) : Bool :=
  keyidFromPubkey pubkey keyid.utf8ByteSize == keyid

/-- An owned keypair, as its 32 secret bytes. -/
structure Identity where
  secret : Vector UInt8 32

def Identity.publicBytes (id : Identity) : Vector UInt8 32 := Crates.publicKey id.secret

def Identity.name (id : Identity) (vanity : String) (keyidLen : Nat) : Except CoreError Name :=
  Name.fromPubkey id.publicBytes vanity keyidLen

end

/-! ## Characters of a name -/

theorem isBase32Lower_iff (c : Char) :
    isBase32Lower c = true ↔ (97 ≤ c.toNat ∧ c.toNat ≤ 122) ∨ (50 ≤ c.toNat ∧ c.toNat ≤ 55) := by
  simp only [isBase32Lower, Bool.or_eq_true, Bool.and_eq_true, decide_eq_true_eq]
  exact Iff.rfl

theorem isWhitespace_lower (c : Char) (h : isWhitespace c = true) : lower c = c := by
  unfold lower
  rw [if_neg]
  rintro ⟨h1, h2⟩
  have h1 : 65 ≤ c.toNat := h1
  have h2 : c.toNat ≤ 90 := h2
  simp only [isWhitespace, Bool.or_eq_true, Bool.and_eq_true, decide_eq_true_eq, beq_iff_eq] at h
  omega

/-- A character whose lowercase is a name's letter or the dot is no whitespace. -/
theorem not_isWhitespace_of_lower (c : Char) (h : isBase32Lower (lower c) = true ∨ lower c = '.') :
    isWhitespace c = false := by
  by_contra hw
  rw [Bool.not_eq_false] at hw
  rw [isWhitespace_lower c hw, isBase32Lower_iff] at h
  have h : ((97 ≤ c.toNat ∧ c.toNat ≤ 122) ∨ (50 ≤ c.toNat ∧ c.toNat ≤ 55)) ∨ c.toNat = 46 := by
    rcases h with h | h
    · exact Or.inl h
    · right; rw [h]; rfl
  simp only [isWhitespace, Bool.or_eq_true, Bool.and_eq_true, decide_eq_true_eq, beq_iff_eq] at hw
  omega

theorem lower_base32 (c : Char) (h : isBase32Lower c = true) : lower c = c := by
  rw [isBase32Lower_iff] at h
  unfold lower
  rw [if_neg]
  rintro ⟨h1, h2⟩
  have h1 : 65 ≤ c.toNat := h1
  have h2 : c.toNat ≤ 90 := h2
  omega

/-- Base32 text is ASCII: one byte a letter. -/
theorem utf8ByteSize_base32 (s : String) (h : s.toList.all isBase32Lower = true) :
    s.utf8ByteSize = s.toList.length := by
  have key : ∀ l : List Char, l.all isBase32Lower = true →
      (String.ofList l).utf8ByteSize = l.length := by
    intro l
    induction l with
    | nil => intro _; rfl
    | cons c l ih =>
      intro hl
      rw [List.all_cons, Bool.and_eq_true] at hl
      have hc : c.utf8Size = 1 := by
        rw [Char.utf8Size_eq_one_iff]
        have h1 := (isBase32Lower_iff c).mp hl.1
        show c.toNat ≤ 127
        omega
      rw [String.ofList_cons, String.utf8ByteSize_append, String.utf8ByteSize_singleton, hc,
        ih hl.2, List.length_cons]
      omega
  have := key s.toList h
  rwa [String.ofList_toList] at this

theorem isEmpty_eq_toList (s : String) : s.isEmpty = s.toList.isEmpty := by
  rw [Bool.eq_iff_iff, String.isEmpty_iff, List.isEmpty_iff, String.toList_eq_nil_iff]

/-! ## What the checks accept -/

/-- A keyid of a name: 16 to 52 base32 letters. -/
structure KeyidOk (keyid : String) : Prop where
  min : MIN_KEYID_LEN ≤ keyid.toList.length
  max : keyid.toList.length ≤ MAX_KEYID_LEN
  chars : keyid.toList.all isBase32Lower = true

/-- A vanity label: at most 8 base32 letters. -/
structure VanityOk (vanity : String) : Prop where
  max : vanity.toList.length ≤ 8
  chars : vanity.toList.all isBase32Lower = true

theorem vanityOk_empty : VanityOk "" := ⟨by decide, by decide⟩

theorem checkKeyidLen_ok_iff (len : Nat) :
    checkKeyidLen len = .ok () ↔ MIN_KEYID_LEN ≤ len ∧ len ≤ MAX_KEYID_LEN := by
  unfold checkKeyidLen
  split
  · next h => simp [h]
  · next h => simp [h]

theorem validateKeyid_ok_iff (keyid k : String) :
    validateKeyid keyid = .ok k ↔ k = keyid ∧ KeyidOk keyid := by
  unfold validateKeyid
  constructor
  · intro h
    split at h
    · cases h
    · cases hl : checkKeyidLen keyid.utf8ByteSize with
      | error e => rw [hl] at h; cases h
      | ok u =>
        rw [hl] at h
        have hl := (checkKeyidLen_ok_iff _).mp hl
        simp only [bind, Except.bind] at h
        split at h
        · cases h
        · next hc =>
          rw [Bool.not_eq_false] at hc
          rw [utf8ByteSize_base32 _ hc] at hl
          cases h
          exact ⟨rfl, hl.1, hl.2, hc⟩
  · rintro ⟨rfl, hmin, hmax, hc⟩
    have hs := utf8ByteSize_base32 k hc
    have hne : k.isEmpty = false := by
      rw [isEmpty_eq_toList, List.isEmpty_eq_false_iff]
      intro hn
      rw [hn] at hmin
      exact absurd hmin (by decide)
    have hl := (checkKeyidLen_ok_iff k.utf8ByteSize).mpr (by omega)
    simp [hne, hl, hc, bind, Except.bind]

theorem validateVanity_ok_iff (vanity : String) :
    validateVanity vanity = .ok () ↔ VanityOk vanity := by
  unfold validateVanity
  split
  · next he =>
    rw [isEmpty_eq_toList, List.isEmpty_iff] at he
    exact ⟨fun _ => ⟨by simp [he], by simp [he]⟩, fun _ => rfl⟩
  · split
    · next hl =>
      refine ⟨fun h => (nomatch h), fun h => ?_⟩
      have := utf8ByteSize_base32 vanity h.chars
      have := h.max
      omega
    · next hl =>
      split
      · next hc => exact ⟨fun h => (nomatch h), fun h => (nomatch h.chars.symm.trans hc)⟩
      · next hc =>
        rw [Bool.not_eq_false] at hc
        rw [utf8ByteSize_base32 _ hc] at hl
        exact ⟨fun _ => ⟨by omega, hc⟩, fun _ => rfl⟩

/-! ## The address grammar -/

/-- What is left of an input before it is split. -/
def normalize (s : String) : String := toAsciiLowercase (trim s)

/-- The addresses and the names they stand for.  A vanity label may be empty. -/
inductive Address : String → Name → Prop
  | bare (keyid : String) : KeyidOk keyid → Address (keyid ++ "." ++ SUFFIX) ⟨"", keyid⟩
  | labelled (vanity keyid : String) : VanityOk vanity → KeyidOk keyid →
      Address (vanity ++ "." ++ keyid ++ "." ++ SUFFIX) ⟨vanity, keyid⟩

theorem dot_not_mem_base32 (s : String) (h : s.toList.all isBase32Lower = true) :
    '.' ∉ s.toList := by
  intro hm
  have := List.all_eq_true.mp h '.' hm
  cases this

theorem split_two (a b : String) (ha : '.' ∉ a.toList) (hb : '.' ∉ b.toList) :
    split '.' (a ++ "." ++ b) = [a, b] := by
  have hl : (a ++ "." ++ b).toList = ['.'].intercalate [a.toList, b.toList] := by
    simp [List.intercalate]
  unfold split
  rw [hl, List.splitOn_intercalate '.' (by simp [ha, hb]) (by simp)]
  simp

theorem split_three (a b c : String) (ha : '.' ∉ a.toList) (hb : '.' ∉ b.toList)
    (hc : '.' ∉ c.toList) : split '.' (a ++ "." ++ b ++ "." ++ c) = [a, b, c] := by
  have hl : (a ++ "." ++ b ++ "." ++ c).toList =
      ['.'].intercalate [a.toList, b.toList, c.toList] := by
    simp [List.intercalate]
  unfold split
  rw [hl, List.splitOn_intercalate '.' (by simp [ha, hb, hc]) (by simp)]
  simp

theorem suffix_chars : SUFFIX.toList.all isBase32Lower = true := by decide

/-- The labels of a text, with dots between, are the text. -/
theorem intercalate_split (t : String) : ['.'].intercalate ((split '.' t).map String.toList) = t.toList := by
  have hid : (split '.' t).map String.toList = t.toList.splitOn '.' := by
    unfold split
    rw [List.map_map]
    conv => rhs; rw [← List.map_id (t.toList.splitOn '.')]
    apply List.map_congr_left
    intro l _
    exact String.toList_ofList
  rw [hid, List.intercalate_splitOn]

theorem eq_of_split_two (t a b : String) (h : split '.' t = [a, b]) : t = a ++ "." ++ b := by
  have ht := intercalate_split t
  rw [h] at ht
  apply String.toList_inj.mp
  rw [← ht]
  simp [List.intercalate]

theorem eq_of_split_three (t a b c : String) (h : split '.' t = [a, b, c]) :
    t = a ++ "." ++ b ++ "." ++ c := by
  have ht := intercalate_split t
  rw [h] at ht
  apply String.toList_inj.mp
  rw [← ht]
  simp [List.intercalate]

theorem split_bare (keyid : String) (h : KeyidOk keyid) :
    split '.' (keyid ++ "." ++ SUFFIX) = [keyid, SUFFIX] :=
  split_two _ _ (dot_not_mem_base32 _ h.chars) (dot_not_mem_base32 _ suffix_chars)

theorem split_labelled (vanity keyid : String) (hv : VanityOk vanity) (hk : KeyidOk keyid) :
    split '.' (vanity ++ "." ++ keyid ++ "." ++ SUFFIX) = [vanity, keyid, SUFFIX] :=
  split_three _ _ _ (dot_not_mem_base32 _ hv.chars) (dot_not_mem_base32 _ hk.chars)
    (dot_not_mem_base32 _ suffix_chars)

theorem parse_of_address (s : String) (n : Name) (h : Address (normalize s) n) :
    Name.parse s = .ok n := by
  unfold Name.parse
  dsimp only
  generalize hn : toAsciiLowercase (trim s) = t
  rw [show normalize s = t from hn] at h
  cases h with
  | bare keyid hk =>
    have hval := (validateKeyid_ok_iff keyid keyid).mpr ⟨rfl, hk⟩
    rw [split_bare keyid hk]
    simp only [List.getLast?, List.getLast, List.dropLast, ne_eq, not_true_eq_false, if_false, hval]
    rfl
  | labelled vanity keyid hv hk =>
    have hval := (validateKeyid_ok_iff keyid keyid).mpr ⟨rfl, hk⟩
    have hvan := (validateVanity_ok_iff vanity).mpr hv
    rw [split_labelled vanity keyid hv hk]
    simp only [List.getLast?, List.getLast, List.dropLast, ne_eq, not_true_eq_false, if_false, hval,
      hvan]
    rfl

theorem address_of_parse (s : String) (n : Name) (h : Name.parse s = .ok n) :
    Address (normalize s) n := by
  unfold Name.parse at h
  dsimp only at h
  generalize hn : toAsciiLowercase (trim s) = t at h
  rw [show normalize s = t from hn]
  split at h
  · cases h
  · next suffix hlast =>
    split at h
    · cases h
    · next hsuffix =>
      rw [ne_eq, not_not] at hsuffix
      have hlabels := List.dropLast_append_getLast? suffix hlast
      rw [hsuffix] at hlabels
      split at h
      · next keyid hrest =>
        rw [hrest] at hlabels
        obtain ⟨k, hk, hret⟩ := bind_ok h
        obtain ⟨rfl, hk⟩ := (validateKeyid_ok_iff _ _).mp hk
        cases hret
        rw [eq_of_split_two t k SUFFIX hlabels.symm]
        exact .bare k hk
      · next vanity keyid hrest =>
        rw [hrest] at hlabels
        obtain ⟨u, hv, hrest⟩ := bind_ok h
        obtain ⟨k, hk, hret⟩ := bind_ok hrest
        obtain ⟨rfl, hk⟩ := (validateKeyid_ok_iff _ _).mp hk
        cases hret
        rw [eq_of_split_three t vanity k SUFFIX hlabels.symm]
        exact .labelled vanity k ((validateVanity_ok_iff _).mp hv) hk
      · cases h
      · cases h

/-! ## Spellings of a name -/

/-- What `parse` and `from_pubkey` return. -/
structure Name.Valid (n : Name) : Prop where
  vanity : VanityOk n.vanity
  keyid : KeyidOk n.keyid

/-- `s` is `t` with the case of ASCII letters changed and whitespace around it. -/
def Spelling (s t : String) : Prop :=
  ∃ u : String, Surrounds s u ∧ toAsciiLowercase u = toAsciiLowercase t

/-- The letters of a displayed name. -/
theorem toString_chars (n : Name) (h : n.Valid) :
    ∀ c ∈ n.toString.toList, isBase32Lower c = true ∨ c = '.' := by
  have hk := List.all_eq_true.mp h.keyid.chars
  have hv := List.all_eq_true.mp h.vanity.chars
  have hs : ∀ c ∈ SUFFIX.toList, isBase32Lower c = true := List.all_eq_true.mp suffix_chars
  have hd : ∀ c ∈ ".".toList, c = '.' := by simp
  intro c hc
  unfold Name.toString at hc
  split at hc <;> simp only [String.toList_append, List.mem_append] at hc
  · rcases hc with (hc | hc) | hc
    · exact Or.inl (hk c hc)
    · exact Or.inr (hd c hc)
    · exact Or.inl (hs c hc)
  · rcases hc with (((hc | hc) | hc) | hc) | hc
    · exact Or.inl (hv c hc)
    · exact Or.inr (hd c hc)
    · exact Or.inl (hk c hc)
    · exact Or.inr (hd c hc)
    · exact Or.inl (hs c hc)

theorem valid_of_address (t : String) (n : Name) (h : Address t n) : n.Valid := by
  cases h with
  | bare keyid hk => exact ⟨vanityOk_empty, hk⟩
  | labelled vanity keyid hv hk => exact ⟨hv, hk⟩

/-- A name's own text is an address of it. -/
theorem address_toString (n : Name) (h : n.Valid) : Address n.toString n := by
  obtain ⟨vanity, keyid⟩ := n
  unfold Name.toString
  by_cases hv : vanity = ""
  · subst hv
    exact .bare keyid h.keyid
  · rw [if_neg (by rwa [String.isEmpty_iff])]
    exact .labelled vanity keyid h.vanity h.keyid

theorem toAsciiLowercase_toString (n : Name) (h : n.Valid) :
    toAsciiLowercase n.toString = n.toString := by
  unfold toAsciiLowercase
  rw [← String.toList_inj, String.toList_ofList]
  conv => rhs; rw [← List.map_id n.toString.toList]
  apply List.map_congr_left
  intro c hc
  rcases toString_chars n h c hc with hc | rfl
  · exact lower_base32 c hc
  · rfl

/-- **Every spelling of a name's text parses to the name.** -/
theorem parse_spelling (n : Name) (h : n.Valid) (s : String) (hs : Spelling s n.toString) :
    Name.parse s = .ok n := by
  obtain ⟨u, hsu, hu⟩ := hs
  rw [toAsciiLowercase_toString n h] at hu
  have ht : trim s = u := by
    apply trim_surround s u hsu
    intro c hc
    apply not_isWhitespace_of_lower
    apply toString_chars n h
    rw [← hu, toAsciiLowercase, String.toList_ofList]
    exact List.mem_map_of_mem hc
  apply parse_of_address
  unfold normalize
  rw [ht, hu]
  exact address_toString n h

/-- A parsed name is valid. -/
theorem parse_valid (s : String) (n : Name) (h : Name.parse s = .ok n) : n.Valid :=
  valid_of_address _ n (address_of_parse s n h)

/-! ## Keyids of a key -/

section
variable [Crates] (pubkey : Vector UInt8 32)

theorem toList_keyidFull : (keyidFullFromPubkey pubkey).toList =
    (Base32.encode (Crates.sha256 pubkey.toList).toList).map lower := by
  simp only [keyidFullFromPubkey, toAsciiLowercase, String.toList_ofList]

theorem length_keyidFull : (keyidFullFromPubkey pubkey).toList.length = MAX_KEYID_LEN := by
  rw [toList_keyidFull, List.length_map, Base32.length_encode, Vector.length_toList]
  rfl

theorem keyidFull_chars : (keyidFullFromPubkey pubkey).toList.all isBase32Lower = true := by
  have hl : ∀ n : Fin 32, isBase32Lower (lower (Base32.letter n)) = true := by decide
  rw [toList_keyidFull, List.all_map, Base32.encode, List.all_map, List.all_eq_true]
  intro n _
  exact hl n

theorem utf8ByteSize_keyidFull : (keyidFullFromPubkey pubkey).utf8ByteSize = MAX_KEYID_LEN := by
  rw [utf8ByteSize_base32 _ (keyidFull_chars pubkey), length_keyidFull]

theorem toList_keyidFromPubkey (len : Nat) :
    (keyidFromPubkey pubkey len).toList = (keyidFullFromPubkey pubkey).toList.take len := by
  simp only [keyidFromPubkey, truncate, String.toList_ofList]

theorem keyidFromPubkey_chars (len : Nat) :
    (keyidFromPubkey pubkey len).toList.all isBase32Lower = true := by
  have h := List.all_eq_true.mp (keyidFull_chars pubkey)
  rw [toList_keyidFromPubkey, List.all_eq_true]
  intro c hc
  exact h c (List.mem_of_mem_take hc)

theorem length_keyidFromPubkey (len : Nat) (h : len ≤ MAX_KEYID_LEN) :
    (keyidFromPubkey pubkey len).toList.length = len := by
  rw [toList_keyidFromPubkey, List.length_take, length_keyidFull]
  omega

theorem utf8ByteSize_keyidFromPubkey (len : Nat) (h : len ≤ MAX_KEYID_LEN) :
    (keyidFromPubkey pubkey len).utf8ByteSize = len := by
  rw [utf8ByteSize_base32 _ (keyidFromPubkey_chars pubkey len), length_keyidFromPubkey _ _ h]

/-- A key's own keyid matches the key. -/
theorem keyidMatches_keyidFromPubkey (len : Nat) (h : len ≤ MAX_KEYID_LEN) :
    keyidMatchesPubkey (keyidFromPubkey pubkey len) pubkey = true := by
  unfold keyidMatchesPubkey
  rw [utf8ByteSize_keyidFromPubkey _ _ h, beq_self_eq_true]

theorem keyidMatches_iff (keyid : String) :
    keyidMatchesPubkey keyid pubkey = true ↔ keyidFromPubkey pubkey keyid.utf8ByteSize = keyid := by
  unfold keyidMatchesPubkey
  exact beq_iff_eq

/-- A derived name is valid, and its keyid is the key's own. -/
theorem fromPubkey_valid (vanity : String) (len : Nat) (n : Name)
    (h : Name.fromPubkey pubkey vanity len = .ok n) :
    n.Valid ∧ n.keyid = keyidFromPubkey pubkey len ∧ MIN_KEYID_LEN ≤ len ∧ len ≤ MAX_KEYID_LEN := by
  unfold Name.fromPubkey at h
  obtain ⟨u, hl, h⟩ := bind_ok h
  obtain ⟨v, hv, h⟩ := bind_ok h
  have hl := (checkKeyidLen_ok_iff _).mp hl
  cases h
  have hlen := length_keyidFromPubkey pubkey len hl.2
  refine ⟨⟨(validateVanity_ok_iff _).mp hv, ⟨?_, ?_, keyidFromPubkey_chars pubkey len⟩⟩, rfl, hl⟩
  · rw [hlen]; exact hl.1
  · rw [hlen]; exact hl.2

end

end McTunnel
