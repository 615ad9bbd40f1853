import McTunnel.Core.Name

/-!
# The address grammar (`name.rs`)

`Name::parse` trims, lowercases and splits an input, and checks each label.  It
accepts exactly the texts of the grammar, of which a name's own text is one:

    Name.parse s = ok n ↔ Address (trimmed and lowercased s) n       (parse_exact)
    n was returned → Name.parse n.toString = ok n                    (parse_toString)
-/

namespace McTunnel

open Text

/-! ## Malformed texts -/

/-- What keeps a text out of the grammar, whatever else is in it. -/
inductive Malformed (t : String) : Prop
  /-- an empty label, unless it is the vanity label of three -/
  | emptyLabel (i : Nat) : (split '.' t)[i]? = some "" → (i = 0 → (split '.' t).length ≠ 3) →
      Malformed t
  | extraLabel : 3 < (split '.' t).length → Malformed t
  | badSuffix : (split '.' t).getLast? ≠ some SUFFIX → Malformed t
  | badChar (c : Char) : c ∈ t.toList → c ≠ '.' → isBase32Lower c = false → Malformed t

theorem parse_ok_iff (s : String) (n : Name) :
    Name.parse s = .ok n ↔ Address (normalize s) n :=
  ⟨address_of_parse s n, parse_of_address s n⟩

/-! ## What is rejected -/

theorem keyidOk_ne_empty (keyid : String) (h : KeyidOk keyid) : keyid ≠ "" := by
  rintro rfl
  exact absurd h.min (by decide)

theorem labels_of_address (t : String) (n : Name) (h : Address t n) :
    split '.' t = [n.keyid, SUFFIX] ∨ split '.' t = [n.vanity, n.keyid, SUFFIX] := by
  cases h with
  | bare keyid hk => exact Or.inl (split_bare keyid hk)
  | labelled vanity keyid hv hk => exact Or.inr (split_labelled vanity keyid hv hk)

theorem chars_of_address (t : String) (n : Name) (h : Address t n) :
    ∀ c ∈ t.toList, c ≠ '.' → isBase32Lower c = true := by
  have hs := List.all_eq_true.mp suffix_chars
  have hd : ∀ c ∈ ".".toList, c = '.' := by simp
  intro c hc hdot
  cases h with
  | bare keyid hk =>
    have hk := List.all_eq_true.mp hk.chars
    simp only [String.toList_append, List.mem_append] at hc
    rcases hc with (hc | hc) | hc
    · exact hk c hc
    · exact absurd (hd c hc) hdot
    · exact hs c hc
  | labelled vanity keyid hv hk =>
    have hv := List.all_eq_true.mp hv.chars
    have hk := List.all_eq_true.mp hk.chars
    simp only [String.toList_append, List.mem_append] at hc
    rcases hc with (((hc | hc) | hc) | hc) | hc
    · exact hv c hc
    · exact absurd (hd c hc) hdot
    · exact hk c hc
    · exact absurd (hd c hc) hdot
    · exact hs c hc

theorem not_malformed_of_address (t : String) (n : Name) (h : Address t n) : ¬ Malformed t := by
  have hlabels := labels_of_address t n h
  have hkeyid := keyidOk_ne_empty n.keyid (valid_of_address t n h).keyid
  have hsuffix : SUFFIX ≠ "" := by decide
  intro hm
  cases hm with
  | emptyLabel i hi hthree =>
    rcases hlabels with hl | hl
    · rw [hl] at hi
      have hmem := List.mem_of_getElem? hi
      simp [hkeyid.symm, hsuffix.symm] at hmem
    · rw [hl] at hi hthree
      cases i with
      | zero => exact hthree rfl rfl
      | succ i =>
        have hmem := List.mem_of_getElem? (l := [n.keyid, SUFFIX]) hi
        simp [hkeyid.symm, hsuffix.symm] at hmem
  | extraLabel hlen =>
    rcases hlabels with hl | hl
    · rw [hl] at hlen
      exact absurd hlen (by simp)
    · rw [hl] at hlen
      exact absurd hlen (by simp)
  | badSuffix hlast =>
    rcases hlabels with hl | hl
    · rw [hl] at hlast
      exact hlast rfl
    · rw [hl] at hlast
      exact hlast rfl
  | badChar c hc hdot hbad =>
    rw [chars_of_address t n h c hc hdot] at hbad
    cases hbad

/-- **`parse` accepts exactly the addresses**, and rejects whatever is malformed. -/
theorem parse_exact (s : String) :
    (∀ n, Name.parse s = .ok n ↔ Address (normalize s) n) ∧
      (Malformed (normalize s) → ∃ e, Name.parse s = .error e) := by
  refine ⟨parse_ok_iff s, ?_⟩
  intro hm
  cases h : Name.parse s with
  | error e => exact ⟨e, rfl⟩
  | ok n => exact absurd hm (not_malformed_of_address _ n (address_of_parse s n h))

/-- An address with a leading dot, that is with an empty vanity label. -/
theorem leading_dot_accepted :
    Name.parse ".abcdefghijklmnop.minecraft" = .ok ⟨"", "abcdefghijklmnop"⟩ ∧
      "" ∈ split '.' (normalize ".abcdefghijklmnop.minecraft") ∧
      ∀ keyid, KeyidOk keyid → normalize ".abcdefghijklmnop.minecraft" ≠ keyid ++ "." ++ SUFFIX := by
  have hk : KeyidOk "abcdefghijklmnop" := ⟨by decide, by decide, by decide⟩
  have hnorm : normalize ".abcdefghijklmnop.minecraft" =
      "" ++ "." ++ "abcdefghijklmnop" ++ "." ++ SUFFIX := by decide
  have hsplit := split_labelled "" _ vanityOk_empty hk
  rw [hnorm]
  refine ⟨?_, ?_, ?_⟩
  · apply parse_of_address
    rw [hnorm]
    exact .labelled "" _ vanityOk_empty hk
  · rw [hsplit]
    exact List.mem_cons_self
  · intro keyid hkeyid h
    rw [h, split_bare keyid hkeyid] at hsplit
    exact absurd (congrArg List.length hsplit) (by simp)

/-! ## A name's own text -/

/-- A name that `parse` or `from_pubkey` has returned. -/
def Name.Obtained [Crates] (n : Name) : Prop :=
  (∃ s, Name.parse s = .ok n) ∨ ∃ pubkey vanity len, Name.fromPubkey pubkey vanity len = .ok n

theorem obtained_valid [Crates] (n : Name) (h : n.Obtained) : n.Valid := by
  rcases h with ⟨s, hs⟩ | ⟨pubkey, vanity, len, hn⟩
  · exact parse_valid s n hs
  · exact (fromPubkey_valid pubkey vanity len n hn).1

theorem spelling_refl (t : String) : Spelling t t :=
  ⟨t, ⟨[], [], by simp, rfl, rfl⟩, rfl⟩

theorem parse_toString (n : Name) (h : n.Valid) : Name.parse n.toString = .ok n :=
  parse_spelling n h _ (spelling_refl _)

theorem toString_injective (n m : Name) (hn : n.Valid) (hm : m.Valid) (h : n.toString = m.toString) :
    n = m := by
  have hp := parse_toString n hn
  rw [h, parse_toString m hm] at hp
  exact (Except.ok.inj hp).symm

end McTunnel
