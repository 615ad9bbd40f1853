import McTunnel.Cli.Keystore

/-!
# Removing an identity (`keystore.rs`)

`wipe` gives up on a key file that it cannot remove, but goes on when the
keyring does not delete its credential.  A wipe that returns leaves no identity
exactly when there was none to leave in what it passed over.
-/

namespace McTunnel

/-! ## No identity -/

/-- The error of `save` when there is an identity and no `force`. -/
def alreadyExists : String := "identity already exists (use --force to overwrite)"

/-- No identity as all of `keystore.rs` sees it, with the keyring readable. -/
structure Forgotten (dir : String) (s : Keystore) : Prop where
  not_exists : ∀ seesKey, identityExists true seesKey s = false
  not_loaded : ∀ reads, reads.keyring = true → ∃ e, load dir reads s = .error e
  not_refused : ∀ env id keyidLen, env.keyringReads = true →
    (save dir env s id keyidLen false).1 ≠ .error alreadyExists

theorem keyringLoad_true_none_iff (s : Keystore) :
    keyringLoad true s = none ↔ secretOf s.keyring = none := by
  unfold keyringLoad secretOf
  rw [if_pos rfl, Option.map_eq_none_iff]

theorem identityExists_eq_false_iff (s : Keystore) :
    (∀ seesKey, identityExists true seesKey s = false) ↔
      secretOf s.keyring = none ∧ s.keyFile = none := by
  rw [← keyringLoad_true_none_iff]
  constructor
  · intro h
    have h := h true
    unfold identityExists at h
    simpa using h
  · rintro ⟨hkeyring, hfile⟩ seesKey
    unfold identityExists
    simp [hkeyring, hfile]

/-- With no secret in the keyring and no key file there is nothing to load. -/
theorem load_error (dir : String) (reads : Reads) (s : Keystore)
    (hkeyring : secretOf s.keyring = none) (hfile : s.keyFile = none) :
    load dir reads s = .error (noIdentity dir) := by
  have hk : keyringLoad reads.keyring s = none := by
    cases hr : reads.keyring with
    | false => rfl
    | true => exact (keyringLoad_true_none_iff s).mpr hkeyring
  unfold load loadKeyFile
  simp [hk, hfile]

/-! ## What a save refuses -/

/-- Any other error of `save` begins with "creating" or "writing". -/
theorem append_ne_alreadyExists (start rest : String) (c : Char)
    (hstart : start.toList.head? = some c) (hc : c ≠ 'i') : start ++ rest ≠ alreadyExists := by
  intro h
  have hl := congrArg (fun s => s.toList.head?) h
  simp only [String.toList_append, List.head?_append, hstart] at hl
  exact hc (Option.some.inj hl)

theorem creating_ne (rest : String) : "creating " ++ rest ≠ alreadyExists :=
  append_ne_alreadyExists _ rest 'c' rfl (by decide)

theorem writing_ne (rest : String) : "writing " ++ rest ≠ alreadyExists :=
  append_ne_alreadyExists _ rest 'w' rfl (by decide)

theorem storeSecret_ne (dir : String) (env : SaveEnv) (s : Keystore) (secret : List UInt8) :
    (storeSecret dir env s secret).1 ≠ .error alreadyExists := by
  unfold storeSecret
  split
  · intro h
    cases h
  · unfold writeOwnerOnly
    simp only
    split
    · intro h
      have h := Except.error.inj h
      rw [String.append_assoc] at h
      exact creating_ne _ h
    · intro h
      exact writing_ne _ (Except.error.inj h)
    · intro h
      cases h

/-- `save` fails its first check exactly when there is an identity and no `force`. -/
theorem save_refused_iff (dir : String) (env : SaveEnv) (s : Keystore) (id : Identity)
    (keyidLen : UInt64) (force : Bool) :
    (save dir env s id keyidLen force).1 = .error alreadyExists ↔
      identityExists env.keyringReads env.seesKey s = true ∧ force = false := by
  unfold save
  split
  · next h =>
    rw [Bool.and_eq_true, Bool.not_eq_true'] at h
    exact iff_of_true rfl h
  · next h =>
    rw [Bool.and_eq_true, Bool.not_eq_true'] at h
    refine iff_of_false ?_ h
    split
    · intro h
      exact creating_ne _ (Except.error.inj h)
    · have hs := storeSecret_ne dir env s id.secret.toList
      generalize storeSecret dir env s id.secret.toList = stored at hs
      obtain ⟨stored, s'⟩ := stored
      cases stored with
      | error e => exact hs
      | ok location =>
        simp only
        split
        · intro h
          cases h
        · intro h
          exact writing_ne "keyid_len meta" (Except.error.inj h)

/-! ## What a wipe forgets -/

theorem ite_none_iff {α : Type} (b : Bool) (o : Option α) :
    (if b then none else o) = none ↔ b = true ∨ o = none := by
  cases b with
  | false => simp
  | true => simp

theorem secretOf_ite (b : Bool) (o : Option (List UInt8)) :
    secretOf (if b then none else o) = none ↔ b = true ∨ secretOf o = none := by
  cases b with
  | false => simp
  | true => simp [secretOf]

theorem forgotten_iff (dir : String) (s : Keystore) :
    Forgotten dir s ↔ secretOf s.keyring = none ∧ s.keyFile = none := by
  constructor
  · intro h
    exact (identityExists_eq_false_iff s).mp h.not_exists
  · rintro ⟨hkeyring, hfile⟩
    have hex := (identityExists_eq_false_iff s).mpr ⟨hkeyring, hfile⟩
    refine ⟨hex, fun reads _ => ⟨_, load_error dir reads s hkeyring hfile⟩, ?_⟩
    intro env id keyidLen henv
    rw [ne_eq, save_refused_iff, henv, hex]
    simp

/-- **A wipe that returns leaves no identity exactly when it passes over none**:
the keyring deletes, or holds no secret; and the key file is seen, or is not
there. -/
theorem wipe_forgets_iff (dir : String) (env : WipeEnv) (s : Keystore) :
    (∀ removed s', wipe dir env s = (.ok removed, s') → Forgotten dir s') ↔
      WipeFails env s ∨
        ((env.keyringDeletes = true ∨ secretOf s.keyring = none) ∧
          (env.seesKey = true ∨ s.keyFile = none)) := by
  rcases wipe_cases dir env s with ⟨hf, e, hw⟩ | ⟨hf, removed, hw⟩
  · refine iff_of_true ?_ (Or.inl hf)
    intro removed s' h
    rw [hw] at h
    cases h
  · rw [or_iff_right hf, ← secretOf_ite, ← ite_none_iff]
    constructor
    · intro h
      exact (forgotten_iff dir _).mp (h removed _ hw)
    · intro h removed' s' hw'
      rw [hw] at hw'
      cases hw'
      exact (forgotten_iff dir _).mpr h

/-! ## An identity left behind -/

/-- A keyring that does not delete, as when it is locked. -/
def lockedKeyring : WipeEnv where
  keyringDeletes := false
  seesKey := true
  removesKey := true
  removesMeta := true

/-- A profile whose identity is in the keyring. -/
def keyringProfile : Keystore where
  keyring := some (List.replicate 32 1)
  keyFile := none
  metaFile := some (Text.asBytes "26")

/-- The wipe returns, and the identity is loaded as before. -/
theorem identity_left :
    ∃ s', wipe home lockedKeyring keyringProfile = (.ok "nothing to remove", s') ∧
      load home Reads.all s' = .ok ⟨Vector.replicate 32 1⟩ ∧
      ¬ Forgotten home s' := by
  refine ⟨{ keyringProfile with metaFile := none }, rfl, rfl, ?_⟩
  intro h
  obtain ⟨e, he⟩ := h.not_loaded Reads.all rfl
  cases he

end McTunnel
