import McTunnel.Cli.Keystore

/-!
# A save that fails (`keystore.rs`)

`save` writes the secret before it writes `keyid_len`, and opening the key file
truncates it.  A save that fails leaves every load as it was exactly when what
it got to write was there before:

    save fails → load and load_keyid_len as before ↔ Harmless        (failed_save_iff)
-/

namespace McTunnel

/-! ## Harmless failures -/

/-- Whatever can be read, the loads of the two keystores have the same results. -/
def SameLoads (dir : String) (s s' : Keystore) : Prop :=
  ∀ reads, load dir reads s' = load dir reads s ∧ loadKeyidLen dir reads s' = loadKeyidLen dir reads s

/-- The secret is already where `save` puts it, and nothing is removed. -/
def SecretThere (env : SaveEnv) (s : Keystore) (id : Identity) : Prop :=
  (env.keyringWrites = true → s.keyring = some id.secret.toList ∧
    (env.removesKey = true → s.keyFile = none)) ∧
  (env.keyringWrites = false → s.keyFile = some id.secret.toList)

/-- If the save fails, what it has written by then changes no load. -/
def Harmless (env : SaveEnv) (s : Keystore) (id : Identity) (keyidLen : UInt64) (force : Bool) :
    Prop :=
  ¬ Stopped env s force →
    -- a corrupt key file is cut to the same wrong length
    (KeyCut env → ∃ b, s.keyFile = some b ∧ b.length = env.roomKey) ∧
    (¬ KeyCut env → ¬ LenWritten env keyidLen → SecretThere env s id ∧
      -- what is left of `keyid_len` stands for what it stood for
      (env.opensMeta = true → keyidLenOf s.metaFile = cutLen keyidLen env.roomMeta))

/-! ## What tells two keystores apart -/

/-- Two key files that `load` does not tell apart: the same one, or two of one
wrong length. -/
def Alike (f g : Option (List UInt8)) : Prop :=
  f = g ∨ ∃ a b, f = some a ∧ g = some b ∧ a.length ≠ 32 ∧ b.length = a.length

theorem corrupt_ne_noIdentity (dir : String) (len : Nat) : corruptKeyFile dir len ≠ noIdentity dir := by
  intro h
  have hl := congrArg (fun s => s.toList.head?) h
  unfold corruptKeyFile noIdentity at hl
  simp only [String.toList_append, List.head?_append] at hl
  cases hl

theorem corruptKeyFile_injective (dir : String) : Function.Injective (corruptKeyFile dir) := by
  intro m n h
  exact Nat.repr_injective ((String.append_right_inj _).mp h)

theorem loadKeyFile_all (dir : String) (b : List UInt8) :
    loadKeyFile dir Reads.all (some b) =
      match toVector 32 b with
      | none => .error (corruptKeyFile dir b.length)
      | some arr => .ok ⟨arr⟩ := rfl

theorem loadKeyFile_none (dir : String) (reads : Reads) :
    loadKeyFile dir reads none = .error (noIdentity dir) := by
  unfold loadKeyFile
  rw [ite_self]

theorem loadKeyFile_some_ne (dir : String) (b : List UInt8) :
    loadKeyFile dir Reads.all (some b) ≠ .error (noIdentity dir) := by
  rw [loadKeyFile_all]
  split
  · intro h
    exact corrupt_ne_noIdentity dir b.length (Except.error.inj h)
  · intro h
    cases h

theorem loadKeyFile_agree_iff (dir : String) (f g : Option (List UInt8)) :
    (∀ reads, loadKeyFile dir reads f = loadKeyFile dir reads g) ↔ Alike f g := by
  constructor
  · intro h
    have h := h Reads.all
    cases f with
    | none =>
      cases g with
      | none => exact Or.inl rfl
      | some b =>
        rw [loadKeyFile_none] at h
        exact absurd h.symm (loadKeyFile_some_ne dir b)
    | some a =>
      cases g with
      | none =>
        rw [loadKeyFile_none] at h
        exact absurd h (loadKeyFile_some_ne dir a)
      | some b =>
        rw [loadKeyFile_all, loadKeyFile_all] at h
        cases ha : toVector 32 a with
        | none =>
          cases hb : toVector 32 b with
          | none =>
            rw [ha, hb] at h
            have hlen := corruptKeyFile_injective dir (Except.error.inj h)
            exact Or.inr ⟨a, b, rfl, rfl, (toVector_none_iff a).mp ha, hlen.symm⟩
          | some arr =>
            rw [ha, hb] at h
            cases h
        | some arr =>
          cases hb : toVector 32 b with
          | none =>
            rw [ha, hb] at h
            cases h
          | some arr' =>
            rw [ha, hb] at h
            cases h
            left
            rw [toList_of_toVector a arr ha, toList_of_toVector b arr hb]
  · rintro (rfl | ⟨a, b, rfl, rfl, ha, hb⟩) reads
    · rfl
    · have hva := (toVector_none_iff a).mpr ha
      have hvb := (toVector_none_iff (n := 32) b).mpr (by omega)
      unfold loadKeyFile
      cases reads.seesKey with
      | false => rfl
      | true => simp only [if_true, hva, hvb, hb]

theorem keyringLoad_congr (readable : Bool) (s s' : Keystore)
    (h : secretOf s'.keyring = secretOf s.keyring) :
    keyringLoad readable s' = keyringLoad readable s := by
  unfold keyringLoad
  cases readable with
  | false => rfl
  | true => exact Option.map_injective (fun _ _ => congrArg Identity.secret) h

/-- What is found, or an error. -/
def orError {α : Type} (e : String) : Option α → Except String α
  | some a => .ok a
  | none => .error e

theorem orError_injective {α : Type} (e : String) : Function.Injective (orError (α := α) e) := by
  intro a b h
  cases a with
  | none =>
    cases b with
    | none => rfl
    | some b => cases h
  | some a =>
    cases b with
    | none => cases h
    | some b =>
      cases h
      rfl

/-- Where the keyring can be read and no key file is seen. -/
theorem load_keyring (dir : String) (s : Keystore) :
    load dir { Reads.all with seesKey := false } s =
      orError (noIdentity dir) (secretOf s.keyring) := by
  unfold load keyringLoad secretOf
  cases s.keyring.bind (toVector 32) with
  | none => rfl
  | some arr => rfl

theorem loadKeyidLen_all (dir : String) (s : Keystore) :
    loadKeyidLen dir Reads.all s =
      orError ("parsing keyid_len from " ++ metaPath dir) (keyidLenOf s.metaFile) := by
  have hread : (if Reads.all.metaFile then s.metaFile else none) = s.metaFile := rfl
  unfold loadKeyidLen
  rw [hread]
  cases keyidLenOf s.metaFile with
  | none => rfl
  | some n => rfl

/-- Two keystores load alike if their keyrings have the same secret and their
key files are alike. -/
theorem load_agree_iff (dir : String) (s s' : Keystore) :
    (∀ reads, load dir reads s' = load dir reads s) ↔
      secretOf s'.keyring = secretOf s.keyring ∧ Alike s'.keyFile s.keyFile := by
  constructor
  · intro h
    constructor
    · have hk := h { Reads.all with seesKey := false }
      rw [load_keyring, load_keyring] at hk
      exact orError_injective _ hk
    · rw [← loadKeyFile_agree_iff dir]
      intro reads
      -- without the keyring, what is loaded is the key file
      exact h { reads with keyring := false }
  · rintro ⟨hkeyring, hfile⟩ reads
    unfold load
    rw [keyringLoad_congr reads.keyring s s' hkeyring,
      (loadKeyFile_agree_iff dir _ _).mpr hfile reads]

theorem loadKeyidLen_agree_iff (dir : String) (s s' : Keystore) :
    (∀ reads, loadKeyidLen dir reads s' = loadKeyidLen dir reads s) ↔
      keyidLenOf s'.metaFile = keyidLenOf s.metaFile := by
  constructor
  · intro h
    have hlen := h Reads.all
    rw [loadKeyidLen_all, loadKeyidLen_all] at hlen
    exact orError_injective _ hlen
  · intro h reads
    unfold loadKeyidLen
    cases reads.metaFile with
    | false => rfl
    | true => simp only [if_true, h]

theorem sameLoads_iff (dir : String) (s s' : Keystore) :
    SameLoads dir s s' ↔ secretOf s'.keyring = secretOf s.keyring ∧ Alike s'.keyFile s.keyFile ∧
      keyidLenOf s'.metaFile = keyidLenOf s.metaFile := by
  unfold SameLoads
  rw [forall_and, load_agree_iff, loadKeyidLen_agree_iff, and_assoc]

/-! ## What a failed save leaves -/

theorem alike_none_iff (f : Option (List UInt8)) : Alike none f ↔ f = none := by
  constructor
  · rintro (rfl | ⟨a, b, ha, -⟩)
    · rfl
    · cases ha
  · rintro rfl
    exact Or.inl rfl

/-- A key file of the right length is only like itself. -/
theorem alike_secret_iff (id : Identity) (f : Option (List UInt8)) :
    Alike (some id.secret.toList) f ↔ f = some id.secret.toList := by
  constructor
  · rintro (rfl | ⟨a, b, ha, -, hlen, -⟩)
    · rfl
    · cases ha
      exact absurd Vector.length_toList hlen
  · rintro rfl
    exact Or.inl rfl

theorem alike_cut_iff (id : Identity) (room : Nat) (h : room < 32) (f : Option (List UInt8)) :
    Alike (some (id.secret.toList.take room)) f ↔ ∃ b, f = some b ∧ b.length = room := by
  have hlen : (id.secret.toList.take room).length = room := by
    rw [List.length_take, Vector.length_toList]
    omega
  constructor
  · rintro (rfl | ⟨a, b, ha, rfl, -, hb⟩)
    · exact ⟨_, rfl, hlen⟩
    · cases ha
      exact ⟨b, rfl, hb.trans hlen⟩
  · rintro ⟨b, rfl, hb⟩
    exact Or.inr ⟨_, b, rfl, rfl, by omega, hb.trans hlen.symm⟩

theorem secret_there_iff (env : SaveEnv) (s : Keystore) (id : Identity) :
    secretOf (s.withSecret env id).keyring = secretOf s.keyring ∧
        Alike (s.withSecret env id).keyFile s.keyFile ↔ SecretThere env s id := by
  unfold Keystore.withSecret SecretThere
  cases hw : env.keyringWrites with
  | true =>
    simp only [if_true, secretOf_secret, forall_const, Bool.true_eq_false, false_imp_iff, and_true]
    rw [eq_comm, secretOf_some_iff]
    apply and_congr_right'
    cases hr : env.removesKey with
    | true => simpa using alike_none_iff s.keyFile
    | false => exact iff_of_true (Or.inl rfl) (by simp)
  | false => simpa using alike_secret_iff id s.keyFile

theorem lenCut_same_iff (env : SaveEnv) (s : Keystore) (keyidLen : UInt64) :
    keyidLenOf (lenCut env s keyidLen) = keyidLenOf s.metaFile ↔
      (env.opensMeta = true → keyidLenOf s.metaFile = cutLen keyidLen env.roomMeta) := by
  unfold lenCut
  cases env.opensMeta with
  | true =>
    rw [if_pos rfl, keyidLenOf_take, eq_comm]
    exact ⟨fun h _ => h, fun h => h rfl⟩
  | false => exact iff_of_true rfl (by simp)

/-- **A failed save.**  Loads are as before exactly if the failure is harmless. -/
theorem failed_save_iff (dir : String) (env : SaveEnv) (s : Keystore) (id : Identity)
    (keyidLen : UInt64) (force : Bool) :
    ((∃ e, (save dir env s id keyidLen force).1 = .error e) →
        SameLoads dir s (save dir env s id keyidLen force).2) ↔
      Harmless env s id keyidLen force := by
  unfold Harmless
  rcases save_cases dir env s id keyidLen force with
    ⟨hs, e, hsave⟩ | ⟨hs, hcut, e, hsave⟩ | ⟨hs, hcut, hw, e, hsave⟩ | ⟨hs, hcut, hw, location, hsave⟩
  · rw [hsave]
    exact iff_of_true (fun _ reads => ⟨rfl, rfl⟩) fun hns => absurd hs hns
  · rw [hsave, sameLoads_iff]
    have halike := alike_cut_iff id env.roomKey hcut.2 s.keyFile
    constructor
    · intro h _
      obtain ⟨-, hfile, -⟩ := h ⟨e, rfl⟩
      exact ⟨fun _ => halike.mp hfile, fun hn => absurd hcut hn⟩
    · intro h _
      exact ⟨rfl, halike.mpr ((h hs).1 hcut), rfl⟩
  · rw [hsave, sameLoads_iff]
    have hsecret := secret_there_iff env s id
    have hlen := lenCut_same_iff env s keyidLen
    constructor
    · intro h _
      obtain ⟨hkeyring, hfile, hmeta⟩ := h ⟨e, rfl⟩
      exact ⟨fun hc => absurd hc hcut, fun _ _ => ⟨hsecret.mp ⟨hkeyring, hfile⟩, hlen.mp hmeta⟩⟩
    · intro h _
      obtain ⟨hthere, hmeta⟩ := (h hs).2 hcut hw
      obtain ⟨hkeyring, hfile⟩ := hsecret.mpr hthere
      exact ⟨hkeyring, hfile, hlen.mpr hmeta⟩
  · rw [hsave]
    refine iff_of_true ?_ fun _ => ⟨fun hc => absurd hc hcut, fun _ hn => absurd hw hn⟩
    rintro ⟨e, he⟩
    cases he

/-! ## A lost identity -/

/-- No keyring, and a disk that is full when the key file has been opened. -/
def fullDisk : SaveEnv where
  keyringReads := false
  seesKey := true
  createsDir := true
  keyringWrites := false
  removesKey := true
  opensKey := true
  roomKey := 0
  opensMeta := true
  roomMeta := 0

/-- A profile whose identity is in the key file. -/
def fileProfile : Keystore where
  keyring := none
  keyFile := some (List.replicate 32 1)
  metaFile := some (Text.asBytes "26")

/-- The save fails, and the identity that was there is gone. -/
theorem identity_lost :
    (save home fullDisk fileProfile ⟨Vector.replicate 32 2⟩ 26 true).1 =
        .error "writing /home/alice/.config/mc-tunnel/identity.key" ∧
      load home Reads.all fileProfile = .ok ⟨Vector.replicate 32 1⟩ ∧
      load home Reads.all (save home fullDisk fileProfile ⟨Vector.replicate 32 2⟩ 26 true).2 =
        .error ("key file /home/alice/.config/mc-tunnel/identity.key is corrupt: " ++
          "expected 32 bytes, got 0") ∧
      ¬ SameLoads home fileProfile
        (save home fullDisk fileProfile ⟨Vector.replicate 32 2⟩ 26 true).2 := by
  refine ⟨rfl, rfl, rfl, ?_⟩
  intro h
  cases (h Reads.all).1

end McTunnel
