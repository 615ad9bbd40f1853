import McTunnel.Core.Name
import McTunnel.Lib.Decimal

/-!
# The keystore (`keystore.rs`)

A profile's secret is in the OS keyring or in `identity.key`, its keyid length
in `keyid_len`.  What works while a call runs is a parameter of the call: the
keyring, the directory, each file.  Opening a file to write truncates it; then
as many bytes are written as there is room for.  A keyring that refuses a write
or a deletion keeps what it had.  Unix build, one profile.

    a load returns what the keyring or the key file holds      (load_ok_forall_iff)
    a save does one of four things, a wipe one of two          (save_cases, wipe_cases)
-/

namespace McTunnel

/-! ## Code -/

def KEY_FILE : String := "identity.key"

def META_FILE : String := "keyid_len"

/-- What is stored for a profile. -/
structure Keystore where
  /-- the keyring's entry for the config directory -/
  keyring : Option (List UInt8)
  keyFile : Option (List UInt8)
  metaFile : Option (List UInt8)
deriving DecidableEq

/-- `Path::join`, on Unix. -/
def joinPath (dir file : String) : String :=
  match dir.toList.getLast? with
  | none => file
  | some c => if c = '/' then dir ++ file else dir ++ "/" ++ file

def keyPath (dir : String) : String := joinPath dir KEY_FILE

def metaPath (dir : String) : String := joinPath dir META_FILE

/-- A config directory. -/
def home : String := "/home/alice/.config/mc-tunnel"

example : keyPath home = "/home/alice/.config/mc-tunnel/identity.key" := rfl

/-! Loading -/

/-- What can be read while `load` or `load_keyid_len` runs. -/
structure Reads where
  keyring : Bool
  /-- `Path::exists` sees the key file if it is there -/
  seesKey : Bool
  keyFile : Bool
  metaFile : Bool
deriving DecidableEq

/-- The 32 secret bytes from the keyring, or `none` if absent, unavailable or corrupt. -/
def keyringLoad (readable : Bool) (s : Keystore) : Option (Vector UInt8 32) :=
  if readable then s.keyring.bind (toVector 32) else none

/-- `exists`. -/
def identityExists (readable seesKey : Bool) (s : Keystore) : Bool :=
  (keyringLoad readable s).isSome || (seesKey && s.keyFile.isSome)

def noIdentity (dir : String) : String :=
  "no identity found (keyring empty and no key file at " ++ keyPath dir ++
    ") — run `mc-tunnel init` first"

def corruptKeyFile (dir : String) (len : Nat) : String :=
  "key file " ++ keyPath dir ++ " is corrupt: expected 32 bytes, got " ++ Nat.repr len

/-- `load` after the keyring. -/
def loadKeyFile (dir : String) (reads : Reads) (file : Option (List UInt8)) :
    Except String Identity :=
  match if reads.seesKey then file else none with
  | none => .error (noIdentity dir)
  | some bytes =>
    if !reads.keyFile then .error ("reading " ++ keyPath dir)
    else
      match toVector 32 bytes with
      | none => .error (corruptKeyFile dir bytes.length)
      | some arr => .ok ⟨arr⟩

def load (dir : String) (reads : Reads) (s : Keystore) : Except String Identity :=
  match keyringLoad reads.keyring s with
  | some arr => .ok ⟨arr⟩
  | none => loadKeyFile dir reads s.keyFile

/-- The keyid length that a `keyid_len` file stands for: the default if it is
missing or no text. -/
def keyidLenOf (file : Option (List UInt8)) : Option UInt64 :=
  match file.bind Text.fromUtf8 with
  | some s => (Decimal.parse (2 ^ 64) (Text.trim s)).map UInt64.ofNat
  | none => some (UInt64.ofNat DEFAULT_KEYID_LEN)

def loadKeyidLen (dir : String) (reads : Reads) (s : Keystore) : Except String UInt64 :=
  match keyidLenOf (if reads.metaFile then s.metaFile else none) with
  | some n => .ok n
  | none => .error ("parsing keyid_len from " ++ metaPath dir)

/-! Writing -/

inductive Written
  | notOpened
  | cut
  | done
deriving DecidableEq

/-- `open` with `truncate`, then `write_all` of as many bytes as there is room for. -/
def writeFile (opens : Bool) (room : Nat) (old : Option (List UInt8)) (bytes : List UInt8) :
    Written × Option (List UInt8) :=
  if !opens then (.notOpened, old)
  else if bytes.length ≤ room then (.done, some bytes)
  else (.cut, some (bytes.take room))

def writeOwnerOnly (path : String) (opens : Bool) (room : Nat) (old : Option (List UInt8))
    (bytes : List UInt8) : Except String Unit × Option (List UInt8) :=
  let (written, file) := writeFile opens room old bytes
  match written with
  | .notOpened => (.error ("creating " ++ path ++ " (0600)"), file)
  | .cut => (.error ("writing " ++ path), file)
  | .done => (.ok (), file)

/-- What works while `save` runs. -/
structure SaveEnv where
  keyringReads : Bool
  seesKey : Bool
  /-- `create_dir_all` -/
  createsDir : Bool
  keyringWrites : Bool
  removesKey : Bool
  opensKey : Bool
  roomKey : Nat
  opensMeta : Bool
  roomMeta : Nat
deriving DecidableEq

/-- The keyring if it takes the secret, else a key file. -/
def storeSecret (dir : String) (env : SaveEnv) (s : Keystore) (secret : List UInt8) :
    Except String String × Keystore :=
  if env.keyringWrites then
    -- the error of removing a stale key file is ignored
    (.ok "OS keyring",
      { s with keyring := some secret, keyFile := if env.removesKey then none else s.keyFile })
  else
    let (stored, file) := writeOwnerOnly (keyPath dir) env.opensKey env.roomKey s.keyFile secret
    (stored.map fun _ => keyPath dir, { s with keyFile := file })

/-- `keyid_len.to_string()`. -/
def keyidLenText (keyidLen : UInt64) : List UInt8 := Text.asBytes (Nat.repr keyidLen.toNat)

def save (dir : String) (env : SaveEnv) (s : Keystore) (identity : Identity) (keyidLen : UInt64)
    (force : Bool) : Except String String × Keystore :=
  if identityExists env.keyringReads env.seesKey s && !force then
    (.error "identity already exists (use --force to overwrite)", s)
  else if !env.createsDir then (.error ("creating " ++ dir), s)
  else
    let (stored, s) := storeSecret dir env s identity.secret.toList
    match stored with
    | .error e => (.error e, s)
    | .ok location =>
      let (written, file) := writeFile env.opensMeta env.roomMeta s.metaFile (keyidLenText keyidLen)
      match written with
      | .done => (.ok location, { s with metaFile := file })
      | _ => (.error "writing keyid_len meta", { s with metaFile := file })

/-! Removing -/

/-- What works while `wipe` runs. -/
structure WipeEnv where
  keyringDeletes : Bool
  seesKey : Bool
  removesKey : Bool
  removesMeta : Bool
deriving DecidableEq

def wipe (dir : String) (env : WipeEnv) (s : Keystore) : Except String String × Keystore :=
  let deleted := env.keyringDeletes && s.keyring.isSome
  let removed := if deleted then ["OS keyring"] else []
  let s := { s with keyring := if deleted then none else s.keyring }
  let seen := env.seesKey && s.keyFile.isSome
  if seen && !env.removesKey then (.error ("removing " ++ keyPath dir), s)
  else
    let removed := if seen then removed ++ ["key file"] else removed
    let s := { s with keyFile := if seen then none else s.keyFile }
    (.ok (if removed.isEmpty then "nothing to remove" else String.intercalate " + " removed),
      { s with metaFile := if env.removesMeta then none else s.metaFile })

/-! ## What is read -/

/-- The secret that a keyring entry or a key file holds. -/
def secretOf (bytes : Option (List UInt8)) : Option Identity :=
  (bytes.bind (toVector 32)).map Identity.mk

theorem secretOf_some_iff (bytes : Option (List UInt8)) (id : Identity) :
    secretOf bytes = some id ↔ bytes = some id.secret.toList := by
  unfold secretOf
  constructor
  · intro h
    obtain ⟨arr, harr, rfl⟩ := Option.map_eq_some_iff.mp h
    obtain ⟨b, rfl, hb⟩ := Option.bind_eq_some_iff.mp harr
    exact congrArg some (toList_of_toVector b arr hb)
  · rintro rfl
    rw [Option.bind_some, toVector_toList]
    rfl

@[simp] theorem secretOf_secret (id : Identity) : secretOf (some id.secret.toList) = some id :=
  (secretOf_some_iff _ id).mpr rfl

theorem toVector_none_iff {n : Nat} (b : List UInt8) : toVector n b = none ↔ b.length ≠ n := by
  unfold toVector
  split
  · next h => simp [h]
  · next h => simp [h]

theorem secretOf_length (b : List UInt8) (h : b.length ≠ 32) : secretOf (some b) = none := by
  unfold secretOf
  rw [Option.bind_some, (toVector_none_iff b).mpr h]
  rfl

/-- What is worked with all along. -/
def Reads.all : Reads where
  keyring := true
  seesKey := true
  keyFile := true
  metaFile := true

theorem loadKeyFile_ok_iff (dir : String) (reads : Reads) (file : Option (List UInt8))
    (id : Identity) :
    loadKeyFile dir reads file = .ok id ↔
      reads.seesKey = true ∧ reads.keyFile = true ∧ secretOf file = some id := by
  unfold loadKeyFile secretOf
  cases hs : reads.seesKey with
  | false => simp
  | true =>
    cases file with
    | none => simp
    | some b =>
      cases hf : reads.keyFile with
      | false => simp
      | true =>
        cases hv : toVector 32 b with
        | none => simp [hv]
        | some arr => simp [hv]

/-- Whatever can be read, `load` returns what the keyring or the key file holds. -/
theorem load_ok_forall_iff (dir : String) (s : Keystore) (P : Identity → Prop) :
    (∀ reads id, load dir reads s = .ok id → P id) ↔
      (∀ id, secretOf s.keyring = some id → P id) ∧ ∀ id, secretOf s.keyFile = some id → P id := by
  constructor
  · intro h
    constructor
    · intro id hid
      apply h Reads.all
      obtain ⟨arr, harr, rfl⟩ := Option.map_eq_some_iff.mp hid
      have hk : keyringLoad true s = some arr := harr
      unfold load
      simp only [Reads.all, hk]
    · intro id hid
      exact h { Reads.all with keyring := false } id ((loadKeyFile_ok_iff dir _ _ id).mpr ⟨rfl, rfl, hid⟩)
  · rintro ⟨hkeyring, hfile⟩ reads id hid
    unfold load at hid
    cases hk : keyringLoad reads.keyring s with
    | some arr =>
      rw [hk] at hid
      cases hid
      apply hkeyring
      unfold keyringLoad at hk
      split at hk
      · unfold secretOf
        rw [hk]
        rfl
      · cases hk
    | none =>
      rw [hk] at hid
      exact hfile id ((loadKeyFile_ok_iff dir reads _ id).mp hid).2.2

/-! The keyid length -/

theorem keyidLenOf_text (l : List Char) (hl : ∀ c ∈ l, c.isDigit = true) :
    keyidLenOf (some (Text.asBytes (String.ofList l))) =
      (Decimal.parse (2 ^ 64) (String.ofList l)).map UInt64.ofNat := by
  unfold keyidLenOf
  rw [Option.bind_some, Text.fromUtf8_asBytes]
  simp only [Decimal.trim_digits l hl]

theorem keyidLenText_eq (n : UInt64) :
    keyidLenText n = Text.asBytes (String.ofList (Nat.repr n.toNat).toList) := by
  rw [String.ofList_toList]
  rfl

/-- A whole `keyid_len` file. -/
@[simp] theorem keyidLenOf_keyidLenText (n : UInt64) :
    keyidLenOf (some (keyidLenText n)) = some n := by
  rw [keyidLenText_eq, keyidLenOf_text _ (Decimal.isDigit_of_mem_repr n.toNat), String.ofList_toList,
    Decimal.parse_repr _ _ n.toNat_lt, Option.map_some, UInt64.ofNat_toNat]

/-- What the first `room` digits of a keyid length stand for. -/
def cutLen (n : UInt64) (room : Nat) : Option UInt64 :=
  if room = 0 then none
  else some (UInt64.ofNat (n.toNat / 10 ^ ((Nat.repr n.toNat).toList.length - room)))

/-- A `keyid_len` file cut short. -/
theorem keyidLenOf_take (n : UInt64) (room : Nat) :
    keyidLenOf (some ((keyidLenText n).take room)) = cutLen n room := by
  have hdig := Decimal.isDigit_of_mem_repr n.toNat
  rw [keyidLenText_eq, Text.take_asBytes _ (fun c hc => Decimal.utf8Size_isDigit c (hdig c hc)),
    keyidLenOf_text _ fun c hc => hdig c (List.mem_of_mem_take hc)]
  unfold cutLen
  by_cases hr : room = 0
  · subst hr
    rfl
  · rw [if_neg hr, Decimal.parse_take_repr _ _ _ n.toNat_lt (by omega), Option.map_some]

/-! ## What a save does -/

/-- The save ends before it changes anything. -/
def Stopped (env : SaveEnv) (s : Keystore) (force : Bool) : Prop :=
  (identityExists env.keyringReads env.seesKey s = true ∧ force = false) ∨ env.createsDir = false ∨
    (env.keyringWrites = false ∧ env.opensKey = false)

/-- The secret goes to the key file, and the key file is cut short. -/
def KeyCut (env : SaveEnv) : Prop := env.keyringWrites = false ∧ env.roomKey < 32

def LenWritten (env : SaveEnv) (keyidLen : UInt64) : Prop :=
  env.opensMeta = true ∧ (keyidLenText keyidLen).length ≤ env.roomMeta

/-- The keystore with the secret where `save` puts it. -/
def Keystore.withSecret (s : Keystore) (env : SaveEnv) (id : Identity) : Keystore :=
  if env.keyringWrites then
    { s with
      keyring := some id.secret.toList
      keyFile := if env.removesKey then none else s.keyFile }
  else { s with keyFile := some id.secret.toList }

/-- The `keyid_len` file after a write that failed. -/
def lenCut (env : SaveEnv) (s : Keystore) (keyidLen : UInt64) : Option (List UInt8) :=
  if env.opensMeta then some ((keyidLenText keyidLen).take env.roomMeta) else s.metaFile

theorem storeSecret_cases (dir : String) (env : SaveEnv) (s : Keystore) (id : Identity)
    (h : ¬ (env.keyringWrites = false ∧ env.opensKey = false)) :
    (KeyCut env ∧ ∃ e, storeSecret dir env s id.secret.toList =
      (.error e, { s with keyFile := some (id.secret.toList.take env.roomKey) })) ∨
    (¬ KeyCut env ∧ ∃ location, storeSecret dir env s id.secret.toList =
      (.ok location, s.withSecret env id)) := by
  have hlen : id.secret.toList.length = 32 := Vector.length_toList
  unfold storeSecret Keystore.withSecret KeyCut
  cases hw : env.keyringWrites with
  | true => exact Or.inr ⟨by simp, _, rfl⟩
  | false =>
    have ho : env.opensKey = true := by simpa [hw] using h
    unfold writeOwnerOnly writeFile
    simp only [ho, hlen, Bool.not_true, Bool.false_eq_true, if_false]
    by_cases hr : 32 ≤ env.roomKey
    · right
      rw [if_pos hr]
      exact ⟨by omega, _, rfl⟩
    · left
      rw [if_neg hr]
      exact ⟨⟨trivial, by omega⟩, _, rfl⟩

@[simp] theorem withSecret_metaFile (s : Keystore) (env : SaveEnv) (id : Identity) :
    (s.withSecret env id).metaFile = s.metaFile := by
  unfold Keystore.withSecret
  split
  · rfl
  · rfl

theorem writeFile_cases (env : SaveEnv) (s : Keystore) (keyidLen : UInt64) :
    (LenWritten env keyidLen ∧
      writeFile env.opensMeta env.roomMeta s.metaFile (keyidLenText keyidLen) =
        (.done, some (keyidLenText keyidLen))) ∨
    (¬ LenWritten env keyidLen ∧ ∃ written, written ≠ .done ∧
      writeFile env.opensMeta env.roomMeta s.metaFile (keyidLenText keyidLen) =
        (written, lenCut env s keyidLen)) := by
  unfold writeFile lenCut LenWritten
  cases ho : env.opensMeta with
  | false => exact Or.inr ⟨by simp, .notOpened, by decide, rfl⟩
  | true =>
    by_cases hr : (keyidLenText keyidLen).length ≤ env.roomMeta
    · left
      exact ⟨⟨rfl, hr⟩, if_pos hr⟩
    · right
      exact ⟨fun h => hr h.2, .cut, by decide, if_neg hr⟩

/-- What a save does, in four cases. -/
theorem save_cases (dir : String) (env : SaveEnv) (s : Keystore) (id : Identity)
    (keyidLen : UInt64) (force : Bool) :
    -- nothing
    (Stopped env s force ∧ ∃ e, save dir env s id keyidLen force = (.error e, s)) ∨
    -- the beginning of the key file
    (¬ Stopped env s force ∧ KeyCut env ∧ ∃ e, save dir env s id keyidLen force =
      (.error e, { s with keyFile := some (id.secret.toList.take env.roomKey) })) ∨
    -- the secret, and at most the beginning of `keyid_len`
    (¬ Stopped env s force ∧ ¬ KeyCut env ∧ ¬ LenWritten env keyidLen ∧
      ∃ e, save dir env s id keyidLen force =
        (.error e, { s.withSecret env id with metaFile := lenCut env s keyidLen })) ∨
    -- all of it
    (¬ Stopped env s force ∧ ¬ KeyCut env ∧ LenWritten env keyidLen ∧
      ∃ location, save dir env s id keyidLen force =
        (.ok location, { s.withSecret env id with metaFile := some (keyidLenText keyidLen) })) := by
  unfold save
  by_cases hex : identityExists env.keyringReads env.seesKey s = true ∧ force = false
  · left
    rw [if_pos (by simp [hex.1, hex.2])]
    exact ⟨Or.inl hex, _, rfl⟩
  rw [if_neg (by simpa using hex)]
  cases hd : env.createsDir with
  | false => exact Or.inl ⟨Or.inr (Or.inl hd), _, rfl⟩
  | true =>
    simp only [Bool.not_true, Bool.false_eq_true, if_false]
    by_cases hk : env.keyringWrites = false ∧ env.opensKey = false
    · left
      refine ⟨Or.inr (Or.inr hk), "creating " ++ keyPath dir ++ " (0600)", ?_⟩
      simp [storeSecret, writeOwnerOnly, writeFile, hk.1, hk.2, Except.map]
    · have hns : ¬ Stopped env s force := by
        rintro (h | h | h)
        · exact hex h
        · rw [hd] at h
          cases h
        · exact hk h
      rcases storeSecret_cases dir env s id hk with ⟨hcut, e, hs⟩ | ⟨hcut, location, hs⟩
      · right; left
        exact ⟨hns, hcut, e, by rw [hs]⟩
      · rw [hs]
        simp only [withSecret_metaFile]
        rcases writeFile_cases env s keyidLen with ⟨hw, h⟩ | ⟨hw, written, hne, h⟩
        · right; right; right
          exact ⟨hns, hcut, hw, location, by rw [h]⟩
        · right; right; left
          refine ⟨hns, hcut, hw, "writing keyid_len meta", ?_⟩
          rw [h]
          cases written with
          | done => exact absurd rfl hne
          | notOpened => rfl
          | cut => rfl

/-! ## What a wipe does -/

/-- The key file is there and cannot be removed. -/
def WipeFails (env : WipeEnv) (s : Keystore) : Prop :=
  env.seesKey = true ∧ s.keyFile.isSome = true ∧ env.removesKey = false

theorem ite_isSome_none {α : Type} (b : Bool) (o : Option α) :
    (if b && o.isSome then none else o) = if b then none else o := by
  cases o with
  | none => simp
  | some a => simp

theorem wipe_cases (dir : String) (env : WipeEnv) (s : Keystore) :
    -- no further than the keyring
    (WipeFails env s ∧ ∃ e, wipe dir env s =
      (.error e, { s with keyring := if env.keyringDeletes then none else s.keyring })) ∨
    -- everything that is seen
    (¬ WipeFails env s ∧ ∃ removed, wipe dir env s = (.ok removed,
      { keyring := if env.keyringDeletes then none else s.keyring
        keyFile := if env.seesKey then none else s.keyFile
        metaFile := if env.removesMeta then none else s.metaFile })) := by
  unfold wipe WipeFails
  simp only [ite_isSome_none]
  by_cases h : env.seesKey = true ∧ s.keyFile.isSome = true ∧ env.removesKey = false
  · left
    rw [if_pos (by simp [h.1, h.2.1, h.2.2])]
    exact ⟨h, _, rfl⟩
  · right
    rw [if_neg (by simpa [and_assoc] using h)]
    exact ⟨h, _, rfl⟩

end McTunnel
