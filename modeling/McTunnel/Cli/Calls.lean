import McTunnel.Cli.OwnerOnly
import McTunnel.Lib.Run

/-!
# The keystore call by call (`keystore.rs`, `main.rs`)

What a command does with the keystore is a row of calls; between two of them other
processes make theirs.  Who has a file open writes it from where it is, whoever else
has opened it meanwhile, and writes what nobody reads once it is removed.

    the calls of a process that nobody gets in the way of come to what
      save, load and wipe do                    (calls_save, calls_load, calls_wipe)
-/

namespace McTunnel

/-! ## The commands -/

structure InitArgs where
  keyidLen : UInt64
  vanityPrefix : Option String
  force : Bool

structure NameArgs where
  vanity : String
  keyidLen : Option UInt64

/-- What a command tells when it does not fail. -/
inductive Output
  /-- `init` -/
  | initialized (args : InitArgs) (name : Name) (location : String)
  /-- `name`, with the length that the name was derived at -/
  | named (args : NameArgs) (keyidLen : UInt64) (name : Name)
  /-- `publish` -/
  | publishing (id : Identity) (keyidLen : UInt64)
  /-- `connect`, `doctor`, `relay`, `agent` -/
  | serving (id : Identity)
  /-- `forget` -/
  | forgot (what : String)

/-- The commands that load the identity. -/
inductive Loading
  | name (args : NameArgs)
  | publish
  | serve

inductive CliCommand
  | init (args : InitArgs)
  | load (cmd : Loading)
  | forget

/-! ## Where a process is -/

/-- A file that is open to write: which of the files that were at its path, and how
much is written. -/
structure Handle where
  file : Nat
  written : Nat

inductive ExistsAt
  | keyring
  | keyFile

inductive SaveAt
  | createDir
  | setSecret
  /-- the keyring has the secret -/
  | removeKey
  /-- the keyring has refused it -/
  | openKey
  | writeKey (h : Handle)
  | openMeta (location : String)
  | writeMeta (location : String) (h : Handle)

inductive LoadAt
  | keyring
  /-- at `exists` of the key file -/
  | keyFile
  | read

inductive WipeAt
  | keyring
  /-- at `exists` of the key file -/
  | keyFile
  | removeKey
  | removeMeta

/-- Where a process is, at its next call on the keystore. -/
inductive CliAt
  | unstarted
  /-- in `exists`: that of `cmd_init`, or that of `save` with the identity that is made -/
  | looking (args : InitArgs) (made : Option Identity) (at' : ExistsAt)
  /-- an `init` past its checks -/
  | making (args : InitArgs)
  /-- in `save`, past `exists` -/
  | saving (args : InitArgs) (id : Identity) (at' : SaveAt)
  /-- in `load` -/
  | loading (cmd : Loading) (at' : LoadAt)
  /-- in `load_keyid_len`, of `name` or of `publish` -/
  | measuring (args : Option NameArgs) (id : Identity)
  /-- in `wipe` -/
  | wiping (removed : List String) (at' : WipeAt)
  | killed
  | ended (out : Except String Output)

/-- The keystore, and how many files have been removed from either path. -/
structure Disk where
  store : Keystore
  keysRemoved : Nat
  metasRemoved : Nat

/-- What a call meets. -/
structure Io where
  /-- it succeeds, or sees what it looks for -/
  works : Bool
  /-- how many bytes a `write` takes -/
  takes : Nat

namespace Disk

def removeKey (s : Disk) : Disk :=
  { s with
    store := { s.store with keyFile := none }
    keysRemoved := if s.store.keyFile.isSome then s.keysRemoved + 1 else s.keysRemoved }

def removeMeta (s : Disk) : Disk :=
  { s with
    store := { s.store with metaFile := none }
    metasRemoved := if s.store.metaFile.isSome then s.metasRemoved + 1 else s.metasRemoved }

def setKeyring (s : Disk) (entry : Option (List UInt8)) : Disk :=
  { s with store := { s.store with keyring := entry } }

def setKey (s : Disk) (file : Option (List UInt8)) : Disk :=
  { s with store := { s.store with keyFile := file } }

def setMeta (s : Disk) (file : Option (List UInt8)) : Disk :=
  { s with store := { s.store with metaFile := file } }

end Disk

/-! ## Code -/

inductive Wrote
  | failed
  | more (h : Handle)
  | done

/-- A `write` of `write_all` to an open file, and what is at its path then; one that is
interrupted is made again. -/
def writeChunk (io : Io) (bytes : List UInt8) (h : Handle) (removed : Nat)
    (file : Option (List UInt8)) : Wrote × Option (List UInt8) :=
  -- a write of nothing is an error
  if io.works = false ∨ io.takes = 0 then (.failed, file)
  else
    (if bytes.length ≤ h.written + io.takes then .done
      else .more { h with written := h.written + io.takes },
    if h.file = removed then
      file.map fun old => writeAt old h.written ((bytes.drop h.written).take io.takes)
    else file)

/-- Where the process is after a `write`. -/
def Wrote.next (failed : CliAt) (more : Handle → CliAt) (done : CliAt) : Wrote → CliAt
  | .failed => failed
  | .more h => more h
  | .done => done

namespace Profile

/-- `check_keyid_len`. -/
def checkKeyidLen (len : UInt64) : Except String Unit :=
  if MIN_KEYID_LEN ≤ len.toNat ∧ len.toNat ≤ MAX_KEYID_LEN then .ok ()
  else .error ("keyid_len must be in " ++ Nat.repr MIN_KEYID_LEN ++ "..=" ++
    Nat.repr MAX_KEYID_LEN ++ ", got " ++ Nat.repr len.toNat)

section
variable [Crates]

/-- What `cmd_init` tells once the identity is saved. -/
def initialized (args : InitArgs) (id : Identity) (location : String) : Except String Output :=
  match id.name "" args.keyidLen.toNat with
  | .error _ => .error "deriving name"
  | .ok name => .ok (.initialized args name location)

/-- What `cmd_name` tells with the length to derive the name at. -/
def named (args : NameArgs) (id : Identity) (keyidLen : UInt64) : Except String Output :=
  match id.name args.vanity keyidLen.toNat with
  | .error _ => .error "deriving name (check --vanity charset and --keyid-len)"
  | .ok name => .ok (.named args keyidLen name)

end
end Profile

namespace CliAt

/-- What a command begins with. -/
def begin : CliCommand → CliAt
  | .init args =>
    match Profile.checkKeyidLen args.keyidLen with
    | .error e => .ended (.error e)
    | .ok () => .looking args none .keyring
  | .load cmd => .loading cmd .keyring
  | .forget => .wiping [] .keyring

/-- After `exists`. -/
def looked (args : InitArgs) (made : Option Identity) (found : Bool) : CliAt :=
  match made with
  | none =>
    if found && !args.force then
      .ended (.error "an identity already exists for this profile (use --force to overwrite)")
    else .making args
  | some id =>
    if found && !args.force then
      .ended (.error "identity already exists (use --force to overwrite)")
    else .saving args id .createDir

section
variable (dir : String) (io : Io) (s : Disk)

def look (args : InitArgs) (made : Option Identity) : ExistsAt → CliAt
  | .keyring =>
    if (keyringLoad io.works s.store).isSome then looked args made true
    else .looking args made .keyFile
  | .keyFile => looked args made (io.works && s.store.keyFile.isSome)

section
variable [Crates]

def save (args : InitArgs) (id : Identity) : SaveAt → CliAt × Disk
  | .createDir =>
    (if io.works then .saving args id .setSecret else .ended (.error ("creating " ++ dir)), s)
  | .setSecret =>
    if io.works then (.saving args id .removeKey, s.setKeyring (some id.secret.toList))
    else (.saving args id .openKey, s)
  | .removeKey =>
    -- an error is ignored
    (.saving args id (.openMeta "OS keyring"), if io.works then s.removeKey else s)
  | .openKey =>
    if io.works then (.saving args id (.writeKey ⟨s.keysRemoved, 0⟩), s.setKey (some []))
    else (.ended (.error ("creating " ++ keyPath dir ++ " (0600)")), s)
  | .writeKey h =>
    let (wrote, file) := writeChunk io id.secret.toList h s.keysRemoved s.store.keyFile
    (wrote.next (.ended (.error ("writing " ++ keyPath dir)))
      (fun h => .saving args id (.writeKey h)) (.saving args id (.openMeta (keyPath dir))),
    s.setKey file)
  | .openMeta location =>
    if io.works then
      (.saving args id (.writeMeta location ⟨s.metasRemoved, 0⟩), s.setMeta (some []))
    else (.ended (.error "writing keyid_len meta"), s)
  | .writeMeta location h =>
    let (wrote, file) :=
      writeChunk io (keyidLenText args.keyidLen) h s.metasRemoved s.store.metaFile
    (wrote.next (.ended (.error "writing keyid_len meta"))
      (fun h => .saving args id (.writeMeta location h))
      (.ended (Profile.initialized args id location)),
    s.setMeta file)

/-- With the identity. -/
def loaded (id : Identity) : Loading → CliAt
  | .serve => .ended (.ok (.serving id))
  | .publish => .measuring none id
  | .name args =>
    match args.keyidLen with
    | none => .measuring (some args) id
    | some n => .ended ((Profile.checkKeyidLen n).bind fun _ => Profile.named args id n)

def load (cmd : Loading) : LoadAt → CliAt
  | .keyring =>
    match keyringLoad io.works s.store with
    | some arr => loaded ⟨arr⟩ cmd
    | none => .loading cmd .keyFile
  | .keyFile =>
    if io.works && s.store.keyFile.isSome then .loading cmd .read
    else .ended (.error (noIdentity dir))
  | .read =>
    match if io.works then s.store.keyFile else none with
    | none => .ended (.error ("reading " ++ keyPath dir))
    | some bytes =>
      match toVector 32 bytes with
      | none => .ended (.error (corruptKeyFile dir bytes.length))
      | some arr => loaded ⟨arr⟩ cmd

/-- The length is read. -/
def measure (args : Option NameArgs) (id : Identity) : CliAt :=
  match keyidLenOf (if io.works then s.store.metaFile else none), args with
  | none, _ => .ended (.error ("parsing keyid_len from " ++ metaPath dir))
  | some len, none => .ended (.ok (.publishing id len))
  | some len, some args => .ended (Profile.named args id len)

end

def wipe (removed : List String) : WipeAt → CliAt × Disk
  | .keyring =>
    if io.works && s.store.keyring.isSome then
      (.wiping (removed ++ ["OS keyring"]) .keyFile, s.setKeyring none)
    else (.wiping removed .keyFile, s)
  | .keyFile =>
    (.wiping removed (if io.works && s.store.keyFile.isSome then .removeKey else .removeMeta), s)
  | .removeKey =>
    -- another process may have removed it
    if io.works && s.store.keyFile.isSome then
      (.wiping (removed ++ ["key file"]) .removeMeta, s.removeKey)
    else (.ended (.error ("removing " ++ keyPath dir)), s)
  | .removeMeta =>
    -- an error is ignored
    (.ended (.ok (.forgot (if removed.isEmpty then "nothing to remove"
      else String.intercalate " + " removed))), if io.works then s.removeMeta else s)

/-- The next call of a process. -/
def call [Crates] : CliAt → CliAt × Disk
  | .looking args made at' => (look io s args made at', s)
  | .saving args id at' => save dir io s args id at'
  | .loading cmd at' => (load dir io s cmd at', s)
  | .measuring args id => (measure dir io s args id, s)
  | .wiping removed at' => wipe dir io s removed at'
  | a => (a, s)

end
end CliAt

/-! ## At once -/

namespace Profile
section
variable [Crates] (dir : String)

/-- `cmd_init` from the identity on, in one go. -/
def saveIdentity (env : SaveEnv) (s : Keystore) (args : InitArgs) (id : Identity) :
    Except String Output × Keystore :=
  let (saved, s) := save dir env s id args.keyidLen args.force
  (saved.bind (initialized args id), s)

/-- The length that `cmd_name` derives the name at. -/
def displayLen (reads : Reads) (s : Keystore) (args : NameArgs) : Except String UInt64 :=
  match args.keyidLen with
  | some n => (checkKeyidLen n).map fun _ => n
  | none => loadKeyidLen dir reads s

def cmdName (reads : Reads) (s : Keystore) (args : NameArgs) : Except String Output := do
  let id ← load dir reads s
  let keyidLen ← displayLen dir reads s args
  named args id keyidLen

/-- What `cmd_publish` loads of the keystore. -/
def cmdPublish (reads : Reads) (s : Keystore) : Except String Output := do
  let id ← load dir reads s
  let keyidLen ← loadKeyidLen dir reads s
  .ok (.publishing id keyidLen)

/-- A command that loads the identity, in one go. -/
def cmdLoad (reads : Reads) (s : Keystore) : Loading → Except String Output
  | .name args => cmdName dir reads s args
  | .publish => cmdPublish dir reads s
  | .serve => (load dir reads s).map .serving

end
end Profile

theorem keyidLenText_ne_nil (n : UInt64) : keyidLenText n ≠ [] := by
  intro h
  have hcut := keyidLenOf_take n 0
  rw [List.take_zero, ← h, keyidLenOf_keyidLenText] at hcut
  cases hcut

theorem writeChunk_open (io : Io) (bytes : List UInt8) (h : Handle)
    (hw : h.written ≤ bytes.length) :
    writeChunk io bytes h h.file (some (bytes.take h.written)) =
      if io.works = false ∨ io.takes = 0 then (.failed, some (bytes.take h.written))
      else
        (if bytes.length ≤ h.written + io.takes then .done
          else .more { h with written := h.written + io.takes },
        some (bytes.take (h.written + io.takes))) := by
  unfold writeChunk
  rw [if_pos rfl, Option.map_some, writeAt_take bytes h.written io.takes hw]

/-- A `write` of a file that nobody else has written fails, writes more of it, or the
rest. -/
theorem writeChunk_cases (io : Io) (bytes : List UInt8) (h : Handle)
    (hw : h.written < bytes.length) :
    writeChunk io bytes h h.file (some (bytes.take h.written)) =
        (.failed, some (bytes.take h.written)) ∨
      (∃ n, n < bytes.length ∧ writeChunk io bytes h h.file (some (bytes.take h.written)) =
        (.more ⟨h.file, n⟩, some (bytes.take n))) ∨
      writeChunk io bytes h h.file (some (bytes.take h.written)) = (.done, some bytes) := by
  rw [writeChunk_open io bytes h (Nat.le_of_lt hw)]
  by_cases hfails : io.works = false ∨ io.takes = 0
  · exact Or.inl (if_pos hfails)
  · rw [if_neg hfails]
    by_cases hall : bytes.length ≤ h.written + io.takes
    · rw [if_pos hall, List.take_of_length_le hall]
      exact Or.inr (Or.inr rfl)
    · rw [if_neg hall]
      exact Or.inr (Or.inl ⟨h.written + io.takes, Nat.lt_of_not_le hall, rfl⟩)

section
variable [Crates] (dir : String)

/-- `wipe` after the keyring. -/
def wipeFiles (dir : String) (env : WipeEnv) (removed : List String) (s : Keystore) :
    Except String String × Keystore :=
  let seen := env.seesKey && s.keyFile.isSome
  if seen && !env.removesKey then (.error ("removing " ++ keyPath dir), s)
  else
    let removed := if seen then removed ++ ["key file"] else removed
    let s := { s with keyFile := if seen then none else s.keyFile }
    (.ok (if removed.isEmpty then "nothing to remove" else String.intercalate " + " removed),
      { s with metaFile := if env.removesMeta then none else s.metaFile })

omit [Crates] in
theorem wipe_eq (env : WipeEnv) (s : Keystore) : wipe dir env s =
    if env.keyringDeletes && s.keyring.isSome then
      wipeFiles dir env ["OS keyring"] { s with keyring := none }
    else wipeFiles dir env [] s := by
  unfold wipe
  cases hdeleted : env.keyringDeletes && s.keyring.isSome <;> rfl

/-- Where `save` is once the secret is stored. -/
def CliAt.stored (args : InitArgs) (id : Identity) : Except String String → CliAt
  | .error e => .ended (.error e)
  | .ok location => .saving args id (.openMeta location)

/-- What `cmd_init` ends with once `keyid_len` is written. -/
def Profile.measured (args : InitArgs) (id : Identity) (location : String) :
    Written → Except String Output
  | .done => Profile.initialized args id location
  | _ => .error "writing keyid_len meta"

/-- Calls of a process that nobody gets in the way of lead from here to there. -/
def Comes (a : CliAt) (s : Disk) (a' : CliAt) (s' : Disk) : Prop :=
  ∃ ios, Run.run (fun at' io => CliAt.call dir io at'.2 at'.1) (a, s) ios = (a', s')

theorem comes_refl (a : CliAt) (s : Disk) : Comes dir a s a s := ⟨[], rfl⟩

theorem comes_call (io : Io) (a a' b : CliAt) (s s' t : Disk) (hcall : a.call dir io s = (b, t))
    (h : Comes dir b t a' s') : Comes dir a s a' s' := by
  obtain ⟨ios, hrun⟩ := h
  refine ⟨io :: ios, ?_⟩
  rw [Run.run_cons]
  dsimp only
  rw [hcall]
  exact hrun

/-- A file just opened is written as far as there is room. -/
theorem comes_writes (bytes : List UInt8) (hne : bytes ≠ []) (at' : Handle → CliAt)
    (failed done : CliAt) (put : Option (List UInt8) → Disk) (removed room : Nat)
    (hcall : ∀ io h file, (at' h).call dir io (put file) =
      ((writeChunk io bytes h removed file).1.next failed at' done,
        put (writeChunk io bytes h removed file).2)) :
    Comes dir (at' ⟨removed, 0⟩) (put (some [])) (if bytes.length ≤ room then done else failed)
      (put (some (bytes.take room))) := by
  have hfails : ∀ h : Handle, h.file = removed → h.written ≤ bytes.length →
      Comes dir (at' h) (put (some (bytes.take h.written))) failed
        (put (some (bytes.take h.written))) := by
    rintro h rfl hw
    refine comes_call dir ⟨false, 0⟩ _ _ failed _ _ (put (some (bytes.take h.written))) ?_
      (comes_refl dir _ _)
    rw [hcall, writeChunk_open _ bytes h hw, if_pos (Or.inl rfl)]
    rfl
  have hpos : 0 < bytes.length := List.length_pos_of_ne_nil hne
  have hopen := writeChunk_open ⟨true, room⟩ bytes ⟨removed, 0⟩ (Nat.zero_le _)
  rw [Nat.zero_add] at hopen
  by_cases hzero : room = 0
  · subst hzero
    rw [if_neg (by omega)]
    exact hfails ⟨removed, 0⟩ rfl (Nat.zero_le _)
  · rw [if_neg (by simp [hzero])] at hopen
    have hfirst := hcall ⟨true, room⟩ ⟨removed, 0⟩ (some (bytes.take 0))
    rw [hopen] at hfirst
    refine comes_call dir ⟨true, room⟩ _ _ _ _ _ _ hfirst ?_
    by_cases hall : bytes.length ≤ room
    · rw [if_pos hall, if_pos hall]
      exact comes_refl dir _ _
    · rw [if_neg hall, if_neg hall]
      exact hfails ⟨removed, room⟩ rfl (Nat.le_of_not_le hall)

theorem comes_trans (a b c : CliAt) (s t u : Disk) (h : Comes dir a s b t)
    (h' : Comes dir b t c u) : Comes dir a s c u := by
  obtain ⟨ios, hrun⟩ := h
  obtain ⟨ios', hrun'⟩ := h'
  refine ⟨ios ++ ios', ?_⟩
  rw [Run.run_append, hrun]
  exact hrun'

/-- `exists` in one go. -/
theorem comes_exists (args : InitArgs) (made : Option Identity) (s : Disk)
    (keyringReads seesKey : Bool) :
    Comes dir (.looking args made .keyring) s
      (.looked args made (identityExists keyringReads seesKey s.store)) s := by
  unfold identityExists
  cases hk : (keyringLoad keyringReads s.store).isSome with
  | true =>
    rw [Bool.true_or]
    refine comes_call dir ⟨keyringReads, 0⟩ _ _ _ _ _ _ ?_ (comes_refl dir _ _)
    exact Prod.ext (if_pos hk) rfl
  | false =>
    rw [Bool.false_or]
    have hnext : CliAt.call dir ⟨keyringReads, 0⟩ s (.looking args made .keyring) =
        (.looking args made .keyFile, s) := Prod.ext (if_neg (by simp [hk])) rfl
    exact comes_call dir _ _ _ _ _ _ _ hnext
      (comes_call dir ⟨seesKey, 0⟩ _ _ _ _ _ _ rfl (comes_refl dir _ _))

/-- The secret goes where `save` puts it. -/
theorem comes_secret (env : SaveEnv) (args : InitArgs) (id : Identity) (s : Disk) :
    ∃ s', s'.store = (storeSecret dir env s.store id.secret.toList).2 ∧
      Comes dir (.saving args id .setSecret) s
        (.stored args id (storeSecret dir env s.store id.secret.toList).1) s' := by
  unfold storeSecret
  cases hw : env.keyringWrites with
  | true =>
    refine ⟨if env.removesKey then (s.setKeyring (some id.secret.toList)).removeKey
      else s.setKeyring (some id.secret.toList), ?_, ?_⟩
    · cases env.removesKey <;> rfl
    · exact comes_call dir ⟨true, 0⟩ _ _ _ _ _ _ rfl
        (comes_call dir ⟨env.removesKey, 0⟩ _ _ _ _ _ _ rfl (comes_refl dir _ _))
  | false =>
    unfold writeOwnerOnly writeFile
    cases ho : env.opensKey with
    | false =>
      exact ⟨s, rfl, comes_call dir ⟨false, 0⟩ _ _ _ _ _ _ rfl
        (comes_call dir ⟨false, 0⟩ _ _ _ _ _ _ rfl (comes_refl dir _ _))⟩
    | true =>
      have hne : id.secret.toList ≠ [] := by
        intro h
        have hlen : id.secret.toList.length = 32 := Vector.length_toList
        rw [h] at hlen
        cases hlen
      have hwrites := comes_writes dir id.secret.toList hne (fun h => .saving args id (.writeKey h))
        (.ended (.error ("writing " ++ keyPath dir))) (.saving args id (.openMeta (keyPath dir)))
        s.setKey s.keysRemoved env.roomKey (fun io h file => rfl)
      have hopens := comes_call dir ⟨false, 0⟩ (.saving args id .setSecret) _ _ s _ _ rfl
        (comes_call dir ⟨true, 0⟩ (.saving args id .openKey) _ _ s _ _ rfl hwrites)
      refine ⟨s.setKey (some (id.secret.toList.take env.roomKey)), ?_⟩
      by_cases hroom : id.secret.toList.length ≤ env.roomKey
      · rw [if_pos hroom] at hopens ⊢
        refine ⟨?_, hopens⟩
        rw [List.take_of_length_le hroom]
        rfl
      · rw [if_neg hroom] at hopens ⊢
        exact ⟨rfl, hopens⟩

/-- The `keyid_len` file is written, and the command ends. -/
theorem comes_meta (env : SaveEnv) (args : InitArgs) (id : Identity) (location : String)
    (s : Disk) : Comes dir (.saving args id (.openMeta location)) s
      (.ended (Profile.measured args id location (writeFile env.opensMeta env.roomMeta
        s.store.metaFile (keyidLenText args.keyidLen)).1))
      (s.setMeta (writeFile env.opensMeta env.roomMeta s.store.metaFile
        (keyidLenText args.keyidLen)).2) := by
  unfold writeFile
  cases ho : env.opensMeta with
  | false => exact comes_call dir ⟨false, 0⟩ _ _ _ _ _ _ rfl (comes_refl dir _ _)
  | true =>
    have hwrites := comes_writes dir (keyidLenText args.keyidLen) (keyidLenText_ne_nil _)
      (fun h => .saving args id (.writeMeta location h))
      (.ended (.error "writing keyid_len meta")) (.ended (Profile.initialized args id location))
      s.setMeta s.metasRemoved env.roomMeta (fun io h file => rfl)
    have hopens := comes_call dir ⟨true, 0⟩ (.saving args id (.openMeta location)) _ _ s _ _ rfl
      hwrites
    by_cases hroom : (keyidLenText args.keyidLen).length ≤ env.roomMeta
    · rw [if_pos hroom, List.take_of_length_le hroom] at hopens
      rw [if_neg (by decide), if_pos hroom]
      exact hopens
    · rw [if_neg hroom] at hopens
      rw [if_neg (by decide), if_neg hroom]
      exact hopens

/-- The calls of a save come to what `save` does. -/
theorem calls_save (env : SaveEnv) (args : InitArgs) (id : Identity) (s : Disk) :
    ∃ s', s'.store = (Profile.saveIdentity dir env s.store args id).2 ∧
      Comes dir (.looking args (some id) .keyring) s
        (.ended (Profile.saveIdentity dir env s.store args id).1) s' := by
  have hlook := comes_exists dir args (some id) s env.keyringReads env.seesKey
  unfold Profile.saveIdentity save
  unfold CliAt.looked at hlook
  dsimp only at hlook
  by_cases hrefused : (identityExists env.keyringReads env.seesKey s.store && !args.force) = true
  · rw [if_pos hrefused] at hlook ⊢
    exact ⟨s, rfl, hlook⟩
  · rw [if_neg hrefused] at hlook ⊢
    cases hdir : env.createsDir with
    | false =>
      rw [if_pos (by decide)]
      exact ⟨s, rfl, comes_trans dir _ _ _ _ _ _ hlook
        (comes_call dir ⟨false, 0⟩ _ _ _ _ _ _ rfl (comes_refl dir _ _))⟩
    | true =>
      rw [if_neg (by decide)]
      have hcreated := comes_trans dir _ _ _ _ _ _ hlook
        (comes_call dir ⟨true, 0⟩ _ _ _ _ _ _ rfl (comes_refl dir _ _))
      obtain ⟨s', hstore, hsecret⟩ := comes_secret dir env args id s
      have hstored := comes_trans dir _ _ _ _ _ _ hcreated hsecret
      generalize storeSecret dir env s.store id.secret.toList = r at hstore hstored
      obtain ⟨stored, store⟩ := r
      cases stored with
      | error e => exact ⟨s', hstore, hstored⟩
      | ok location =>
        have hmeta := comes_trans dir _ _ _ _ _ _ hstored (comes_meta dir env args id location s')
        rw [show s'.store = store from hstore] at hmeta
        dsimp only
        generalize writeFile env.opensMeta env.roomMeta store.metaFile
          (keyidLenText args.keyidLen) = r at hmeta
        obtain ⟨written, file⟩ := r
        refine ⟨s'.setMeta file, ?_, ?_⟩
        · cases written <;> exact congrArg (fun t : Keystore => { t with metaFile := file }) hstore
        · cases written <;> exact hmeta

/-- The identity is loaded, or the command fails. -/
theorem comes_load (reads : Reads) (cmd : Loading) (s : Disk) :
    (∀ e, load dir reads s.store = .error e →
      Comes dir (.loading cmd .keyring) s (.ended (.error e)) s) ∧
    ∀ id, load dir reads s.store = .ok id →
      Comes dir (.loading cmd .keyring) s (.loaded id cmd) s := by
  have hone : ∀ io a b, CliAt.call dir io s a = (b, s) → Comes dir a s b s := fun io a b h =>
    comes_call dir io a b b s s s h (comes_refl dir b s)
  unfold load
  cases hk : keyringLoad reads.keyring s.store with
  | some arr =>
    refine ⟨by rintro e ⟨⟩, ?_⟩
    rintro id ⟨⟩
    refine hone ⟨reads.keyring, 0⟩ _ _ (Prod.ext ?_ rfl)
    unfold CliAt.call CliAt.load
    dsimp only
    rw [hk]
  | none =>
    have hfile : Comes dir (.loading cmd .keyring) s (.loading cmd .keyFile) s := by
      refine hone ⟨reads.keyring, 0⟩ _ _ (Prod.ext ?_ rfl)
      unfold CliAt.call CliAt.load
      dsimp only
      rw [hk]
    unfold loadKeyFile
    cases hf : if reads.seesKey then s.store.keyFile else none with
    | none =>
      have hunseen : (reads.seesKey && s.store.keyFile.isSome) = false := by
        cases hr : reads.seesKey with
        | false => rfl
        | true =>
          rw [hr, if_pos rfl] at hf
          rw [hf]
          rfl
      refine ⟨?_, by rintro id ⟨⟩⟩
      rintro e ⟨⟩
      refine comes_trans dir _ _ _ _ _ _ hfile (hone ⟨reads.seesKey, 0⟩ _ _ (Prod.ext ?_ rfl))
      exact if_neg (by simp [hunseen])
    | some bytes =>
      have hbytes : s.store.keyFile = some bytes := by
        cases hr : reads.seesKey with
        | false =>
          rw [hr] at hf
          cases hf
        | true =>
          rw [hr, if_pos rfl] at hf
          exact hf
      have hread : Comes dir (.loading cmd .keyring) s (.loading cmd .read) s := by
        refine comes_trans dir _ _ _ _ _ _ hfile (hone ⟨true, 0⟩ _ _ (Prod.ext ?_ rfl))
        exact if_pos (by rw [hbytes]; rfl)
      dsimp only
      cases hr : reads.keyFile with
      | false =>
        refine ⟨?_, by rintro id ⟨⟩⟩
        rintro e ⟨⟩
        exact comes_trans dir _ _ _ _ _ _ hread (hone ⟨false, 0⟩ _ _ rfl)
      | true =>
        have hlast : ∀ b, CliAt.load dir ⟨true, 0⟩ s cmd .read = b →
            Comes dir (.loading cmd .keyring) s b s := fun b hb =>
          comes_trans dir _ _ _ _ _ _ hread (hone ⟨true, 0⟩ _ _ (Prod.ext hb rfl))
        unfold CliAt.load at hlast
        dsimp only at hlast
        rw [if_pos rfl, hbytes] at hlast
        dsimp only at hlast
        rw [if_neg (by decide)]
        cases hv : toVector 32 bytes with
        | none =>
          refine ⟨?_, by rintro id ⟨⟩⟩
          rintro e ⟨⟩
          exact hlast _ (by rw [hv])
        | some arr =>
          refine ⟨by rintro e ⟨⟩, ?_⟩
          rintro id ⟨⟩
          exact hlast _ (by rw [hv])

/-- The calls of a command that loads the identity come to what it does at once. -/
theorem calls_load (reads : Reads) (cmd : Loading) (s : Disk) :
    Comes dir (.loading cmd .keyring) s (.ended (Profile.cmdLoad dir reads s.store cmd)) s := by
  obtain ⟨hfails, hloads⟩ := comes_load dir reads cmd s
  have hmeasure : ∀ args id, Comes dir (.measuring args id) s
      (.measure dir ⟨reads.metaFile, 0⟩ s args id) s := fun args id =>
    comes_call dir ⟨reads.metaFile, 0⟩ _ _ _ _ _ _ rfl (comes_refl dir _ _)
  cases hl : load dir reads s.store with
  | error e =>
    have hfail : Profile.cmdLoad dir reads s.store cmd = .error e := by
      unfold Profile.cmdLoad Profile.cmdName Profile.cmdPublish
      cases cmd <;> (dsimp only; rw [hl]; rfl)
    rw [hfail]
    exact hfails e hl
  | ok id =>
    have hloaded := hloads id hl
    cases cmd with
    | serve =>
      show Comes dir _ s (.ended ((load dir reads s.store).map .serving)) s
      rw [hl]
      exact hloaded
    | publish =>
      have hends := comes_trans dir _ _ _ _ _ _ hloaded (hmeasure none id)
      show Comes dir _ s (.ended (Profile.cmdPublish dir reads s.store)) s
      unfold Profile.cmdPublish loadKeyidLen
      rw [hl]
      unfold CliAt.measure at hends
      cases hm : keyidLenOf (if reads.metaFile then s.store.metaFile else none) with
      | none =>
        rw [hm] at hends
        exact hends
      | some len =>
        rw [hm] at hends
        exact hends
    | name args =>
      show Comes dir _ s (.ended (Profile.cmdName dir reads s.store args)) s
      unfold Profile.cmdName Profile.displayLen
      rw [hl]
      cases ha : args.keyidLen with
      | some n =>
        unfold CliAt.loaded at hloaded
        dsimp only at hloaded
        rw [ha] at hloaded
        dsimp only at hloaded ⊢
        cases hc : Profile.checkKeyidLen n with
        | error e =>
          rw [hc] at hloaded
          exact hloaded
        | ok u =>
          rw [hc] at hloaded
          exact hloaded
      | none =>
        unfold CliAt.loaded at hloaded
        dsimp only at hloaded
        rw [ha] at hloaded
        have hends := comes_trans dir _ _ _ _ _ _ hloaded (hmeasure (some args) id)
        unfold CliAt.measure at hends
        unfold loadKeyidLen
        dsimp only
        cases hm : keyidLenOf (if reads.metaFile then s.store.metaFile else none) with
        | none =>
          rw [hm] at hends
          exact hends
        | some len =>
          rw [hm] at hends
          exact hends

/-- `wipe` after the keyring. -/
theorem comes_wipe (env : WipeEnv) (removed : List String) (s : Disk) :
    ∃ s', s'.store = (wipeFiles dir env removed s.store).2 ∧
      Comes dir (.wiping removed .keyFile) s
        (.ended ((wipeFiles dir env removed s.store).1.map .forgot)) s' := by
  have hlast : ∀ (removed : List String) (s : Disk), Comes dir (.wiping removed .removeMeta) s
      (.ended (.ok (.forgot (if removed.isEmpty then "nothing to remove"
        else String.intercalate " + " removed)))) (if env.removesMeta then s.removeMeta else s) :=
    fun removed s =>
      comes_call dir ⟨env.removesMeta, 0⟩ _ _ _ _ _ _ rfl (comes_refl dir _ _)
  have hmeta : ∀ s : Disk, (if env.removesMeta then s.removeMeta else s).store =
      { s.store with metaFile := if env.removesMeta then none else s.store.metaFile } := by
    intro s
    cases env.removesMeta <;> rfl
  have hlook : ∀ seen, (env.seesKey && s.store.keyFile.isSome) = seen →
      CliAt.call dir ⟨env.seesKey, 0⟩ s (.wiping removed .keyFile) =
        (.wiping removed (if seen then .removeKey else .removeMeta), s) := by
    rintro _ rfl
    rfl
  unfold wipeFiles
  cases hseen : env.seesKey && s.store.keyFile.isSome with
  | false =>
    exact ⟨_, hmeta s, comes_call dir _ _ _ _ _ _ _ (hlook false hseen) (hlast removed s)⟩
  | true =>
    have hsees := hlook true hseen
    have hfile := (Bool.and_eq_true_iff.mp hseen).2
    cases hremoves : env.removesKey with
    | false =>
      exact ⟨s, rfl, comes_call dir _ _ _ _ _ _ _ hsees
        (comes_call dir ⟨false, 0⟩ _ _ _ _ _ _ rfl (comes_refl dir _ _))⟩
    | true =>
      refine ⟨_, hmeta s.removeKey, comes_call dir _ _ _ _ _ _ _ hsees
        (comes_call dir ⟨true, 0⟩ _ _ _ _ _ _ ?_ (hlast (removed ++ ["key file"]) s.removeKey))⟩
      exact if_pos hfile

/-- The calls of a removal come to what `wipe` does. -/
theorem calls_wipe (env : WipeEnv) (s : Disk) :
    ∃ s', s'.store = (wipe dir env s.store).2 ∧
      Comes dir (.wiping [] .keyring) s (.ended ((wipe dir env s.store).1.map .forgot)) s' := by
  rw [wipe_eq]
  cases hdeleted : env.keyringDeletes && s.store.keyring.isSome with
  | false =>
    obtain ⟨s', hstore, hrest⟩ := comes_wipe dir env [] s
    refine ⟨s', hstore, comes_call dir ⟨env.keyringDeletes, 0⟩ _ _ _ _ _ _ ?_ hrest⟩
    exact if_neg (by simp [hdeleted])
  | true =>
    obtain ⟨s', hstore, hrest⟩ := comes_wipe dir env ["OS keyring"] (s.setKeyring none)
    refine ⟨s', hstore, comes_call dir ⟨env.keyringDeletes, 0⟩ _ _ _ _ _ _ ?_ hrest⟩
    exact if_pos hdeleted

end

end McTunnel
