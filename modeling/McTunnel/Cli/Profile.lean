import McTunnel.Cli.Calls
import McTunnel.Cli.Forget
import McTunnel.Cli.Grind

/-!
# The commands of a profile (`main.rs`)

Processes of `mc-tunnel` work on one keystore at once, call by call: an `init` looks
for an identity, makes one, which may be a long grind, and saves it if there is none
by then; the others load it.

    while none is forced, and no save begins and no keyid length is read in the
      middle of a save, all they tell is about one identity       (one_identity)
-/

namespace McTunnel

/-! ## Code -/

/-- What an identity comes from: a key of `Identity::generate`, or a grind on
`n + 1` threads. -/
structure Source where
  generated : Identity
  n : Nat
  steps : List (GrindStep n)

structure Profile where
  disk : Disk
  procs : Nat → CliAt

inductive CliStep
  | start (p : Nat) (cmd : CliCommand)
  /-- the identity is made -/
  | make (p : Nat) (source : Source)
  /-- the next call on the keystore -/
  | go (p : Nat) (io : Io)
  | kill (p : Nat)

/-- The process that does it. -/
def CliStep.proc : CliStep → Nat
  | .start p _ => p
  | .make p _ => p
  | .go p _ => p
  | .kill p => p

namespace Profile

def start (store : Keystore) : Profile where
  disk := ⟨store, 0, 0⟩
  procs := fun _ => .unstarted

def put (s : Profile) (p : Nat) (a : CliAt) : Profile :=
  { s with procs := Function.update s.procs p a }

section
variable [Crates] (dir : String)

/-- The identity that `cmd_init` saves, if it is made by now. -/
def makeIdentity (args : InitArgs) (source : Source) : Option (Except String Identity) :=
  match args.vanityPrefix with
  | none => some (.ok source.generated)
  | some vanityPrefix =>
    match grind source.n vanityPrefix args.keyidLen.toNat source.steps with
    | .error e => some (.error e)
    | .ok none => none
    | .ok (some none) => some (.error "vanity grinding aborted")
    | .ok (some (some secret)) => some (.ok ⟨secret⟩)

def step (s : Profile) (e : CliStep) : Profile :=
  match e with
  | .start p cmd =>
    match s.procs p with
    | .unstarted => s.put p (.begin cmd)
    | _ => s
  | .make p source =>
    match s.procs p with
    | .making args =>
      match makeIdentity args source with
      | none => s
      | some (.error e) => s.put p (.ended (.error e))
      | some (.ok id) => s.put p (.looking args (some id) .keyring)
    | _ => s
  | .go p io =>
    let (a, disk) := CliAt.call dir io s.disk (s.procs p)
    { s with disk := disk }.put p a
  | .kill p =>
    match s.procs p with
    | .unstarted => s
    | .ended _ => s
    | _ => s.put p .killed

end
end Profile

/-! ## What a step does -/

section
variable [Crates] (dir : String)

inductive Acts (s : Profile) : CliStep → Profile → Prop
  | nothing (e : CliStep) : Acts s e s
  | starts (p : Nat) (cmd : CliCommand) : s.procs p = .unstarted →
      Acts s (.start p cmd) (s.put p (.begin cmd))
  | unmade (p : Nat) (args : InitArgs) (source : Source) (e : String) : s.procs p = .making args →
      Profile.makeIdentity args source = some (.error e) →
      Acts s (.make p source) (s.put p (.ended (.error e)))
  | made (p : Nat) (args : InitArgs) (source : Source) (id : Identity) : s.procs p = .making args →
      Profile.makeIdentity args source = some (.ok id) →
      Acts s (.make p source) (s.put p (.looking args (some id) .keyring))
  | goes (p : Nat) (io : Io) : Acts s (.go p io)
      ({ s with disk := (CliAt.call dir io s.disk (s.procs p)).2 }.put p
        (CliAt.call dir io s.disk (s.procs p)).1)
  | dies (p : Nat) : (∀ out, s.procs p ≠ .ended out) → s.procs p ≠ .unstarted →
      Acts s (.kill p) (s.put p .killed)

theorem acts_step (s : Profile) (e : CliStep) : Acts dir s e (s.step dir e) := by
  have hnothing : Acts dir s e s := Acts.nothing e
  unfold Profile.step
  cases e with
  | start p cmd =>
    dsimp only
    split
    · next hp => exact .starts p cmd hp
    · exact hnothing
  | make p source =>
    dsimp only
    split
    · next args hp =>
      split
      · exact hnothing
      · next e hmade => exact .unmade p args source e hp hmade
      · next id hmade => exact .made p args source id hp hmade
    · exact hnothing
  | go p io => exact .goes p io
  | kill p =>
    dsimp only
    split
    · exact hnothing
    · exact hnothing
    · next hun hend =>
      exact .dies p (fun out hp => hend out hp) hun

theorem procs_step_of_ne (s : Profile) (e : CliStep) (q : Nat) (hq : q ≠ e.proc) :
    (s.step dir e).procs q = s.procs q := by
  have hdoes := acts_step dir s e
  generalize s.step dir e = s' at hdoes
  cases hdoes <;> first | rfl | exact Function.update_of_ne hq _ _

theorem procs_run_of_ne (s : Profile) (l : List CliStep) (q : Nat) (hl : ∀ e ∈ l, q ≠ e.proc) :
    (Run.run (Profile.step dir) s l).procs q = s.procs q := by
  induction l generalizing s with
  | nil => rfl
  | cons e l ih =>
    rw [Run.run_cons, ih (s.step dir e) fun e' he' => hl e' (List.mem_cons_of_mem e he'),
      procs_step_of_ne dir s e q (hl e List.mem_cons_self)]

end

/-! ## What a keystore holds -/

/-- The identity that is loaded when all can be read. -/
def Keystore.identity (s : Keystore) : Option Identity :=
  (secretOf s.keyring).or (secretOf s.keyFile)

/-- As `save` finds it that does not overwrite. -/
def Keystore.Vacant (s : Keystore) : Prop := secretOf s.keyring = none ∧ s.keyFile = none

theorem identity_of_vacant (s : Keystore) (h : s.Vacant) : s.identity = none := by
  unfold Keystore.identity
  rw [h.1, h.2]
  rfl

/-- If it is there it can be read. -/
def Legible (bytes : Option (List UInt8)) (reads : Bool) : Prop :=
  bytes.isSome = true → reads = true

theorem read_legible (bytes : Option (List UInt8)) (reads : Bool) (h : Legible bytes reads) :
    (if reads then bytes else none) = bytes := by
  cases bytes with
  | none => exact ite_self none
  | some b => exact if_pos (h rfl)

theorem secretOf_of_load (s : Keystore) (reads : Bool) (arr : Vector UInt8 32)
    (h : keyringLoad reads s = some arr) : secretOf s.keyring = some ⟨arr⟩ := by
  unfold keyringLoad at h
  split at h
  · unfold secretOf
    rw [h]
    rfl
  · cases h

theorem secretOf_of_no_load (s : Keystore) (reads : Bool) (hk : Legible s.keyring reads)
    (h : keyringLoad reads s = none) : secretOf s.keyring = none := by
  unfold secretOf
  unfold keyringLoad at h
  cases hkeyring : s.keyring with
  | none => rfl
  | some bytes =>
    rw [hkeyring] at hk h
    rw [if_pos (hk rfl)] at h
    rw [h]
    rfl

theorem keyFile_of_not_seen (s : Keystore) (sees : Bool) (hf : Legible s.keyFile sees)
    (h : (sees && s.keyFile.isSome) = false) : s.keyFile = none := by
  cases hfile : s.keyFile with
  | none => rfl
  | some bytes =>
    rw [hfile] at hf h
    rw [hf rfl] at h
    cases h

/-! ## Who is where -/

/-- In the middle of a save, from the first look at the keystore on. -/
def CliAt.Saving : CliAt → Prop
  | .looking _ (some _) .keyFile => True
  | .saving _ _ _ => True
  | _ => False

/-- Past the looks of a save. -/
def CliAt.Writes : CliAt → Prop
  | .saving _ _ _ => True
  | _ => False

theorem saving_of_writes (a : CliAt) (h : a.Writes) : a.Saving := by
  cases a with
  | saving => trivial
  | _ => exact h.elim

/-- At the first look of a save, or about to read the keyid length. -/
def CliAt.Begins : CliAt → Prop
  | .looking _ (some _) .keyring => True
  | .measuring _ _ => True
  | _ => False

/-- What `save` and `load` look at can be read if it is there. -/
def CliAt.Reads (s : Keystore) (io : Io) : CliAt → Prop
  | .looking _ (some _) .keyring => Legible s.keyring io.works
  | .looking _ (some _) .keyFile => Legible s.keyFile io.works
  | .loading _ .keyring => Legible s.keyring io.works
  | .measuring _ _ => Legible s.metaFile io.works
  | _ => True

/-- Nothing is forced or removed, what is stored can be read, and while a process is
in the middle of a save no other begins one or reads the keyid length. -/
def Calm (s : Profile) : CliStep → Prop
  | .start _ (.init args) => args.force = false
  | .start _ .forget => False
  | .go p io => (s.procs p).Reads s.disk.store io ∧
      ((s.procs p).Begins → ∀ q, ¬ (s.procs q).Saving)
  | _ => True

/-! ## What a save leaves -/

/-- What a call of `save` leaves as it was. -/
structure Leaves (s s' : Keystore) : Prop where
  identity : ∀ id, s.identity = some id → s'.identity = some id
  keyFile : ∀ id, secretOf s.keyFile = some id → secretOf s'.keyFile = some id
  place : secretOf s.keyring = none ∨ s.keyFile = none →
    secretOf s'.keyring = none ∨ s'.keyFile = none

theorem leaves_refl (s : Keystore) : Leaves s s := ⟨fun _ h => h, fun _ h => h, id⟩

/-- The key file is written where no secret is stored. -/
theorem leaves_keyFile (s : Keystore) (file : Option (List UInt8))
    (hkeyring : secretOf s.keyring = none) (hfile : secretOf s.keyFile = none) :
    Leaves s { s with keyFile := file } where
  identity id h := by
    unfold Keystore.identity at h
    rw [hkeyring, hfile] at h
    cases h
  keyFile id h := by cases hfile.symm.trans h
  place _ := Or.inl hkeyring

theorem leaves_meta (s : Keystore) (file : Option (List UInt8)) :
    Leaves s { s with metaFile := file } :=
  ⟨fun _ h => h, fun _ h => h, id⟩

/-! ## What is told -/

section
variable [Crates]

/-- What was told is about this identity and keyid length. -/
def Output.Of (id : Identity) (keyidLen : UInt64) : Output → Prop
  | .initialized args name _ => args.keyidLen = keyidLen ∧ id.name "" keyidLen.toNat = .ok name
  | .named args len name => len = args.keyidLen.getD keyidLen ∧
      id.name args.vanity len.toNat = .ok name
  | .publishing id' len => id' = id ∧ len = keyidLen
  | .serving id' => id' = id
  | .forgot _ => True

/-- The keyid length of the profile is in it. -/
def Output.Sized : Output → Prop
  | .initialized _ _ _ => True
  | .named args _ _ => args.keyidLen = none
  | .publishing _ _ => True
  | _ => False

/-- What was told is about what the keystore holds. -/
def Output.About (s : Keystore) (out : Output) : Prop :=
  ∃ id, s.identity = some id ∧ out.Of id ((keyidLenOf s.metaFile).getD 0)

/-- What holds of the keystore at a call of `save`. -/
def SaveAt.Fits (s : Disk) (id : Identity) (keyidLen : UInt64) : SaveAt → Prop
  | .createDir => s.store.Vacant
  | .setSecret => s.store.Vacant
  | .removeKey => s.store.identity = some id ∧ s.store.keyFile = none
  | .openKey => s.store.Vacant
  | .writeKey h => secretOf s.store.keyring = none ∧ h.file = s.keysRemoved ∧ h.written < 32 ∧
      s.store.keyFile = some (id.secret.toList.take h.written)
  | .openMeta _ => s.store.identity = some id
  | .writeMeta _ h => s.store.identity = some id ∧ h.file = s.metasRemoved ∧
      h.written < (keyidLenText keyidLen).length ∧
      s.store.metaFile = some ((keyidLenText keyidLen).take h.written)

/-- What a process knows of the keystore. -/
def Seen (s : Disk) : CliAt → Prop
  | .looking args (some _) .keyFile => args.force = false ∧ secretOf s.store.keyring = none
  | .looking args _ _ => args.force = false
  | .making args => args.force = false
  | .saving args id at' => at'.Fits s id args.keyidLen
  | .loading _ .keyring => True
  | .loading _ _ => secretOf s.store.keyring = none ∨ s.store.keyFile = none
  | .measuring args id => s.store.identity = some id ∧ ∀ a, args = some a → a.keyidLen = none
  | .wiping _ _ => False
  | .ended (.ok out) => ∃ id, s.store.identity = some id ∧ (¬ out.Sized → ∀ len, out.Of id len)
  | _ => True

theorem seen_looked (s : Disk) (args : InitArgs) (made : Option Identity) (found : Bool)
    (hforce : args.force = false) (hno : made.isSome = true → found = false → s.store.Vacant) :
    Seen s (.looked args made found) := by
  unfold CliAt.looked
  rw [hforce]
  cases made with
  | none => cases found <;> trivial
  | some id =>
    cases found with
    | true => trivial
    | false => exact hno rfl rfl

theorem of_named (args : NameArgs) (id : Identity) (len len' : UInt64) (out : Output)
    (hlen : len = args.keyidLen.getD len') (h : Profile.named args id len = .ok out) :
    out.Of id len' ∧ (args.keyidLen.isSome = true → ¬ out.Sized) := by
  unfold Profile.named at h
  split at h
  · cases h
  · next name hname =>
    cases h
    refine ⟨⟨hlen, hname⟩, ?_⟩
    intro hsome hsized
    rw [show args.keyidLen = none from hsized] at hsome
    cases hsome

theorem seen_loaded (s : Disk) (cmd : Loading) (id : Identity) (hid : s.store.identity = some id) :
    Seen s (.loaded id cmd) := by
  cases cmd with
  | serve => exact ⟨id, hid, fun _ _ => rfl⟩
  | publish => exact ⟨hid, by rintro a ⟨⟩⟩
  | name args =>
    unfold CliAt.loaded
    dsimp only
    cases ha : args.keyidLen with
    | none =>
      refine ⟨hid, ?_⟩
      rintro _ ⟨⟩
      exact ha
    | some n =>
      dsimp only
      cases ho : (Profile.checkKeyidLen n).bind fun _ => Profile.named args id n with
      | error e => trivial
      | ok out =>
        obtain ⟨_, -, ho⟩ := bind_ok ho
        refine ⟨id, hid, fun _ len => ?_⟩
        exact (of_named args id n len out (by rw [ha]; rfl) ho).1

section
variable (dir : String) (io : Io) (s : Disk)

/-- What an `init` tells is what is stored. -/
theorem about_initialized (args : InitArgs) (id : Identity) (location : String) (store : Keystore)
    (hid : store.identity = some id) (hmeta : store.metaFile = some (keyidLenText args.keyidLen))
    (out : Output) (ho : Profile.initialized args id location = .ok out) :
    out.Sized ∧ out.About store := by
  unfold Profile.initialized at ho
  split at ho
  · cases ho
  · next name hname =>
    cases ho
    refine ⟨trivial, id, hid, ?_⟩
    rw [hmeta, keyidLenOf_keyidLenText]
    exact ⟨rfl, hname⟩

/-- An `init` tells something only once `keyid_len` is written. -/
theorem save_ended (args : InitArgs) (id : Identity) (at' : SaveAt) (out : Output)
    (ho : (CliAt.save dir io s args id at').1 = .ended (.ok out)) :
    ∃ location h, at' = .writeMeta location h ∧ Profile.initialized args id location = .ok out := by
  unfold CliAt.save at ho
  cases at' with
  | removeKey => cases ho
  | writeKey h =>
    dsimp only at ho
    generalize writeChunk io id.secret.toList h s.keysRemoved s.store.keyFile = r at ho
    obtain ⟨wrote, file⟩ := r
    cases wrote <;> cases ho
  | writeMeta location h =>
    dsimp only at ho
    generalize writeChunk io (keyidLenText args.keyidLen) h s.metasRemoved s.store.metaFile = r at ho
    obtain ⟨wrote, file⟩ := r
    cases wrote with
    | failed => cases ho
    | more h' => cases ho
    | done => exact ⟨location, h, rfl, CliAt.ended.inj ho⟩
  | _ =>
    dsimp only at ho
    split at ho <;> cases ho

/-- The process knows what it did in `save`. -/
theorem seen_save (args : InitArgs) (id : Identity) (at' : SaveAt)
    (hfits : at'.Fits s id args.keyidLen) :
    Seen (CliAt.save dir io s args id at').2 (CliAt.save dir io s args id at').1 := by
  have hlen : id.secret.toList.length = 32 := Vector.length_toList
  cases at' with
  | createDir =>
    unfold CliAt.save
    dsimp only
    split
    · exact hfits
    · trivial
  | setSecret =>
    unfold CliAt.save
    dsimp only
    split
    · refine ⟨?_, hfits.2⟩
      show (secretOf (some id.secret.toList)).or _ = some id
      rw [secretOf_secret]
      rfl
    · exact hfits
  | removeKey =>
    show (if io.works then s.removeKey else s).store.identity = some id
    cases io.works with
    | false => exact hfits.1
    | true =>
      show ({ s.store with keyFile := none } : Keystore).identity = some id
      rw [← hfits.2]
      exact hfits.1
  | openKey =>
    unfold CliAt.save
    dsimp only
    split
    · exact ⟨hfits.1, rfl, Nat.zero_lt_succ 31, rfl⟩
    · trivial
  | writeKey h =>
    obtain ⟨hkeyring, hfile, hw, hkey⟩ := hfits
    unfold CliAt.save
    dsimp only
    rw [← hfile, hkey]
    rcases writeChunk_cases io id.secret.toList h (by omega) with hc | ⟨n, hn, hc⟩ | hc
    · rw [hc]
      trivial
    · rw [hc]
      exact ⟨hkeyring, hfile, Nat.lt_of_lt_of_eq hn hlen, rfl⟩
    · rw [hc]
      show (secretOf s.store.keyring).or (secretOf (some id.secret.toList)) = some id
      rw [hkeyring, secretOf_secret]
      rfl
  | openMeta location =>
    unfold CliAt.save
    dsimp only
    split
    · exact ⟨hfits, rfl, List.length_pos_of_ne_nil (keyidLenText_ne_nil _), rfl⟩
    · trivial
  | writeMeta location h =>
    obtain ⟨hid, hfile, hw, hmeta⟩ := hfits
    unfold CliAt.save
    dsimp only
    rw [← hfile, hmeta]
    rcases writeChunk_cases io (keyidLenText args.keyidLen) h hw with hc | ⟨n, hn, hc⟩ | hc
    · rw [hc]
      trivial
    · rw [hc]
      exact ⟨hid, hfile, hn, rfl⟩
    · rw [hc]
      dsimp only [Wrote.next]
      cases ho : Profile.initialized args id location with
      | error e => trivial
      | ok out =>
        have hsized := (about_initialized args id location
          { s.store with metaFile := some (keyidLenText args.keyidLen) } hid rfl out ho).1
        exact ⟨id, hid, fun hno => absurd hsized hno⟩

theorem leaves_save (args : InitArgs) (id : Identity) (at' : SaveAt)
    (hfits : at'.Fits s id args.keyidLen) :
    Leaves s.store (CliAt.save dir io s args id at').2.store := by
  have hsame := leaves_refl s.store
  cases at' with
  | createDir => exact hsame
  | setSecret =>
    unfold CliAt.save
    dsimp only
    split
    · refine ⟨?_, ?_, fun _ => Or.inr hfits.2⟩
      · intro id' h
        cases (identity_of_vacant s.store hfits).symm.trans h
      · intro id' h
        rw [hfits.2] at h
        cases h
    · exact hsame
  | removeKey =>
    show Leaves s.store (if io.works then s.removeKey else s).store
    cases io.works with
    | false => exact hsame
    | true =>
      show Leaves s.store { s.store with keyFile := none }
      rw [← hfits.2]
      exact hsame
  | openKey =>
    unfold CliAt.save
    dsimp only
    split
    · exact leaves_keyFile s.store _ hfits.1 (by rw [hfits.2]; rfl)
    · exact hsame
  | writeKey h =>
    obtain ⟨hkeyring, -, hw, hkey⟩ := hfits
    refine leaves_keyFile s.store _ hkeyring ?_
    rw [hkey]
    apply secretOf_length
    rw [List.length_take, Vector.length_toList]
    omega
  | openMeta location =>
    unfold CliAt.save
    dsimp only
    split
    · exact leaves_meta s.store _
    · exact hsame
  | writeMeta location h => exact leaves_meta s.store _

/-- `load` goes on, fails or has the identity. -/
theorem load_cases (cmd : Loading) (at' : LoadAt) :
    (∃ e, CliAt.load dir io s cmd at' = .ended (.error e)) ∨
      (∃ next, next ≠ .keyring ∧ CliAt.load dir io s cmd at' = .loading cmd next ∧
        (at' = .keyring → keyringLoad io.works s.store = none)) ∨
      ∃ id, CliAt.load dir io s cmd at' = .loaded id cmd ∧
        (at' = .keyring → secretOf s.store.keyring = some id) ∧
        (at' ≠ .keyring → secretOf s.store.keyFile = some id) := by
  unfold CliAt.load
  cases at' with
  | keyring =>
    dsimp only
    split
    · next arr hl =>
      exact Or.inr (Or.inr ⟨⟨arr⟩, rfl, fun _ => secretOf_of_load _ _ arr hl,
        fun h => absurd rfl h⟩)
    · next hl => exact Or.inr (Or.inl ⟨.keyFile, by rintro ⟨⟩, rfl, fun _ => hl⟩)
  | keyFile =>
    dsimp only
    split
    · exact Or.inr (Or.inl ⟨.read, by rintro ⟨⟩, rfl, by rintro ⟨⟩⟩)
    · exact Or.inl ⟨_, rfl⟩
  | read =>
    dsimp only
    split
    · exact Or.inl ⟨_, rfl⟩
    · next bytes hb =>
      have hfile : s.store.keyFile = some bytes := by
        split at hb
        · exact hb
        · cases hb
      split
      · exact Or.inl ⟨_, rfl⟩
      · next arr hv =>
        refine Or.inr (Or.inr ⟨⟨arr⟩, rfl, by rintro ⟨⟩, fun _ => ?_⟩)
        unfold secretOf
        rw [hfile, Option.bind_some, hv]
        rfl

/-- With the identity a command ends, or reads the length. -/
theorem loaded_cases (id : Identity) (cmd : Loading) :
    (∃ out, CliAt.loaded id cmd = .ended out ∧ ∀ o, out = .ok o → ¬ o.Sized) ∨
      ∃ args, CliAt.loaded id cmd = .measuring args id := by
  unfold CliAt.loaded
  cases cmd with
  | serve =>
    refine Or.inl ⟨_, rfl, ?_⟩
    rintro o ⟨⟩ ⟨⟩
  | publish => exact Or.inr ⟨none, rfl⟩
  | name args =>
    dsimp only
    cases ha : args.keyidLen with
    | none => exact Or.inr ⟨some args, rfl⟩
    | some n =>
      refine Or.inl ⟨_, rfl, ?_⟩
      intro o ho
      obtain ⟨_, -, ho⟩ := bind_ok ho
      exact (of_named args id n n o (by rw [ha]; rfl) ho).2 (by rw [ha]; rfl)

/-- A command that reads the length ends, and what it tells is what is stored. -/
theorem measure_cases (args : Option NameArgs) (id : Identity)
    (h : Seen s (.measuring args id)) (hreads : Legible s.store.metaFile io.works) :
    ∃ res, CliAt.measure dir io s args id = .ended res ∧
      ∀ out, res = .ok out → out.Sized ∧ out.About s.store := by
  unfold CliAt.measure
  rw [read_legible _ _ hreads]
  cases hm : keyidLenOf s.store.metaFile with
  | none => exact ⟨_, rfl, by rintro out ⟨⟩⟩
  | some len =>
    cases args with
    | none =>
      refine ⟨_, rfl, ?_⟩
      rintro out ⟨⟩
      refine ⟨trivial, id, h.1, rfl, ?_⟩
      rw [hm]
      rfl
    | some args =>
      refine ⟨_, rfl, ?_⟩
      intro out ho
      have hnone := h.2 args rfl
      have hof := (of_named args id len len out (by rw [hnone]; rfl) ho).1
      unfold Profile.named at ho
      split at ho
      · cases ho
      · next name hname =>
        cases ho
        refine ⟨hnone, id, h.1, ?_⟩
        rw [hm]
        exact hof

section
variable (a : CliAt) (h : Seen s a)
include h

/-- Only a save changes what is stored. -/
theorem disk_call (hw : ¬ a.Writes) : (CliAt.call dir io s a).2 = s := by
  cases a with
  | saving args id at' => exact absurd trivial hw
  | wiping removed at' => exact h.elim
  | _ => rfl

theorem leaves_call : Leaves s.store (CliAt.call dir io s a).2.store := by
  cases a with
  | saving args id at' => exact leaves_save dir io s args id at' h
  | wiping removed at' => exact h.elim
  | _ => exact leaves_refl s.store

theorem saving_call (hs : (CliAt.call dir io s a).1.Saving) : a.Saving ∨ a.Begins := by
  cases a with
  | looking args made at' =>
    cases made with
    | some id =>
      cases at' with
      | keyring => exact Or.inr trivial
      | keyFile => exact Or.inl trivial
    | none =>
      exfalso
      cases at' with
      | keyring =>
        unfold CliAt.call CliAt.look CliAt.looked at hs
        dsimp only at hs
        split at hs
        · split at hs <;> exact hs
        · exact hs
      | keyFile =>
        unfold CliAt.call CliAt.look CliAt.looked at hs
        dsimp only at hs
        split at hs <;> exact hs
  | saving args id at' => exact Or.inl trivial
  | loading cmd at' =>
    exfalso
    unfold CliAt.call at hs
    dsimp only at hs
    rcases load_cases dir io s cmd at' with ⟨e, hl⟩ | ⟨next, -, hl, -⟩ | ⟨id, hl, -⟩
    · rw [hl] at hs
      exact hs
    · rw [hl] at hs
      exact hs
    · rw [hl] at hs
      rcases loaded_cases id cmd with ⟨out, hout, -⟩ | ⟨args, hout⟩ <;> (rw [hout] at hs; exact hs)
  | measuring args id => exact Or.inr trivial
  | wiping removed at' => exact h.elim
  | _ => exact hs.elim

/-- A save begins to write when it has looked and found nothing. -/
theorem writes_call (hreads : a.Reads s.store io) (hw : (CliAt.call dir io s a).1.Writes) :
    a.Writes ∨ s.store.Vacant := by
  have hsaving := saving_of_writes _ hw
  cases a with
  | looking args made at' =>
    cases made with
    | none => exact ((saving_call dir io s _ h hsaving).elim id id).elim
    | some id =>
      cases at' with
      | keyring =>
        unfold CliAt.call CliAt.look CliAt.looked at hw
        dsimp only at hw
        rw [show args.force = false from h] at hw
        split at hw <;> exact hw.elim
      | keyFile =>
        have hforce : args.force = false := h.1
        unfold CliAt.call CliAt.look CliAt.looked at hw
        dsimp only at hw
        rw [hforce] at hw
        cases hseen : io.works && s.store.keyFile.isSome with
        | true =>
          rw [hseen] at hw
          exact hw.elim
        | false => exact Or.inr ⟨h.2, keyFile_of_not_seen s.store _ hreads hseen⟩
  | saving args id at' => exact Or.inl trivial
  | measuring args id =>
    exfalso
    unfold CliAt.call CliAt.measure at hw
    dsimp only at hw
    split at hw <;> exact hw
  | _ => exact ((saving_call dir io s _ h hsaving).elim id id).elim

theorem seen_call (hreads : a.Reads s.store io) :
    Seen (CliAt.call dir io s a).2 (CliAt.call dir io s a).1 := by
  cases a with
  | looking args made at' =>
    cases at' with
    | keyring =>
      have hforce : args.force = false := by cases made <;> exact h
      unfold CliAt.call CliAt.look
      dsimp only
      split
      · exact seen_looked s args made true hforce (by rintro - ⟨⟩)
      · next hnone =>
        cases made with
        | none => exact hforce
        | some id =>
          refine ⟨hforce, secretOf_of_no_load s.store io.works hreads ?_⟩
          cases hl : keyringLoad io.works s.store with
          | none => rfl
          | some arr =>
            rw [hl] at hnone
            exact absurd rfl hnone
    | keyFile =>
      cases made with
      | none => exact seen_looked s args none _ h (by rintro ⟨⟩)
      | some id =>
        exact seen_looked s args (some id) _ h.1 fun _ hseen =>
          ⟨h.2, keyFile_of_not_seen s.store _ hreads hseen⟩
  | saving args id at' => exact seen_save dir io s args id at' h
  | loading cmd at' =>
    unfold CliAt.call
    dsimp only
    rcases load_cases dir io s cmd at' with ⟨e, hl⟩ | ⟨next, hne, hl, hnone⟩ | ⟨id, hl, hkey, hfile⟩
    · rw [hl]
      trivial
    · rw [hl]
      have hplace : secretOf s.store.keyring = none ∨ s.store.keyFile = none := by
        cases at' with
        | keyring => exact Or.inl (secretOf_of_no_load s.store io.works hreads (hnone rfl))
        | _ => exact h
      cases next with
      | keyring => exact absurd rfl hne
      | _ => exact hplace
    · rw [hl]
      apply seen_loaded
      unfold Keystore.identity
      cases at' with
      | keyring =>
        rw [hkey rfl]
        rfl
      | _ =>
        have hsecret := hfile (by rintro ⟨⟩)
        rcases h with hno | hno
        · rw [hno]
          exact hsecret
        · rw [hno] at hsecret
          cases hsecret
  | measuring args id =>
    obtain ⟨res, hres, hsized⟩ := measure_cases dir io s args id h hreads
    show Seen s (CliAt.measure dir io s args id)
    rw [hres]
    cases res with
    | error e => trivial
    | ok out => exact ⟨id, h.1, fun hno => absurd (hsized out rfl).1 hno⟩
  | wiping removed at' => exact h.elim
  | _ => exact h

/-- The length of the profile is told at the end of a save, or just when it is read. -/
theorem sized_call (hreads : a.Reads s.store io) (out : Output)
    (ho : (CliAt.call dir io s a).1 = .ended (.ok out)) (hsized : out.Sized) :
    a = .ended (.ok out) ∨
      ((a.Saving ∨ a.Begins) ∧ out.About (CliAt.call dir io s a).2.store) := by
  cases a with
  | unstarted => cases ho
  | looking args made at' =>
    exfalso
    have hlooked : ∀ found, CliAt.looked args made found ≠ .ended (.ok out) := by
      intro found
      unfold CliAt.looked
      cases made <;> (dsimp only; split <;> rintro ⟨⟩)
    unfold CliAt.call CliAt.look at ho
    cases at' with
    | keyring =>
      dsimp only at ho
      split at ho
      · exact hlooked true ho
      · cases ho
    | keyFile => exact hlooked _ ho
  | making args => cases ho
  | saving args id at' =>
    refine Or.inr ⟨Or.inl trivial, ?_⟩
    obtain ⟨location, h', rfl, hinit⟩ := save_ended dir io s args id at' out ho
    obtain ⟨hid, hfile, hw, hmeta⟩ := h
    unfold CliAt.call CliAt.save at ho ⊢
    dsimp only at ho ⊢
    rw [← hfile, hmeta] at ho ⊢
    rcases writeChunk_cases io (keyidLenText args.keyidLen) h' hw with hc | ⟨n, hn, hc⟩ | hc
    · rw [hc] at ho
      cases ho
    · rw [hc] at ho
      cases ho
    · rw [hc]
      exact (about_initialized args id location
        { s.store with metaFile := some (keyidLenText args.keyidLen) } hid rfl out hinit).2
  | loading cmd at' =>
    exfalso
    unfold CliAt.call at ho
    dsimp only at ho
    rcases load_cases dir io s cmd at' with ⟨e, hl⟩ | ⟨next, -, hl, -⟩ | ⟨id, hl, -⟩
    · cases hl.symm.trans ho
    · cases hl.symm.trans ho
    · rcases loaded_cases id cmd with ⟨res, hres, hno⟩ | ⟨args, hres⟩
      · cases (hres.symm.trans hl.symm).trans ho
        exact hno out rfl hsized
      · cases (hres.symm.trans hl.symm).trans ho
  | measuring args id =>
    obtain ⟨res, hres, hsized'⟩ := measure_cases dir io s args id h hreads
    cases hres.symm.trans ho
    exact Or.inr ⟨Or.inr trivial, (hsized' out rfl).2⟩
  | wiping removed at' => exact h.elim
  | killed => cases ho
  | ended res => exact Or.inl ho

end
end

/-- Who is not in the middle of a save knows as much after a call of one. -/
theorem seen_leaves (s s' : Disk) (a : CliAt) (hleaves : Leaves s.store s'.store) (hs : ¬ a.Saving)
    (h : Seen s a) : Seen s' a := by
  cases a with
  | looking args made at' =>
    cases made with
    | none => exact h
    | some id =>
      cases at' with
      | keyring => exact h
      | keyFile => exact absurd trivial hs
  | saving args id at' => exact absurd trivial hs
  | loading cmd at' =>
    cases at' with
    | keyring => trivial
    | _ => exact hleaves.place h
  | measuring args id => exact ⟨hleaves.identity id h.1, h.2⟩
  | wiping removed at' => exact h.elim
  | ended res =>
    cases res with
    | error e => trivial
    | ok out =>
      obtain ⟨id, hid, hof⟩ := h
      exact ⟨id, hleaves.identity id hid, hof⟩
  | _ => exact h

/-- What the processes know, that one at a time saves, and that none does any more when
the keyid length was told. -/
structure Told (s : Profile) : Prop where
  seen : ∀ p, Seen s.disk (s.procs p)
  alone : ∀ p q, (s.procs p).Saving → (s.procs q).Saving → p = q
  sized : ∀ p out, s.procs p = .ended (.ok out) → out.Sized →
    (∀ q, ¬ (s.procs q).Writes) ∧ out.About s.disk.store

theorem told_start (store : Keystore) : Told (Profile.start store) where
  seen p := trivial
  alone := by rintro p q ⟨⟩
  sized := by rintro p out ⟨⟩

section
variable (s : Profile) (h : Told s) (p : Nat) (a : CliAt)
include h

/-- A process goes on, and the others know what they knew. -/
theorem told_put (disk : Disk) (hseen : Seen disk a)
    (hothers : ∀ q, q ≠ p → Seen disk (s.procs q))
    (hsaving : a.Saving → ∀ q, q ≠ p → ¬ (s.procs q).Saving)
    (hsized : ∀ q out, q ≠ p → s.procs q = .ended (.ok out) → out.Sized →
      ¬ a.Writes ∧ out.About disk.store)
    (hnew : ∀ out, a = .ended (.ok out) → out.Sized →
      (∀ q, q ≠ p → ¬ (s.procs q).Writes) ∧ out.About disk.store) :
    Told ({ s with disk := disk }.put p a) := by
  have hself : ({ s with disk := disk }.put p a).procs p = a := Function.update_self _ _ _
  have hother : ∀ q, q ≠ p → ({ s with disk := disk }.put p a).procs q = s.procs q := fun q hq =>
    Function.update_of_ne hq _ _
  generalize hs' : { s with disk := disk }.put p a = s' at hself hother
  have hdisk : s'.disk = disk := by
    rw [← hs']
    rfl
  refine ⟨?_, ?_, ?_⟩
  · intro q
    by_cases hq : q = p
    · rw [hq, hself, hdisk]
      exact hseen
    · rw [hother q hq, hdisk]
      exact hothers q hq
  · intro q r hsq hsr
    by_cases hq : q = p
    · by_cases hr : r = p
      · rw [hq, hr]
      · rw [hq, hself] at hsq
        rw [hother r hr] at hsr
        exact absurd hsr (hsaving hsq r hr)
    · rw [hother q hq] at hsq
      by_cases hr : r = p
      · rw [hr, hself] at hsr
        exact absurd hsq (hsaving hsr q hq)
      · rw [hother r hr] at hsr
        exact h.alone q r hsq hsr
  · intro q out ho hout
    rw [hdisk]
    by_cases hq : q = p
    · rw [hq, hself] at ho
      obtain ⟨hquiet, habout⟩ := hnew out ho hout
      refine ⟨?_, habout⟩
      intro r
      by_cases hr : r = p
      · rw [hr, hself, ho]
        exact id
      · rw [hother r hr]
        exact hquiet r hr
    · rw [hother q hq] at ho
      obtain ⟨hquiet, habout⟩ := hsized q out hq ho hout
      refine ⟨?_, habout⟩
      intro r
      by_cases hr : r = p
      · rw [hr, hself]
        exact hquiet
      · rw [hother r hr]
        exact (h.sized q out ho hout).1 r

/-- A step that leaves the keystore alone. -/
theorem told_still (hseen : Seen s.disk a) (hsaving : ¬ a.Saving)
    (hnew : ∀ out, a = .ended (.ok out) → ¬ out.Sized) : Told (s.put p a) :=
  told_put s h p a s.disk hseen (fun q _ => h.seen q) (fun hs => absurd hs hsaving)
    (fun q out _ ho hout => ⟨fun hw => hsaving (saving_of_writes a hw), (h.sized q out ho hout).2⟩)
    (fun out ho hout => absurd hout (hnew out ho))

theorem told_call (dir : String) (io : Io) (hreads : (s.procs p).Reads s.disk.store io)
    (hbegins : (s.procs p).Begins → ∀ q, ¬ (s.procs q).Saving) :
    Told ({ s with disk := (CliAt.call dir io s.disk (s.procs p)).2 }.put p
      (CliAt.call dir io s.disk (s.procs p)).1) := by
  have hseen := h.seen p
  have hdisk := disk_call dir io s.disk (s.procs p) hseen
  have halone : (s.procs p).Saving ∨ (s.procs p).Begins →
      ∀ q, q ≠ p → ¬ (s.procs q).Saving := by
    rintro (hs | hb) q hq hsq
    · exact hq (h.alone q p hsq hs)
    · exact hbegins hb q hsq
  refine told_put s h p _ _ (seen_call dir io s.disk (s.procs p) hseen hreads) ?_
    (fun hs => halone (saving_call dir io s.disk (s.procs p) hseen hs)) ?_ ?_
  · intro q hq
    by_cases hw : (s.procs p).Writes
    · exact seen_leaves s.disk _ (s.procs q) (leaves_call dir io s.disk (s.procs p) hseen)
        (halone (Or.inl (saving_of_writes _ hw)) q hq) (h.seen q)
    · rw [hdisk hw]
      exact h.seen q
  · intro q out _ ho hout
    obtain ⟨hquiet, habout⟩ := h.sized q out ho hout
    rw [hdisk (hquiet p)]
    refine ⟨?_, habout⟩
    intro hw
    rcases writes_call dir io s.disk (s.procs p) hseen hreads hw with hold | hvacant
    · exact hquiet p hold
    · obtain ⟨id, hid, -⟩ := habout
      cases (identity_of_vacant _ hvacant).symm.trans hid
  · intro out ho hout
    rcases sized_call dir io s.disk (s.procs p) hseen hreads out ho hout with hold | ⟨hat, habout⟩
    · obtain ⟨hquiet, habout⟩ := h.sized p out hold hout
      rw [hdisk (hquiet p)]
      exact ⟨fun q _ => hquiet q, habout⟩
    · exact ⟨fun q hq hw => halone hat q hq (saving_of_writes _ hw), habout⟩

end

theorem told_step (dir : String) (s : Profile) (e : CliStep) (h : Told s) (hcalm : Calm s e) :
    Told (s.step dir e) := by
  have hdoes := acts_step dir s e
  generalize s.step dir e = s' at hdoes
  cases hdoes with
  | nothing => exact h
  | starts p cmd =>
    cases cmd with
    | init args =>
      unfold CliAt.begin
      dsimp only
      split
      · exact told_still s h p _ trivial id (by rintro out ⟨⟩)
      · exact told_still s h p _ hcalm id (by rintro out ⟨⟩)
    | load cmd => exact told_still s h p _ trivial id (by rintro out ⟨⟩)
    | forget => exact hcalm.elim
  | unmade p => exact told_still s h p _ trivial id (by rintro out ⟨⟩)
  | made p args source id hp =>
    have hforce := h.seen p
    rw [hp] at hforce
    exact told_still s h p _ hforce (fun hs => hs) (by rintro out ⟨⟩)
  | goes p io => exact told_call s h p dir io hcalm.1 hcalm.2
  | dies p => exact told_still s h p _ trivial id (by rintro out ⟨⟩)

/-- What was told is about the identity and the length that are stored. -/
theorem of_told (s : Profile) (h : Told s) (id : Identity) (hid : s.disk.store.identity = some id)
    (p : Nat) (out : Output) (hp : s.procs p = .ended (.ok out)) :
    out.Of id ((keyidLenOf s.disk.store.metaFile).getD 0) := by
  by_cases hout : out.Sized
  · obtain ⟨id', hid', hof⟩ := (h.sized p out hp hout).2
    cases hid.symm.trans hid'
    exact hof
  · have hseen := h.seen p
    rw [hp] at hseen
    obtain ⟨id', hid', hof⟩ := hseen
    cases hid.symm.trans hid'
    exact hof hout _

/-- **One identity a profile**: however many processes work on a keystore at once, and
whatever fails of what they write or whenever they are killed, all that is told of
identities, names and keyid lengths agrees, in every run that forces and removes
nothing, in which what is stored can be read, and in which no save begins and no keyid
length is read in the middle of another process's save. -/
theorem one_identity (dir : String) (store : Keystore) (l : List CliStep)
    (hl : Run.Each (Profile.step dir) Calm (Profile.start store) l) :
    ∃ id keyidLen, ∀ p out,
      (Run.run (Profile.step dir) (Profile.start store) l).procs p = .ended (.ok out) →
        out.Of id keyidLen := by
  have hrun := Run.always_of_each (Profile.step dir) Calm Told (told_step dir) (Profile.start store)
    (told_start store) l hl
  have htold : Told (Run.run (Profile.step dir) (Profile.start store) l) :=
    hrun.1 l [] (List.append_nil l).symm
  generalize Run.run (Profile.step dir) (Profile.start store) l = s at htold
  cases hid : s.disk.store.identity with
  | none =>
    refine ⟨⟨Vector.replicate 32 0⟩, 0, ?_⟩
    intro p out hp
    have hseen := htold.seen p
    rw [hp] at hseen
    obtain ⟨id, hid', -⟩ := hseen
    cases hid.symm.trans hid'
  | some id =>
    refine ⟨id, (keyidLenOf s.disk.store.metaFile).getD 0, ?_⟩
    intro p out hp
    exact of_told s htold id hid p out hp

/-- Nobody is in the middle of a save if none of the first `n` is, and no other has
started. -/
theorem no_saving (dir : String) (store : Keystore) (l : List CliStep) (n : Nat)
    (hl : ∀ e ∈ l, e.proc < n)
    (hn : ∀ p < n, ¬ ((Run.run (Profile.step dir) (Profile.start store) l).procs p).Saving)
    (q : Nat) : ¬ ((Run.run (Profile.step dir) (Profile.start store) l).procs q).Saving := by
  by_cases hq : q < n
  · exact hn q hq
  · rw [procs_run_of_ne dir (Profile.start store) l q fun e he => by
      have := hl e he
      omega]
    exact id

end

namespace Sample
attribute [local instance] crates

def profileDir : String := "/home/alice/.config/mc-tunnel"

def emptyStore : Keystore := ⟨none, none, none⟩

def plainInit : InitArgs := ⟨16, none, false⟩

def aliceSource : Source := ⟨⟨aliceSecret⟩, 0, delivered⟩

def works : Io := ⟨true, 4096⟩

/-- A process makes its next calls. -/
def calls (p n : Nat) : List CliStep := List.replicate n (.go p works)

/-- Two processes make an identity, and while one saves it others load it. -/
def twoInits : List CliStep := List.flatten
  [[.start 0 (.init plainInit), .start 1 (.init plainInit)], calls 0 2, calls 1 2,
    [.make 0 aliceSource, .make 1 aliceSource, .start 2 (.load (.name ⟨"", none⟩)),
      .start 3 (.load .serve)],
    calls 0 4, calls 2 1, calls 3 1, calls 0 3, calls 2 1, calls 1 1]

theorem calm_twoInits :
    Run.Each (Profile.step profileDir) Calm (Profile.start emptyStore) twoInits := by
  have hquiet : ∀ k ∈ [10, 19, 20], ∀ q, ¬ ((Run.run (Profile.step profileDir)
      (Profile.start emptyStore) (twoInits.take k)).procs q).Saving := by
    intro k hk
    simp only [List.mem_cons, List.not_mem_nil, or_false] at hk
    refine no_saving profileDir emptyStore _ 4 ?_ ?_
    · rcases hk with rfl | rfl | rfl <;> decide
    · intro p hp
      rcases hk with rfl | rfl | rfl <;> interval_cases p <;> exact id
  have hno : ∀ {P : Prop}, False → P := False.elim
  exact ⟨rfl, rfl, ⟨trivial, hno⟩, ⟨trivial, hno⟩, ⟨trivial, hno⟩, ⟨trivial, hno⟩, trivial, trivial,
    trivial, trivial, ⟨fun _ => rfl, fun _ => hquiet 10 (by decide)⟩, ⟨fun _ => rfl, hno⟩,
    ⟨trivial, hno⟩, ⟨trivial, hno⟩, ⟨fun _ => rfl, hno⟩, ⟨fun _ => rfl, hno⟩, ⟨trivial, hno⟩,
    ⟨trivial, hno⟩, ⟨trivial, hno⟩, ⟨fun _ => rfl, fun _ => hquiet 19 (by decide)⟩,
    ⟨fun _ => rfl, fun _ => hquiet 20 (by decide)⟩, trivial⟩

end Sample

section
attribute [local instance] Sample.crates

theorem one_identity_twoInits :
    ∃ id keyidLen, ∀ p out,
      (Run.run (Profile.step Sample.profileDir) (Profile.start Sample.emptyStore)
        Sample.twoInits).procs p = .ended (.ok out) → out.Of id keyidLen :=
  one_identity Sample.profileDir Sample.emptyStore Sample.twoInits Sample.calm_twoInits

end

/-! ## In the middle of a save -/

namespace Sample
attribute [local instance] crates

def ones : Identity := ⟨Vector.replicate 32 1⟩

def twos : Identity := ⟨Vector.replicate 32 2⟩

/-- Two processes are past `exists` before either saves. -/
def overlapping : List CliStep := List.flatten
  [[.start 0 (.init plainInit), .start 1 (.init plainInit)], calls 0 2, calls 1 2,
    [.make 0 ⟨ones, 0, []⟩, .make 1 ⟨twos, 0, []⟩, .start 2 (.load .serve), .start 3 (.load .serve)],
    calls 0 3, calls 1 3, calls 0 1, calls 2 1, calls 1 1, calls 3 1]

example :
    (Run.run (Profile.step profileDir) (Profile.start emptyStore) overlapping).procs 2 =
      .ended (.ok (.serving ones)) ∧
    (Run.run (Profile.step profileDir) (Profile.start emptyStore) overlapping).procs 3 =
      .ended (.ok (.serving twos)) := ⟨rfl, rfl⟩

/-- The keyid length is read before it is written, and after. -/
def measuring : List CliStep := List.flatten
  [[.start 0 (.init plainInit)], calls 0 2,
    [.make 0 ⟨ones, 0, []⟩, .start 1 (.load .publish), .start 2 (.load .publish)],
    calls 0 4, calls 1 2, calls 0 3, calls 2 2]

example :
    (Run.run (Profile.step profileDir) (Profile.start emptyStore) measuring).procs 1 =
      .ended (.ok (.publishing ones 26)) ∧
    (Run.run (Profile.step profileDir) (Profile.start emptyStore) measuring).procs 2 =
      .ended (.ok (.publishing ones 16)) := ⟨rfl, rfl⟩

end Sample

end McTunnel
