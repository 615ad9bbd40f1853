import McTunnel.Cli.Keystore
import McTunnel.Lib.Run

/-!
# The keystore as one slot (`keystore.rs`)

A slot holds what the last successful `save` put there, or nothing after a
successful `wipe`.  The keystore is one as long as no call leaves a secret in
the backend it does not write:

    every load returns what the slot holds ↔
      no save leaves another identity in the other backend, no wipe leaves one
      behind, and a failed save has no other identity stored          (one_slot_iff)
-/

namespace McTunnel

/-! ## The slot -/

inductive Held
  /-- no call has set it yet -/
  | unknown
  | empty
  | holds (id : Identity) (keyidLen : UInt64)

/-- What a load of the identity may return. -/
def Held.Returns (h : Held) (id : Identity) : Prop :=
  match h with
  | .unknown => True
  | .empty => False
  | .holds held _ => id = held

/-- What a load of the keyid length may return. -/
def Held.ReturnsLen (h : Held) (n : UInt64) : Prop :=
  match h with
  | .holds _ keyidLen => n = keyidLen
  | _ => True

/-- The calls on a profile, each with what works while it runs. -/
inductive Call
  | save (env : SaveEnv) (id : Identity) (keyidLen : UInt64) (force : Bool)
  | wipe (env : WipeEnv)
  | load (reads : Reads)
  | loadKeyidLen (reads : Reads)

/-- A keystore and the slot it should be. -/
structure Slot where
  store : Keystore
  held : Held

namespace Slot

def start (store : Keystore) : Slot where
  store := store
  held := .unknown

/-- Only a call that returns `Ok` sets the slot. -/
def step (dir : String) (s : Slot) (call : Call) : Slot :=
  match call with
  | .save env id keyidLen force =>
    let (result, store) := McTunnel.save dir env s.store id keyidLen force
    match result with
    | .ok _ => ⟨store, .holds id keyidLen⟩
    | .error _ => ⟨store, s.held⟩
  | .wipe env =>
    let (result, store) := McTunnel.wipe dir env s.store
    match result with
    | .ok _ => ⟨store, .empty⟩
    | .error _ => ⟨store, s.held⟩
  | .load _ => s
  | .loadKeyidLen _ => s

/-- A load returns what the slot holds, whether or not keyring and key file can
be read; a load of the keyid length does, while `keyid_len` can be read. -/
def Serves (dir : String) (s : Slot) : Prop :=
  ∀ reads,
    (∀ id, McTunnel.load dir reads s.store = .ok id → s.held.Returns id) ∧
    (reads.metaFile = true →
      ∀ n, McTunnel.loadKeyidLen dir reads s.store = .ok n → s.held.ReturnsLen n)

/-- What the call returns is what the slot holds. -/
def Right (dir : String) (s : Slot) (call : Call) : Prop :=
  match call with
  | .load reads => ∀ id, McTunnel.load dir reads s.store = .ok id → s.held.Returns id
  | .loadKeyidLen reads =>
    ∀ n, McTunnel.loadKeyidLen dir reads s.store = .ok n → s.held.ReturnsLen n
  | _ => True

/-- No other identity is stored here. -/
def Only (file : Option (List UInt8)) (id : Identity) : Prop :=
  ∀ other, secretOf file = some other → other = id

/-- The backend that a save does not write has no other identity afterwards. -/
def OneSource (s : Keystore) (env : SaveEnv) (id : Identity) : Prop :=
  (env.keyringWrites = true → env.removesKey = true ∨ Only s.keyFile id) ∧
  (env.keyringWrites = false → Only s.keyring id)

/-- The call leaves the keystore one slot. -/
def Kept (s : Slot) (call : Call) : Prop :=
  match call with
  | .save env id keyidLen force =>
    ¬ Stopped env s.store force → ¬ KeyCut env →
      (LenWritten env keyidLen → OneSource s.store env id) ∧
      -- the secret is stored and the call fails
      (¬ LenWritten env keyidLen → s.held.Returns id ∧
        (env.opensMeta = true → ∀ n, cutLen keyidLen env.roomMeta = some n → s.held.ReturnsLen n))
  | .wipe env =>
    ¬ WipeFails env s.store →
      (env.keyringDeletes = true ∨ secretOf s.store.keyring = none) ∧
      (env.seesKey = true ∨ secretOf s.store.keyFile = none)
  | .load _ => True
  -- the default is returned when the file cannot be read
  | .loadKeyidLen reads =>
    reads.metaFile = true ∨ s.held.ReturnsLen (UInt64.ofNat DEFAULT_KEYID_LEN)

/-! ## What is stored -/

/-- Each backend stands for what the slot holds, if for anything. -/
structure Clean (s : Slot) : Prop where
  keyring : ∀ id, secretOf s.store.keyring = some id → s.held.Returns id
  keyFile : ∀ id, secretOf s.store.keyFile = some id → s.held.Returns id
  metaFile : ∀ n, keyidLenOf s.store.metaFile = some n → s.held.ReturnsLen n

theorem clean_start (store : Keystore) : (start store).Clean where
  keyring := fun _ _ => trivial
  keyFile := fun _ _ => trivial
  metaFile := fun _ _ => trivial

theorem loadKeyidLen_ok_iff (dir : String) (reads : Reads) (s : Keystore) (n : UInt64) :
    McTunnel.loadKeyidLen dir reads s = .ok n ↔
      keyidLenOf (if reads.metaFile then s.metaFile else none) = some n := by
  unfold McTunnel.loadKeyidLen
  cases keyidLenOf (if reads.metaFile then s.metaFile else none) with
  | none => simp
  | some m => simp

theorem serves_iff (dir : String) (s : Slot) : s.Serves dir ↔ s.Clean := by
  have hload := load_ok_forall_iff dir s.store s.held.Returns
  constructor
  · intro h
    obtain ⟨hkeyring, hfile⟩ := hload.mp fun reads => (h reads).1
    refine ⟨hkeyring, hfile, ?_⟩
    intro n hn
    exact (h Reads.all).2 rfl n ((loadKeyidLen_ok_iff dir _ _ n).mpr hn)
  · intro h reads
    refine ⟨hload.mpr ⟨h.keyring, h.keyFile⟩ reads, ?_⟩
    intro hr n hn
    rw [loadKeyidLen_ok_iff, if_pos hr] at hn
    exact h.metaFile n hn

/-! ## The calls -/

/-- The secret where `save` puts it, beside what the other backend has. -/
theorem clean_withSecret_iff (s : Keystore) (env : SaveEnv) (id : Identity)
    (file : Option (List UInt8)) (held : Held) :
    Clean ⟨{ s.withSecret env id with metaFile := file }, held⟩ ↔
      held.Returns id ∧
      (env.keyringWrites = true → env.removesKey = true ∨
        ∀ other, secretOf s.keyFile = some other → held.Returns other) ∧
      (env.keyringWrites = false → ∀ other, secretOf s.keyring = some other → held.Returns other) ∧
      ∀ n, keyidLenOf file = some n → held.ReturnsLen n := by
  unfold Keystore.withSecret
  cases hw : env.keyringWrites with
  | true =>
    constructor
    · rintro ⟨hkeyring, hfile, hmeta⟩
      refine ⟨hkeyring id (secretOf_secret id), fun _ => ?_, by simp, hmeta⟩
      cases hr : env.removesKey with
      | true => exact Or.inl rfl
      | false =>
        right
        simpa [hr] using hfile
    · rintro ⟨hid, hother, -, hmeta⟩
      refine ⟨?_, ?_, hmeta⟩
      · intro other ho
        cases (secretOf_secret id).symm.trans ho
        exact hid
      · intro other ho
        rcases hother rfl with hr | hother
        · simp [hr, secretOf] at ho
        · cases hr : env.removesKey with
          | true => simp [hr, secretOf] at ho
          | false => exact hother other (by simpa [hr] using ho)
  | false =>
    constructor
    · rintro ⟨hkeyring, hfile, hmeta⟩
      exact ⟨hfile id (secretOf_secret id), by simp, fun _ => hkeyring, hmeta⟩
    · rintro ⟨hid, -, hother, hmeta⟩
      refine ⟨hother rfl, ?_, hmeta⟩
      intro other ho
      cases (secretOf_secret id).symm.trans ho
      exact hid

theorem lenCut_iff (s : Slot) (h : s.Clean) (env : SaveEnv) (keyidLen : UInt64) :
    (∀ n, keyidLenOf (lenCut env s.store keyidLen) = some n → s.held.ReturnsLen n) ↔
      (env.opensMeta = true → ∀ n, cutLen keyidLen env.roomMeta = some n → s.held.ReturnsLen n) := by
  unfold lenCut
  cases env.opensMeta with
  | true => simp only [if_true, keyidLenOf_take, forall_const]
  | false => exact iff_of_true h.metaFile (by simp)

/-- A backend that a wipe leaves without a secret. -/
theorem gone_iff (deletes : Bool) (file : Option (List UInt8)) :
    (∀ id, secretOf (if deletes then none else file) = some id → Held.empty.Returns id) ↔
      deletes = true ∨ secretOf file = none := by
  cases deletes with
  | true => exact iff_of_true (fun id hid => by cases hid) (Or.inl rfl)
  | false =>
    constructor
    · intro h
      exact Or.inr (Option.eq_none_iff_forall_ne_some.mpr h)
    · rintro (h | h) id hid
      · cases h
      · cases h.symm.trans hid

theorem clean_save_iff (dir : String) (s : Slot) (h : s.Clean) (env : SaveEnv) (id : Identity)
    (keyidLen : UInt64) (force : Bool) :
    (s.step dir (.save env id keyidLen force)).Clean ↔ s.Kept (.save env id keyidLen force) := by
  rcases save_cases dir env s.store id keyidLen force with
    ⟨hs, e, hsave⟩ | ⟨hs, hcut, e, hsave⟩ | ⟨hs, hcut, hw, e, hsave⟩ | ⟨hs, hcut, hw, location, hsave⟩
  · simp only [step, hsave]
    exact iff_of_true h fun hns => absurd hs hns
  · simp only [step, hsave]
    refine iff_of_true ⟨h.keyring, ?_, h.metaFile⟩ fun _ hnc => absurd hcut hnc
    -- what is cut short is no secret
    intro other ho
    have hlen : (id.secret.toList.take env.roomKey).length ≠ 32 := by
      rw [List.length_take]
      have := hcut.2
      omega
    rw [secretOf_length _ hlen] at ho
    cases ho
  · simp only [step, hsave]
    rw [clean_withSecret_iff]
    have hlen := lenCut_iff s h env keyidLen
    constructor
    · rintro ⟨hid, -, -, hmeta⟩ - -
      exact ⟨fun hwritten => absurd hwritten hw, fun _ => ⟨hid, hlen.mp hmeta⟩⟩
    · intro hk
      obtain ⟨hid, hmeta⟩ := (hk hs hcut).2 hw
      exact ⟨hid, fun _ => Or.inr h.keyFile, fun _ => h.keyring, hlen.mpr hmeta⟩
  · simp only [step, hsave]
    rw [clean_withSecret_iff, keyidLenOf_keyidLenText]
    constructor
    · rintro ⟨-, hfile, hkeyring, -⟩ - -
      exact ⟨fun _ => ⟨hfile, hkeyring⟩, fun hn => absurd hw hn⟩
    · intro hk
      obtain ⟨hfile, hkeyring⟩ := (hk hs hcut).1 hw
      refine ⟨rfl, hfile, hkeyring, ?_⟩
      intro n hn
      cases hn
      rfl

theorem clean_wipe_iff (dir : String) (s : Slot) (h : s.Clean) (env : WipeEnv) :
    (s.step dir (.wipe env)).Clean ↔ s.Kept (.wipe env) := by
  rcases wipe_cases dir env s.store with ⟨hf, e, hwipe⟩ | ⟨hf, removed, hwipe⟩
  · simp only [step, hwipe]
    refine iff_of_true ⟨?_, h.keyFile, h.metaFile⟩ fun hnf => absurd hf hnf
    intro other ho
    cases hd : env.keyringDeletes with
    | true => simp [hd, secretOf] at ho
    | false => exact h.keyring other (by simpa [hd] using ho)
  · simp only [step, hwipe]
    constructor
    · rintro ⟨hkeyring, hfile, -⟩ -
      exact ⟨(gone_iff _ _).mp hkeyring, (gone_iff _ _).mp hfile⟩
    · intro hk
      obtain ⟨hkeyring, hfile⟩ := hk hf
      exact ⟨(gone_iff _ _).mpr hkeyring, (gone_iff _ _).mpr hfile, fun _ _ => trivial⟩

theorem right_iff (dir : String) (s : Slot) (h : s.Clean) (reads : Reads) :
    s.Right dir (.loadKeyidLen reads) ↔ s.Kept (.loadKeyidLen reads) := by
  unfold Right Kept
  simp only [loadKeyidLen_ok_iff]
  cases hr : reads.metaFile with
  | true => exact iff_of_true h.metaFile (Or.inl rfl)
  | false =>
    constructor
    · intro hn
      exact Or.inr (hn _ rfl)
    · rintro (hr | hn) n hd
      · cases hr
      · cases hd
        exact hn

/-- One call from a keystore that is one slot. -/
theorem step_iff (dir : String) (s : Slot) (call : Call) (h : s.Clean) :
    (s.step dir call).Clean ∧ s.Right dir call ↔ s.Kept call := by
  cases call with
  | save env id keyidLen force =>
    exact (and_iff_left trivial).trans (clean_save_iff dir s h env id keyidLen force)
  | wipe env => exact (and_iff_left trivial).trans (clean_wipe_iff dir s h env)
  | load reads => exact iff_of_true ⟨h, ((serves_iff dir s).mpr h reads).1⟩ trivial
  | loadKeyidLen reads => exact (and_iff_right h).trans (right_iff dir s h reads)

/-- **One slot.**  Every later load, and every load of the run, returns what the
slot holds exactly when every call is as `Kept` says. -/
theorem one_slot_iff (dir : String) (store : Keystore) (calls : List Call) :
    Run.Always (step dir) (Serves dir) (start store) calls ∧
        Run.Each (step dir) (Right dir) (start store) calls ↔
      Run.Each (step dir) Kept (start store) calls := by
  apply Run.always_each_iff (step dir) (fun _ => True) (fun _ _ _ => trivial)
  · intro s call _ hs
    rw [serves_iff] at hs ⊢
    exact step_iff dir s call hs
  · trivial
  · exact (serves_iff dir _).mpr (clean_start store)

/-! ## A superseded identity -/

/-- The disk works, and the keyring if it is there. -/
def onDisk (keyring : Bool) : SaveEnv where
  keyringReads := keyring
  seesKey := true
  createsDir := true
  keyringWrites := keyring
  removesKey := true
  opensKey := true
  roomKey := 4096
  opensMeta := true
  roomMeta := 4096

/-- An identity goes to the keyring; while the keyring is away, another one is
saved in its place, to the key file; the keyring comes back. -/
def outage : List Call :=
  [.save (onDisk true) ⟨Vector.replicate 32 1⟩ 26 false,
    .save (onDisk false) ⟨Vector.replicate 32 2⟩ 26 true]

/-- Both saves are `Ok`, the slot holds the second identity, and the first is loaded. -/
theorem superseded_served :
    (Run.run (step home) (start ⟨none, none, none⟩) outage).held =
        .holds ⟨Vector.replicate 32 2⟩ 26 ∧
      McTunnel.load home Reads.all (Run.run (step home) (start ⟨none, none, none⟩) outage).store =
        .ok ⟨Vector.replicate 32 1⟩ ∧
      ¬ Run.Each (step home) (Right home) (start ⟨none, none, none⟩)
        (outage ++ [.load Reads.all]) := by
  refine ⟨rfl, rfl, ?_⟩
  rintro ⟨-, -, hload, -⟩
  have h : (⟨Vector.replicate 32 1⟩ : Identity) = ⟨Vector.replicate 32 2⟩ := hload _ rfl
  have hs : (Vector.replicate 32 (1 : UInt8)) = Vector.replicate 32 2 := congrArg Identity.secret h
  revert hs
  decide

end Slot

end McTunnel
