import McTunnel.Cli.Keystore

/-!
# Owner-only files (`keystore.rs`)

`write_owner_only` step by step, with the permission bits of the file: `open`
gives the mode of a file that it creates, and `write_all` writes as many bytes at
a time as the system takes.  A file that was there keeps its mode:

    write = ok → only the owner can read ↔ a file that was there is private   (owner_only_iff)
    what is written is as in the keystore's model                             (writeSteps_contents)

Unix build.  Nobody else changes the file meanwhile.
-/

namespace McTunnel

/-! ## Code -/

/-- The permission bits of a file: read, write and execute of the owner, of the
group and of others. -/
abbrev Mode := BitVec 9

structure OwnedFile where
  mode : Mode
  contents : List UInt8
deriving DecidableEq

/-- `open` with `write`, `create` and `truncate`: the mode, masked by the umask,
is that of a file it creates. -/
def openTruncate (mode umask : Mode) (prior : Option OwnedFile) : OwnedFile :=
  match prior with
  | none => ⟨mode &&& ~~~umask, []⟩
  | some file => { file with contents := [] }

/-- What a call of `write` returns. -/
inductive WriteResult
  | wrote (n : Nat)
  | interrupted
  | failed

/-- `write_all`: how it ends, if it does, and the file after each write. -/
def writeAll (path : String) (file : OwnedFile) (buf : List UInt8) :
    List WriteResult → Option (Except String Unit) × List OwnedFile
  | [] => (if buf = [] then some (.ok ()) else none, [])
  | result :: results =>
    if buf = [] then (some (.ok ()), [])
    else
      match result with
      | .interrupted => writeAll path file buf results
      | .failed => (some (.error ("writing " ++ path)), [])
      | .wrote n =>
        -- a write of nothing is an error
        if n = 0 then (some (.error ("writing " ++ path)), [])
        else
          let file := { file with contents := file.contents ++ buf.take n }
          let (ended, files) := writeAll path file (buf.drop n) results
          (ended, file :: files)

/-- `write_owner_only`: how it ends, and the file from when it is open. -/
def writeOwnerOnlySteps (path : String) (opens : Bool) (umask : Mode) (results : List WriteResult)
    (prior : Option OwnedFile) (bytes : List UInt8) :
    Option (Except String Unit) × List OwnedFile :=
  if !opens then (some (.error ("creating " ++ path ++ " (0600)")), [])
  else
    let file := openTruncate 0o600 umask prior
    let (ended, files) := writeAll path file bytes results
    (ended, file :: files)

/-- `chunk` written at `offset`; where the file is shorter by then, zeros come before. -/
def writeAt (old : List UInt8) (offset : Nat) (chunk : List UInt8) : List UInt8 :=
  (old ++ List.replicate (offset - old.length) 0).take offset ++ chunk ++
    old.drop (offset + chunk.length)

/-! ## Who can read -/

/-- Nothing is granted to the group or to others. -/
def OwnedFile.Private (file : OwnedFile) : Prop := file.mode &&& 0o077 = 0

/-- The group or others can read. -/
def OwnedFile.Readable (file : OwnedFile) : Prop := file.mode &&& 0o044 ≠ 0

theorem not_readable_of_private (file : OwnedFile) (h : file.Private) : ¬ file.Readable := by
  have hsub : (0o044 : Mode) = 0o077 &&& 0o044 := by decide
  intro hr
  apply hr
  rw [hsub, ← BitVec.and_assoc, h]
  decide

/-- Whatever the umask, a file that is created is private. -/
theorem created_private (umask : Mode) : (openTruncate 0o600 umask none).Private := by
  have hnone : (0o600 : Mode) &&& 0o077 = 0 := by decide
  show (0o600 &&& ~~~umask) &&& 0o077 = 0
  rw [BitVec.and_assoc, BitVec.and_comm (~~~umask), ← BitVec.and_assoc, hnone]
  exact BitVec.zero_and

theorem openTruncate_private_iff (umask : Mode) (prior : Option OwnedFile) :
    (openTruncate 0o600 umask prior).Private ↔ ∀ file, prior = some file → file.Private := by
  cases prior with
  | none =>
    refine iff_of_true (created_private umask) ?_
    intro file h
    cases h
  | some file =>
    constructor
    · intro h file' hf
      cases hf
      exact h
    · intro h
      exact h file rfl

/-! ## What is written -/

/-- Writing leaves the mode alone. -/
theorem writeAll_mode (path : String) (file : OwnedFile) (buf : List UInt8)
    (results : List WriteResult) :
    ∀ f ∈ (writeAll path file buf results).2, f.mode = file.mode := by
  fun_induction writeAll path file buf results with
  | case3 file buf results hb ih => exact ih
  | case6 file buf results hb n hn next ended files hw ih =>
    rw [hw] at ih
    intro f hf
    rcases List.mem_cons.mp hf with rfl | hf
    · rfl
    · exact ih f hf
  | _ =>
    intro f hf
    cases hf

/-- How a `write_all` that has written the first `n` bytes ends. -/
def Ended (path : String) (buf : List UInt8) (n : Nat) (ended : Option (Except String Unit)) : Prop :=
  ended = none ∨ (ended = some (.ok ()) ∧ n = buf.length) ∨
    (ended = some (.error ("writing " ++ path)) ∧ n < buf.length)

theorem take_add_drop (buf : List UInt8) (n m : Nat) :
    buf.take n ++ (buf.drop n).take m = buf.take (min n buf.length + m) := by
  rw [← List.take_add, List.take_eq_take_iff]
  omega

theorem writeAll_contents (path : String) (file : OwnedFile) (buf : List UInt8)
    (results : List WriteResult) :
    ∃ n ≤ buf.length, Ended path buf n (writeAll path file buf results).1 ∧
      (file :: (writeAll path file buf results).2).getLast? =
        some { file with contents := file.contents ++ buf.take n } := by
  fun_induction writeAll path file buf results with
  | case1 file buf =>
    refine ⟨0, by omega, ?_, by simp⟩
    by_cases hb : buf = []
    · right; left
      simp [hb]
    · left
      simp [hb]
  | case2 file result results => exact ⟨0, by omega, Or.inr (Or.inl ⟨rfl, rfl⟩), by simp⟩
  | case3 file buf results hb ih => exact ih
  | case4 file buf results hb =>
    exact ⟨0, by omega, Or.inr (Or.inr ⟨rfl, List.length_pos_of_ne_nil hb⟩), by simp⟩
  | case5 file buf results hb =>
    exact ⟨0, by omega, Or.inr (Or.inr ⟨rfl, List.length_pos_of_ne_nil hb⟩), by simp⟩
  | case6 file buf results hb n hn next ended files hw ih =>
    rw [hw] at ih
    obtain ⟨m, hm, hended, hlast⟩ := ih
    have hlen := hm
    rw [List.length_drop] at hlen
    refine ⟨min n buf.length + m, by omega, ?_, ?_⟩
    · rcases hended with h | ⟨h, hme⟩ | ⟨h, hlt⟩
      · exact Or.inl h
      · rw [List.length_drop] at hme
        exact Or.inr (Or.inl ⟨h, by omega⟩)
      · rw [List.length_drop] at hlt
        exact Or.inr (Or.inr ⟨h, by omega⟩)
    · rw [List.getLast?_cons_cons, hlast, List.append_assoc, take_add_drop]

/-- All along the file has the mode that it was opened with. -/
theorem writeOwnerOnlySteps_mode (path : String) (opens : Bool) (umask : Mode)
    (results : List WriteResult) (prior : Option OwnedFile) (bytes : List UInt8) :
    ∀ f ∈ (writeOwnerOnlySteps path opens umask results prior bytes).2,
      f.mode = (openTruncate 0o600 umask prior).mode := by
  unfold writeOwnerOnlySteps
  intro f hf
  cases opens with
  | false => cases hf
  | true =>
    rcases List.mem_cons.mp hf with rfl | hf
    · rfl
    · exact writeAll_mode _ _ _ _ f hf

/-- The file is left with the beginning of the bytes. -/
theorem writeOwnerOnlySteps_last (path : String) (umask : Mode) (results : List WriteResult)
    (prior : Option OwnedFile) (bytes : List UInt8) :
    ∃ n ≤ bytes.length,
      Ended path bytes n (writeOwnerOnlySteps path true umask results prior bytes).1 ∧
      (writeOwnerOnlySteps path true umask results prior bytes).2.getLast? =
        some { openTruncate 0o600 umask prior with contents := bytes.take n } := by
  have hc : (openTruncate 0o600 umask prior).contents = [] := by
    cases prior <;> rfl
  obtain ⟨n, hn, hended, hlast⟩ := writeAll_contents path (openTruncate 0o600 umask prior) bytes results
  rw [hc, List.nil_append] at hlast
  exact ⟨n, hn, hended, hlast⟩

/-- The keystore's `write_owner_only` is this one with as much room as there was. -/
theorem writeSteps_contents (path : String) (opens : Bool) (umask : Mode)
    (results : List WriteResult) (prior : Option OwnedFile) (bytes : List UInt8)
    (result : Except String Unit)
    (h : (writeOwnerOnlySteps path opens umask results prior bytes).1 = some result) :
    ∃ room, writeOwnerOnly path opens room (prior.map OwnedFile.contents) bytes =
      (result, (((writeOwnerOnlySteps path opens umask results prior bytes).2.getLast?).or prior).map
        OwnedFile.contents) := by
  cases opens with
  | false =>
    refine ⟨0, ?_⟩
    cases h
    rfl
  | true =>
    obtain ⟨n, hn, hended, hlast⟩ := writeOwnerOnlySteps_last path umask results prior bytes
    refine ⟨n, ?_⟩
    rw [hlast]
    unfold Ended at hended
    rw [h] at hended
    rcases hended with hended | ⟨hended, rfl⟩ | ⟨hended, hlt⟩
    · cases hended
    · cases hended
      simp [writeOwnerOnly, writeFile]
    · cases hended
      simp [writeOwnerOnly, writeFile, Nat.not_le.mpr hlt]

/-! ## Writes at an offset -/

theorem writeAt_length (old chunk : List UInt8) : writeAt old old.length chunk = old ++ chunk := by
  have hend : old.drop (old.length + chunk.length) = [] := List.drop_of_length_le (by omega)
  unfold writeAt
  rw [Nat.sub_self, List.replicate_zero, List.append_nil, List.take_length, hend, List.append_nil]

/-- A chunk written where the last one ended. -/
theorem writeAt_take (bytes : List UInt8) (written n : Nat) (h : written ≤ bytes.length) :
    writeAt (bytes.take written) written ((bytes.drop written).take n) =
      bytes.take (written + n) := by
  have hlen : (bytes.take written).length = written := List.length_take_of_le h
  have hat := writeAt_length (bytes.take written) ((bytes.drop written).take n)
  rw [hlen] at hat
  rw [hat, List.take_add]

/-! ## Owner only -/

/-- The file is left with just these bytes, only the owner has access to it, and
at no step others could read any of them. -/
structure OwnerOnly (bytes : List UInt8) (files : List OwnedFile) : Prop where
  written : ∃ file, files.getLast? = some file ∧ file.contents = bytes ∧ file.Private
  never_exposed : ∀ file ∈ files, file.contents ≠ [] → ¬ file.Readable

/-- In a file that was private, or not there, nothing is ever exposed, not even
when the write fails. -/
theorem steps_private (path : String) (opens : Bool) (umask : Mode) (results : List WriteResult)
    (prior : Option OwnedFile) (bytes : List UInt8) (hp : ∀ file, prior = some file → file.Private) :
    ∀ f ∈ (writeOwnerOnlySteps path opens umask results prior bytes).2, f.Private := by
  intro f hf
  unfold OwnedFile.Private
  rw [writeOwnerOnlySteps_mode _ _ _ _ _ _ f hf]
  exact (openTruncate_private_iff umask prior).mpr hp

/-- **A write that returns leaves an owner-only file exactly when a file that
was there before was private.** -/
theorem owner_only_iff (path : String) (opens : Bool) (umask : Mode) (results : List WriteResult)
    (prior : Option OwnedFile) (bytes : List UInt8)
    (h : (writeOwnerOnlySteps path opens umask results prior bytes).1 = some (.ok ())) :
    OwnerOnly bytes (writeOwnerOnlySteps path opens umask results prior bytes).2 ↔
      ∀ file, prior = some file → file.Private := by
  cases opens with
  | false => cases h
  | true =>
    obtain ⟨n, hn, hended, hlast⟩ := writeOwnerOnlySteps_last path umask results prior bytes
    constructor
    · intro ho
      obtain ⟨file, hfile, -, hpriv⟩ := ho.written
      rw [hlast] at hfile
      cases hfile
      exact (openTruncate_private_iff umask prior).mp hpriv
    · intro hp
      have hall := steps_private path true umask results prior bytes hp
      have hbytes : bytes.take n = bytes := by
        rcases hended with he | ⟨-, rfl⟩ | ⟨he, -⟩
        · rw [h] at he
          cases he
        · exact List.take_length
        · rw [h] at he
          cases he
      refine ⟨⟨_, hlast, hbytes, ?_⟩, fun f hf _ => not_readable_of_private f (hall f hf)⟩
      exact (openTruncate_private_iff umask prior).mpr hp

/-! ## A file that was there -/

/-- A control file that a backup tool has restored, readable by all. -/
def restored : OwnedFile where
  mode := 0o644
  contents := Text.asBytes "old"

/-- The usual umask. -/
def umask022 : Mode := 0o022

/-- A new file, written in two pieces. -/
theorem owner_only_new :
    OwnerOnly [1, 2, 3] (writeOwnerOnlySteps "control.json" true umask022
      [.wrote 2, .interrupted, .wrote 1] none [1, 2, 3]).2 :=
  (owner_only_iff "control.json" true umask022 [.wrote 2, .interrupted, .wrote 1] none [1, 2, 3]
    rfl).mpr fun _ h => nomatch h

/-- The write returns, and everybody can read what it wrote. -/
theorem restored_exposed :
    writeOwnerOnlySteps "control.json" true umask022 [.wrote 3] (some restored) [1, 2, 3] =
        (some (.ok ()), [⟨0o644, []⟩, ⟨0o644, [1, 2, 3]⟩]) ∧
      OwnedFile.Readable ⟨0o644, [1, 2, 3]⟩ ∧
      ¬ OwnerOnly [1, 2, 3] (writeOwnerOnlySteps "control.json" true umask022 [.wrote 3]
        (some restored) [1, 2, 3]).2 := by
  have hr : OwnedFile.Readable ⟨0o644, [1, 2, 3]⟩ := by
    unfold OwnedFile.Readable
    decide
  refine ⟨rfl, hr, ?_⟩
  intro h
  exact h.never_exposed ⟨0o644, [1, 2, 3]⟩ (by decide) (by decide) hr

end McTunnel
