import McTunnel.Lib.JsonText
import McTunnel.Lib.Run
import McTunnel.Cli.OwnerOnly

/-!
# The control file (`agent.rs`, `run`)

An agent binds a local port, draws a token, writes both to `control.json` and
serves; when it stops it removes the file.  All agents of one config directory
open and remove the same path, whatever is there.  `open` truncates the file and
`write_all` writes it later, as many bytes at a time as the system takes; any call
may fail, and between two of them other agents act.

    nobody opens or removes control.json while another agent writes it or serves →
      it has the text of a serving agent as long as there is one       (always_leads)
    the writes of one agent go as those of write_all do               (run_writes)

Unix build.
-/

namespace McTunnel

/-! ## Code -/

/-- What `control.json` says. -/
structure Control where
  port : UInt16
  token : String
deriving DecidableEq

/-- What the agent writes to `control.json`. -/
def Control.text (control : Control) : String :=
  JsonText.object [("port", JsonText.writeInt control.port.toNat),
    ("token", JsonText.quote control.token)]

def Control.bytes (control : Control) : List UInt8 := Text.asBytes control.text

abbrev AgentId := Nat

/-- A file, whatever path it has or had. -/
abbrev Inode := Nat

/-- Where an agent's `run` is. -/
inductive AgentAt
  /-- the port is bound and the token drawn -/
  | bound (control : Control)
  /-- the control file is open, and so many bytes of it are written -/
  | writing (control : Control) (file : Inode) (written : Nat)
  /-- the control file is written -/
  | serving (control : Control)
  /-- out of the loop, about to remove the control file -/
  | stopping (control : Control)

/-- The agents of one config directory, who holds a port, and the files that are or
were at the path. -/
structure Agents where
  at' : AgentId → Option AgentAt
  ports : UInt16 → Option AgentId
  /-- the file at the path -/
  file : Option Inode
  contents : Inode → List UInt8
  /-- the next file that is created -/
  fresh : Inode

def Agents.start : Agents where
  at' := fun _ => none
  ports := fun _ => none
  file := none
  contents := fun _ => []
  fresh := 0

inductive ControlStep
  | bind (id : AgentId) (control : Control)
  /-- `open`, with `create` and `truncate` -/
  | openFile (id : AgentId) (ok : Bool)
  /-- a call of `write` in `write_all` -/
  | write (id : AgentId) (result : WriteResult)
  /-- Ctrl-C, or `accept` failed -/
  | stop (id : AgentId)
  | remove (id : AgentId) (ok : Bool)

namespace Agents

def go (s : Agents) (id : AgentId) (a : AgentAt) : Agents :=
  { s with at' := Function.update s.at' id (some a) }

/-- The process ends, and with it its port is free. -/
def exit (s : Agents) (id : AgentId) (control : Control) : Agents :=
  { s with
    at' := Function.update s.at' id none
    ports := Function.update s.ports control.port none }

def put (s : Agents) (file : Inode) (bytes : List UInt8) : Agents :=
  { s with contents := Function.update s.contents file bytes }

def step (s : Agents) (i : ControlStep) : Agents :=
  match i with
  | .bind id control =>
    -- a port in use cannot be bound
    match s.at' id, s.ports control.port with
    | none, none =>
      { s with ports := Function.update s.ports control.port (some id) }.go id (.bound control)
    | _, _ => s
  | .openFile id ok =>
    match s.at' id with
    | some (.bound control) =>
      if ok then
        match s.file with
        | some file => (s.put file []).go id (.writing control file 0)
        | none =>
          ({ s with file := some s.fresh, fresh := s.fresh + 1 }.put s.fresh []).go id
            (.writing control s.fresh 0)
      else s.exit id control
    | _ => s
  | .write id result =>
    match s.at' id with
    | some (.writing control file written) =>
      match result with
      | .interrupted => s
      | .failed => s.exit id control
      | .wrote n =>
        -- a write of nothing is an error
        if n = 0 then s.exit id control
        else
          let chunk := (control.bytes.drop written).take n
          (s.put file (writeAt (s.contents file) written chunk)).go id
            (if control.bytes.length ≤ written + n then .serving control
            else .writing control file (written + n))
    | _ => s
  | .stop id =>
    match s.at' id with
    | some (.serving control) => s.go id (.stopping control)
    | _ => s
  | .remove id ok =>
    match s.at' id with
    -- whether there was a file to remove is not looked at
    | some (.stopping control) => { s with file := if ok then none else s.file }.exit id control
    | _ => s

end Agents

/-! ## What the file is for -/

def Agents.Serves (s : Agents) (id : AgentId) (control : Control) : Prop :=
  s.at' id = some (.serving control)

/-- What is at the path. -/
def Agents.read (s : Agents) : Option (List UInt8) := s.file.map s.contents

/-- While an agent serves, the file is there and is that of an agent that serves. -/
def Agents.Leads (s : Agents) : Prop :=
  (∃ id control, s.Serves id control) →
    ∃ id control, s.Serves id control ∧ s.read = some control.bytes

/-- The agent counts on what it finds at the path: it writes the file, or serves. -/
def AgentAt.Relies : AgentAt → Prop
  | .writing _ _ _ => True
  | .serving _ => True
  | _ => False

/-- Nobody opens the control file or removes it while another agent writes it or
serves. -/
def Apart (s : Agents) (i : ControlStep) : Prop :=
  match i with
  | .openFile id true => ∀ control, s.at' id = some (.bound control) →
      ∀ other a, s.at' other = some a → ¬ a.Relies
  | .remove id true => ∀ control, s.at' id = some (.stopping control) →
      ∀ other a, s.at' other = some a → ¬ a.Relies
  | _ => True

/-- Nobody opens the control file or removes it while another agent serves. -/
def Unserved (s : Agents) (i : ControlStep) : Prop :=
  match i with
  | .openFile id true => ∀ control, s.at' id = some (.bound control) → ∀ other c, ¬ s.Serves other c
  | .remove id true => ∀ control, s.at' id = some (.stopping control) →
      ∀ other c, ¬ s.Serves other c
  | _ => True

/-! ## The writes of one agent -/

/-- Where an agent is whose `write_all` ends so. -/
def WroteAll (control : Control) (file : Inode) (ended : Option (Except String Unit))
    (at' : Option AgentAt) : Prop :=
  match ended with
  | none => ∃ written, at' = some (.writing control file written)
  | some (.ok ()) => at' = some (.serving control)
  | some (.error _) => at' = none

section
variable (s : Agents) (id : AgentId)

/-- An agent that does not write. -/
theorem run_no_writes (h : ∀ control file n, s.at' id ≠ some (.writing control file n))
    (results : List WriteResult) : Run.run Agents.step s (results.map (.write id)) = s := by
  induction results with
  | nil => rfl
  | cons result results ih =>
    have hstep : s.step (.write id result) = s := by
      unfold Agents.step
      dsimp only
      split
      · next control file n hat => exact absurd hat (h control file n)
      · rfl
    rw [List.map_cons, Run.run_cons, hstep, ih]

theorem step_wrote (control : Control) (file : Inode) (written n : Nat)
    (hat : s.at' id = some (.writing control file written)) (hn : n ≠ 0) :
    s.step (.write id (.wrote n)) =
      (s.put file (writeAt (s.contents file) written ((control.bytes.drop written).take n))).go id
        (if control.bytes.length ≤ written + n then .serving control
        else .writing control file (written + n)) := by
  unfold Agents.step
  dsimp only
  rw [hat]
  exact if_neg hn

end

theorem writeAll_nil (path : String) (file : OwnedFile) (results : List WriteResult) :
    writeAll path file [] results = (some (.ok ()), []) := by
  cases results <;> rfl

/-- **The writes are those of `write_all`**, as long as no other agent acts: the agent
serves when it returns, exits when it fails, and the file has what it has written. -/
theorem run_writes (path : String) (mode : Mode) (id : AgentId) (control : Control) (file : Inode)
    (results : List WriteResult) (s : Agents) (written : Nat) (h : written < control.bytes.length)
    (hat : s.at' id = some (.writing control file written))
    (hfile : s.contents file = control.bytes.take written) :
    WroteAll control file
      (writeAll path ⟨mode, s.contents file⟩ (control.bytes.drop written) results).1
      ((Run.run Agents.step s (results.map (.write id))).at' id) ∧
    (Run.run Agents.step s (results.map (.write id))).contents file =
      ((writeAll path ⟨mode, s.contents file⟩ (control.bytes.drop written) results).2.getLastD
        ⟨mode, s.contents file⟩).contents := by
  have hleft : ∀ k, k < control.bytes.length → control.bytes.drop k ≠ [] := by
    intro k hk hnil
    exact absurd (List.drop_eq_nil_iff.mp hnil) (Nat.not_le.mpr hk)
  induction results generalizing s written with
  | nil =>
    unfold writeAll
    rw [if_neg (hleft written h)]
    exact ⟨⟨written, hat⟩, rfl⟩
  | cons result results ih =>
    rw [List.map_cons, Run.run_cons]
    unfold writeAll
    rw [if_neg (hleft written h)]
    -- a failure ends the agent, and its further writes are none
    have hexit : s.step (.write id result) = s.exit id control →
        WroteAll control file (some (.error ("writing " ++ path)))
          ((Run.run Agents.step (s.step (.write id result)) (results.map (.write id))).at' id) ∧
        (Run.run Agents.step (s.step (.write id result)) (results.map (.write id))).contents file =
          s.contents file := by
      intro hstep
      have hgone : (s.exit id control).at' id = none := Function.update_self _ _ _
      rw [hstep, run_no_writes (s.exit id control) id (by rw [hgone]; rintro _ _ _ ⟨⟩)]
      exact ⟨hgone, rfl⟩
    cases result with
    | interrupted =>
      have hstep : s.step (.write id .interrupted) = s := by
        unfold Agents.step
        dsimp only
        rw [hat]
      rw [hstep]
      exact ih s written h hat hfile
    | failed =>
      apply hexit
      unfold Agents.step
      dsimp only
      rw [hat]
    | wrote n =>
      by_cases hn : n = 0
      · dsimp only
        rw [if_pos hn]
        apply hexit
        unfold Agents.step
        dsimp only
        rw [hat]
        exact if_pos hn
      · have hput := step_wrote s id control file written n hat hn
        rw [hfile, writeAt_take _ _ _ (Nat.le_of_lt h)] at hput
        have hnext : (s.step (.write id (.wrote n))).contents file =
            control.bytes.take (written + n) := by
          rw [hput]
          exact Function.update_self _ _ _
        have hat' : (s.step (.write id (.wrote n))).at' id =
            some (if control.bytes.length ≤ written + n then .serving control
              else .writing control file (written + n)) := by
          rw [hput]
          exact Function.update_self _ _ _
        dsimp only
        rw [if_neg hn, List.drop_drop, hfile, ← List.take_add, ← hnext]
        generalize s.step (.write id (.wrote n)) = s' at hnext hat'
        by_cases hend : control.bytes.length ≤ written + n
        · -- all is written, and the agent serves
          rw [if_pos hend] at hat'
          rw [List.drop_of_length_le hend, writeAll_nil,
            run_no_writes s' id (by rw [hat']; rintro _ _ _ ⟨⟩)]
          exact ⟨hat', rfl⟩
        · rw [if_neg hend] at hat'
          obtain ⟨hended, hcontents⟩ := ih s' (written + n) (by omega) hat' hnext
          refine ⟨hended, hcontents.trans ?_⟩
          rw [List.getLastD_cons]

/-! ## The invariant -/

/-- What an agent that relies on the file finds: what it has written so far. -/
def Agents.Finds (s : Agents) (a : AgentAt) : Prop :=
  match a with
  | .writing control file written =>
    s.file = some file ∧ s.contents file = control.bytes.take written ∧
      written ≤ control.bytes.length
  | .serving control => s.read = some control.bytes
  | _ => True

/-- At most one agent relies on the file, and finds there what it has written. -/
def Undisturbed (s : Agents) : Prop :=
  ∀ id a, s.at' id = some a → a.Relies →
    s.Finds a ∧ ∀ other b, s.at' other = some b → b.Relies → other = id

theorem undisturbed_start : Undisturbed Agents.start := by
  rintro id a ⟨⟩

theorem leads_of_undisturbed (s : Agents) (h : Undisturbed s) : s.Leads := by
  rintro ⟨id, control, hs⟩
  exact ⟨id, control, hs, (h id _ hs trivial).1⟩

theorem finds_congr (s s' : Agents) (hfile : s'.file = s.file) (hcontents : s'.contents = s.contents)
    (a : AgentAt) (h : s.Finds a) : s'.Finds a := by
  unfold Agents.Finds Agents.read at h ⊢
  rw [hfile, hcontents]
  exact h

section
variable (s s' : Agents) (id : AgentId) (a : Option AgentAt)
  (hat : s'.at' = Function.update s.at' id a)
include hat

/-- An agent goes on while no other relies on the file. -/
theorem undisturbed_only (hothers : ∀ other b, s.at' other = some b → b.Relies → other = id)
    (ha : ∀ b, a = some b → b.Relies → s'.Finds b) : Undisturbed s' := by
  have hid : ∀ other b, s'.at' other = some b → b.Relies → other = id := by
    intro other b hb hr
    rw [hat] at hb
    rcases (Run.update_iff s.at' id a (· = some b) other).mp hb with ⟨rfl, -⟩ | ⟨-, hb⟩
    · rfl
    · exact hothers other b hb hr
  intro j b hb hr
  obtain rfl := hid j b hb hr
  refine ⟨?_, hid⟩
  rw [hat, Function.update_self] at hb
  exact ha b hb hr

/-- An agent that does not rely on the file leaves it as it is. -/
theorem undisturbed_idle (h : Undisturbed s) (hfile : s'.file = s.file)
    (hcontents : s'.contents = s.contents)
    (ha : ∀ b, a = some b → ¬ b.Relies) : Undisturbed s' := by
  have hold : ∀ other b, s'.at' other = some b → b.Relies → s.at' other = some b := by
    intro other b hb hr
    rw [hat] at hb
    rcases (Run.update_iff s.at' id a (· = some b) other).mp hb with ⟨-, hb⟩ | ⟨-, hb⟩
    · exact absurd hr (ha b hb)
    · exact hb
  intro j b hb hr
  obtain ⟨hfinds, hone⟩ := h j b (hold j b hb hr) hr
  exact ⟨finds_congr s s' hfile hcontents b hfinds, fun other c hc hrc =>
    hone other c (hold other c hc hrc) hrc⟩

end

theorem undisturbed_exit (s : Agents) (h : Undisturbed s) (id : AgentId) (control : Control) :
    Undisturbed (s.exit id control) :=
  undisturbed_idle s _ id none rfl h rfl rfl (by rintro b ⟨⟩)

/-- An agent opens the file. -/
theorem undisturbed_open (s : Agents) (id : AgentId) (ok : Bool) (h : Undisturbed s)
    (happ : Apart s (.openFile id ok)) : Undisturbed (s.step (.openFile id ok)) := by
  unfold Agents.step
  dsimp only
  split
  · next control hat =>
    cases ok with
    | false => exact undisturbed_exit s h id control
    | true =>
      have hothers : ∀ other b, s.at' other = some b → b.Relies → other = id := fun other b hb hr =>
        absurd hr (happ control hat other b hb)
      rw [if_pos rfl]
      split
      · next file hfile =>
        apply undisturbed_only s _ id (some (.writing control file 0)) rfl hothers
        rintro b ⟨⟩ -
        exact ⟨hfile, Function.update_self _ _ _, Nat.zero_le _⟩
      · apply undisturbed_only s _ id (some (.writing control s.fresh 0)) rfl hothers
        rintro b ⟨⟩ -
        exact ⟨rfl, Function.update_self _ _ _, Nat.zero_le _⟩
  · exact h

/-- An agent writes on, or is done. -/
theorem undisturbed_write (s : Agents) (id : AgentId) (result : WriteResult) (h : Undisturbed s) :
    Undisturbed (s.step (.write id result)) := by
  cases hat : s.at' id with
  | none =>
    unfold Agents.step
    dsimp only
    rw [hat]
    exact h
  | some a =>
    cases a with
    | writing control file written =>
      obtain ⟨⟨hfile, hcontents, hle⟩, hone⟩ := h id _ hat trivial
      cases result with
      | wrote n =>
        by_cases hn : n = 0
        · unfold Agents.step
          dsimp only
          rw [hat]
          dsimp only
          rw [if_pos hn]
          exact undisturbed_exit s h id control
        · rw [step_wrote s id control file written n hat hn, hcontents, writeAt_take _ _ _ hle]
          apply undisturbed_only s _ id _ rfl hone
          rintro b hb -
          have hput : (Function.update s.contents file (control.bytes.take (written + n))) file =
              control.bytes.take (written + n) := Function.update_self _ _ _
          by_cases hend : control.bytes.length ≤ written + n
          · rw [if_pos hend] at hb
            cases hb
            show Option.map _ s.file = _
            rw [hfile]
            exact congrArg some (hput.trans (List.take_of_length_le hend))
          · rw [if_neg hend] at hb
            cases hb
            exact ⟨hfile, hput, by omega⟩
      | interrupted =>
        unfold Agents.step
        dsimp only
        rw [hat]
        exact h
      | failed =>
        unfold Agents.step
        dsimp only
        rw [hat]
        exact undisturbed_exit s h id control
    | _ =>
      unfold Agents.step
      dsimp only
      rw [hat]
      exact h

theorem undisturbed_step (s : Agents) (i : ControlStep) (h : Undisturbed s) (happ : Apart s i) :
    Undisturbed (s.step i) := by
  cases i with
  | bind id control =>
    unfold Agents.step
    dsimp only
    split
    · exact undisturbed_idle s _ id (some (.bound control)) rfl h rfl rfl (by rintro b ⟨⟩ hr; exact hr)
    · exact h
  | openFile id ok => exact undisturbed_open s id ok h happ
  | write id result => exact undisturbed_write s id result h
  | stop id =>
    unfold Agents.step
    dsimp only
    split
    · next control hat =>
      exact undisturbed_idle s _ id (some (.stopping control)) rfl h rfl rfl
        (by rintro b ⟨⟩ hr; exact hr)
    · exact h
  | remove id ok =>
    unfold Agents.step
    dsimp only
    split
    · next control hat =>
      cases ok with
      | false => exact undisturbed_idle s _ id none rfl h rfl rfl (by rintro b ⟨⟩)
      | true =>
        apply undisturbed_only s _ id none rfl
        · intro other b hb hr
          exact absurd hr (happ control hat other b hb)
        · rintro b ⟨⟩
    · exact h

/-! ## Who is in the way -/

theorem bytes_ne_nil (control : Control) : control.bytes ≠ [] := by
  intro h
  have htext : control.text = "" := Text.asBytes_inj control.text "" h
  have hlist := congrArg String.toList htext
  rw [Control.text, JsonText.object, String.toList_ofList] at hlist
  cases hlist

/-- An agent that comes between takes the file away. -/
theorem unserved_of_leads (s : Agents) (i : ControlStep) (h : (s.step i).Leads) : Unserved s i := by
  have hserves : ∀ (s' : Agents) (id : AgentId) (a a' : Option AgentAt),
      s'.at' = Function.update s.at' id a' → s.at' id = a → (∀ c, a ≠ some (.serving c)) →
      (∀ control : Control, s'.read ≠ some control.bytes) → s'.Leads →
      ∀ other c, ¬ s.Serves other c := by
    intro s' id a a' hat' hat ha hread hleads other c hs
    have hne : other ≠ id := by
      rintro rfl
      exact ha c (hat.symm.trans hs)
    have hs' : s'.Serves other c := by
      show s'.at' other = _
      rw [hat', Function.update_of_ne hne]
      exact hs
    obtain ⟨_, control, -, hfile⟩ := hleads ⟨other, c, hs'⟩
    exact hread control hfile
  cases i with
  | openFile id ok =>
    cases ok with
    | false => trivial
    | true =>
      intro control hat
      unfold Agents.step at h
      dsimp only at h
      rw [hat] at h
      dsimp only at h
      rw [if_pos rfl] at h
      have hempty : ∀ control : Control, some [] ≠ some control.bytes := fun control hb =>
        bytes_ne_nil control (Option.some.inj hb).symm
      cases hfile : s.file with
      | some file =>
        rw [hfile] at h
        refine hserves _ id _ _ rfl hat (by rintro c ⟨⟩) (fun control => ?_) h
        show Option.map _ s.file ≠ _
        rw [hfile]
        show some (Function.update s.contents file [] file) ≠ _
        rw [Function.update_self]
        exact hempty control
      | none =>
        rw [hfile] at h
        refine hserves _ id _ _ rfl hat (by rintro c ⟨⟩) (fun control => ?_) h
        show some (Function.update s.contents s.fresh [] s.fresh) ≠ _
        rw [Function.update_self]
        exact hempty control
  | remove id ok =>
    cases ok with
    | false => trivial
    | true =>
      intro control hat
      unfold Agents.step at h
      dsimp only at h
      rw [hat] at h
      exact hserves _ id _ _ rfl hat (by rintro c ⟨⟩) (by rintro control ⟨⟩) h
  | _ => trivial

/-! ## Top theorem -/

/-- **`control.json` leads to a serving agent in the runs in which no agent gets in
another's way**: none opens the file or removes it while another writes it or
serves.  And where it always does, at least none opens or removes the file while
another serves. -/
theorem always_leads (l : List ControlStep) :
    (Run.Each Agents.step Apart Agents.start l →
      Run.Always Agents.step Agents.Leads Agents.start l) ∧
    (Run.Always Agents.step Agents.Leads Agents.start l →
      Run.Each Agents.step Unserved Agents.start l) := by
  constructor
  · intro hl l1 l2 hl12
    exact leads_of_undisturbed _ ((Run.always_of_each Agents.step Apart Undisturbed
      undisturbed_step Agents.start undisturbed_start l hl).1 l1 l2 hl12)
  · intro hl
    have heach := (Run.always_iff_each Agents.step (fun s i => (s.step i).Leads) Agents.Leads
      (fun _ _ _ => Iff.rfl) Agents.start (leads_of_undisturbed _ undisturbed_start) l).mp hl
    exact Run.each_mono Agents.step _ Unserved unserved_of_leads Agents.start l heach

/-! ## Two agents -/

/-- The second agent is started while the first serves; when the first stops, it
removes the second one's file. -/
theorem first_stop_removes_second :
    let s := Run.run Agents.step Agents.start [.bind 1 ⟨40001, "a1"⟩, .openFile 1 true,
      .write 1 (.wrote 64), .bind 2 ⟨40002, "b2"⟩, .openFile 2 true, .write 2 (.wrote 64), .stop 1,
      .remove 1 true]
    s.Serves 2 ⟨40002, "b2"⟩ ∧ s.read = none ∧ ¬ s.Leads := by
  have hs : (Run.run Agents.step Agents.start [.bind 1 ⟨40001, "a1"⟩, .openFile 1 true,
      .write 1 (.wrote 64), .bind 2 ⟨40002, "b2"⟩, .openFile 2 true, .write 2 (.wrote 64), .stop 1,
      .remove 1 true]).Serves 2 ⟨40002, "b2"⟩ := by rfl
  refine ⟨hs, rfl, ?_⟩
  intro hl
  obtain ⟨_, _, -, hf⟩ := hl ⟨2, ⟨40002, "b2"⟩, hs⟩
  cases hf

/-- One agent after the other, the second with the disk full at first. -/
def inTurns : List ControlStep :=
  [.bind 1 ⟨40001, "a1"⟩, .openFile 1 true, .write 1 (.wrote 5), .write 1 .interrupted,
    .write 1 (.wrote 64), .stop 1, .remove 1 true, .bind 2 ⟨40001, "b2"⟩, .openFile 2 true,
    .write 2 (.wrote 9), .write 2 .failed, .bind 2 ⟨40002, "b2"⟩, .openFile 2 true,
    .write 2 (.wrote 64)]

/-- An agent that is by itself is in nobody's way. -/
theorem apart_single (s : Agents) (i : ControlStep) (id : AgentId)
    (hi : ∀ other ok, i = .openFile other ok ∨ i = .remove other ok → other = id)
    (h : ∀ other a, s.at' other = some a → other = id) : Apart s i := by
  cases i with
  | openFile j ok =>
    cases ok with
    | false => trivial
    | true =>
      intro control hat other a ha hr
      rw [h other a ha, ← hi j true (Or.inl rfl), hat] at ha
      cases ha
      exact hr
  | remove j ok =>
    cases ok with
    | false => trivial
    | true =>
      intro control hat other a ha hr
      rw [h other a ha, ← hi j true (Or.inr rfl), hat] at ha
      cases ha
      exact hr
  | _ => trivial

theorem always_leads_turns :
    Run.Always Agents.step Agents.Leads Agents.start inTurns ∧
    Run.Each Agents.step Unserved Agents.start inTurns ∧
    (Run.run Agents.step Agents.start inTurns).Serves 2 ⟨40002, "b2"⟩ := by
  have hapart : Run.Each Agents.step Apart Agents.start inTurns := by
    refine ⟨trivial, ?_, trivial, trivial, trivial, trivial, ?_, trivial, ?_, trivial, trivial,
      trivial, ?_, trivial, trivial⟩
    · apply apart_single _ _ 1 (by simp)
      rintro (_ | _ | _ | other) a ha <;> first | rfl | cases ha
    · apply apart_single _ _ 1 (by simp)
      rintro (_ | _ | _ | other) a ha <;> first | rfl | cases ha
    · apply apart_single _ _ 2 (by simp)
      rintro (_ | _ | _ | other) a ha <;> first | rfl | cases ha
    · apply apart_single _ _ 2 (by simp)
      rintro (_ | _ | _ | other) a ha <;> first | rfl | cases ha
  have hleads := (always_leads inTurns).1 hapart
  exact ⟨hleads, (always_leads inTurns).2 hleads, by rfl⟩

end McTunnel
