import McTunnel.Lib.Run

/-!
# Starting the agent (`AgentLauncher.java`)

Each game has one thread at a time in `ensureRunning`; the games of one player
share the directory that the binary is extracted to.  Between any two steps of a
thread other games act, processes end, a game shuts down or is killed.

    a game has at most one agent running                              (one_agent)
-/

namespace McTunnel

abbrev GameId := Nat

abbrev Pid := Nat

abbrev TempId := Nat

/-! ## Code -/

/-- What the jar of a game brings: its version, and the binary for the platform. -/
structure Jar where
  version : String
  binary : Option (List UInt8)

/-- Where the thread that has the monitor of `AgentLauncher` is. -/
inductive LauncherAt
  /-- no thread is in `ensureRunning` -/
  | outside
  | pinging
  /-- about to look whether `process` is alive -/
  | checking
  /-- `extractBinary`, about to look for the file -/
  | looking
  | creating
  | copying (tmp : TempId)
  | moving (tmp : TempId)
  /-- the move failed -/
  | unmoved (tmp : TempId)
  /-- `mc-tunnel name` runs -/
  | naming
  /-- `mc-tunnel init` runs -/
  | initializing
  | launching
  /-- the process is started, the shutdown hook not added -/
  | hooking
  /-- the `i`-th round of `waitReady` -/
  | waiting (i : Nat)

/-- Where a shutdown hook is in `stop`. -/
inductive HookAt
  | ready
  /-- it has destroyed the process and waits for its end -/
  | waits (pid : Pid)
  | done

inductive Life
  | running
  /-- the shutdown hooks run, and so do the threads -/
  | stopping
  | halted

structure Game where
  at' : LauncherAt
  process : Option Pid
  hooks : List HookAt
  life : Life

/-- A process of `mc-tunnel agent`. -/
structure Proc where
  owner : GameId
  binary : List UInt8
  alive : Bool
  /-- `destroyForcibly` was called -/
  forced : Bool

structure Launchers where
  games : GameId → Game
  procs : Pid → Option Proc
  /-- the extracted binaries, by their versions -/
  dest : String → Option (List UInt8)
  temps : TempId → Option (List UInt8)

def Launchers.start : Launchers where
  games := fun _ => ⟨.outside, none, [], .running⟩
  procs := fun _ => none
  dest := fun _ => none
  temps := fun _ => none

inductive LaunchStep
  /-- a thread gets the monitor -/
  | enter (j : GameId)
  | ping (j : GameId) (ok : Bool)
  | check (j : GameId)
  | look (j : GameId)
  | create (j : GameId) (tmp : TempId)
  /-- `Files.copy` has written so many bytes -/
  | copy (j : GameId) (n : Nat)
  | copied (j : GameId)
  | move (j : GameId) (ok : Bool)
  /-- looks again, after a move that failed -/
  | again (j : GameId)
  /-- the command that runs has exited -/
  | ran (j : GameId) (ok : Bool)
  | start (j : GameId) (pid : Pid)
  | hook (j : GameId)
  /-- an exception -/
  | throw (j : GameId)
  /-- the process ends -/
  | die (pid : Pid)
  | shutdown (j : GameId)
  /-- the `i`-th hook begins -/
  | stop (j : GameId) (i : Nat)
  /-- the process has ended, or two seconds are over -/
  | stopped (j : GameId) (i : Nat)
  | halt (j : GameId)
  /-- the game is killed -/
  | crash (j : GameId)

namespace Launchers

def setGame (s : Launchers) (j : GameId) (g : Game) : Launchers :=
  { s with games := Function.update s.games j g }

def go (s : Launchers) (j : GameId) (a : LauncherAt) : Launchers :=
  s.setGame j { s.games j with at' := a }

/-- `process != null && process.isAlive()`. -/
def runs (s : Launchers) (j : GameId) : Bool :=
  match (s.games j).process with
  | none => false
  | some pid => (s.procs pid).any Proc.alive

/-- After a ping of `waitReady` that was not answered. -/
def nextRound (s : Launchers) (j : GameId) (i : Nat) : LauncherAt :=
  if (s.games j).process.isSome && !s.runs j then .outside
  else if i + 1 < 20 then .waiting (i + 1)
  else .outside

def setHook (s : Launchers) (j : GameId) (i : Nat) (h : HookAt) : Launchers :=
  s.setGame j { s.games j with hooks := (s.games j).hooks.set i h }

def setProc (s : Launchers) (pid : Pid) (p : Proc) : Launchers :=
  { s with procs := Function.update s.procs pid (some p) }

/-- All hooks have returned. -/
def hooksDone (s : Launchers) (j : GameId) : Bool :=
  (s.games j).hooks.all fun h => match h with
    | .done => true
    | _ => false

def stepLaunch (jars : GameId → Jar) (s : Launchers) (e : LaunchStep) : Launchers :=
  match e with
  | .enter j =>
    match (s.games j).at', (s.games j).life with
    | .outside, .running => s.go j .pinging
    | .outside, .stopping => s.go j .pinging
    | _, _ => s
  | .ping j ok =>
    match (s.games j).at' with
    | .pinging => s.go j (if ok then .outside else .checking)
    | .waiting i => s.go j (if ok then .outside else s.nextRound j i)
    | _ => s
  | .check j =>
    match (s.games j).at' with
    | .checking => s.go j (if s.runs j then .outside else .looking)
    | _ => s
  | .look j =>
    match (s.games j).at' with
    | .looking => s.go j (if (s.dest (jars j).version).isSome then .naming else .creating)
    | _ => s
  | .create j tmp =>
    match (s.games j).at', s.temps tmp with
    | .creating, none => { s with temps := Function.update s.temps tmp (some []) }.go j (.copying tmp)
    | _, _ => s
  | .copy j n =>
    match (s.games j).at', (jars j).binary with
    | .copying tmp, some binary =>
      { s with temps := Function.update s.temps tmp (some (binary.take n)) }
    | _, _ => s
  | .copied j =>
    match (s.games j).at' with
    | .copying tmp =>
      match (jars j).binary with
      -- no binary shipped for this platform
      | none => { s with temps := Function.update s.temps tmp none }.go j .outside
      | some binary =>
        { s with temps := Function.update s.temps tmp (some binary) }.go j (.moving tmp)
    | _ => s
  | .move j ok =>
    match (s.games j).at' with
    | .moving tmp =>
      if ok then
        { s with
          dest := Function.update s.dest (jars j).version (s.temps tmp)
          temps := Function.update s.temps tmp none }.go j .naming
      else s.go j (.unmoved tmp)
    | _ => s
  | .again j =>
    match (s.games j).at' with
    | .unmoved tmp =>
      { s with temps := Function.update s.temps tmp none }.go j
        (if (s.dest (jars j).version).isSome then .naming else .outside)
    | _ => s
  | .ran j ok =>
    match (s.games j).at' with
    | .naming => s.go j (if ok then .launching else .initializing)
    | .initializing => s.go j (if ok then .launching else .outside)
    | _ => s
  | .start j pid =>
    match (s.games j).at', s.procs pid, s.dest (jars j).version with
    | .launching, none, some binary =>
      (s.setProc pid ⟨j, binary, true, false⟩).setGame j
        { s.games j with at' := .hooking, process := some pid }
    | .launching, none, none => s.go j .outside
    | _, _, _ => s
  | .hook j =>
    match (s.games j).at', (s.games j).life with
    | .hooking, .running =>
      s.setGame j { s.games j with at' := .waiting 0, hooks := (s.games j).hooks ++ [.ready] }
    -- `IllegalStateException`
    | .hooking, _ => s.go j .outside
    | _, _ => s
  | .throw j =>
    match (s.games j).at' with
    -- what `addShutdownHook` throws is above
    | .hooking => s
    | _ => s.go j .outside
  | .die pid =>
    match s.procs pid with
    | some p => s.setProc pid { p with alive := false }
    | none => s
  | .shutdown j =>
    match (s.games j).life with
    | .running => s.setGame j { s.games j with life := .stopping }
    | _ => s
  | .stop j i =>
    match (s.games j).life, (s.games j).hooks[i]? with
    | .stopping, some .ready =>
      match (s.games j).process with
      | none => s.setHook j i .done
      | some pid => s.setHook j i (if s.runs j then .waits pid else .done)
    | _, _ => s
  | .stopped j i =>
    match (s.games j).hooks[i]? with
    | some (.waits pid) =>
      match s.procs pid with
      | some p => (if p.alive then s.setProc pid { p with forced := true } else s).setHook j i .done
      | none => s
    | _ => s
  | .halt j =>
    match (s.games j).life with
    | .stopping =>
      if s.hooksDone j then s.setGame j { s.games j with at' := .outside, life := .halted } else s
    | _ => s
  | .crash j => s.setGame j { s.games j with at' := .outside, life := .halted }

end Launchers

def LauncherAt.temp : LauncherAt → Option TempId
  | .copying tmp => some tmp
  | .moving tmp => some tmp
  | .unmoved tmp => some tmp
  | _ => none

/-! ## What a step does -/

/-- Where a thread goes without touching a file or a process. -/
inductive Route (jars : GameId → Jar) (s : Launchers) (e : LaunchStep) (i : GameId) :
    LauncherAt → LauncherAt → Prop
  | enter : (s.games i).life ≠ .halted → Route jars s e i .outside .pinging
  | leave (a : LauncherAt) : a ≠ .hooking → Route jars s e i a .outside
  | check : Route jars s e i .pinging .checking
  | look : s.runs i = false → Route jars s e i .checking .looking
  | found : (s.dest (jars i).version).isSome = true → Route jars s e i .looking .naming
  | absent : Route jars s e i .looking .creating
  | unmoved (tmp : TempId) : Route jars s e i (.moving tmp) (.unmoved tmp)
  | named : e = .ran i true → Route jars s e i .naming .launching
  | unnamed : e = .ran i false → Route jars s e i .naming .initializing
  | initialized : e = .ran i true → Route jars s e i .initializing .launching
  | wait (k : Nat) : Route jars s e i (.waiting k) (.waiting (k + 1))

/-- The steps of the games. -/
inductive Launches (jars : GameId → Jar) (s : Launchers) : LaunchStep → Launchers → Prop
  | nothing (e : LaunchStep) : Launches jars s e s
  | goes (e : LaunchStep) (i : GameId) (a b : LauncherAt) : (s.games i).at' = a →
      Route jars s e i a b → Launches jars s e (s.go i b)
  | create (i : GameId) (tmp : TempId) : (s.games i).at' = .creating → s.temps tmp = none →
      Launches jars s (.create i tmp)
        ({ s with temps := Function.update s.temps tmp (some []) }.go i (.copying tmp))
  | copy (i : GameId) (n : Nat) (tmp : TempId) (binary : List UInt8) :
      (s.games i).at' = .copying tmp → (jars i).binary = some binary →
      Launches jars s (.copy i n)
        { s with temps := Function.update s.temps tmp (some (binary.take n)) }
  | filled (i : GameId) (tmp : TempId) (binary : List UInt8) : (s.games i).at' = .copying tmp →
      (jars i).binary = some binary → Launches jars s (.copied i)
        ({ s with temps := Function.update s.temps tmp (some binary) }.go i (.moving tmp))
  | move (i : GameId) (tmp : TempId) : (s.games i).at' = .moving tmp → Launches jars s (.move i true)
      ({ s with
        dest := Function.update s.dest (jars i).version (s.temps tmp)
        temps := Function.update s.temps tmp none }.go i .naming)
  /-- the temporary file is given up -/
  | drop (e : LaunchStep) (i : GameId) (tmp : TempId) (b : LauncherAt) :
      (s.games i).at'.temp = some tmp →
      (b = .outside ∨ (b = .naming ∧ (s.dest (jars i).version).isSome = true)) →
      Launches jars s e ({ s with temps := Function.update s.temps tmp none }.go i b)
  | start (i : GameId) (pid : Pid) (binary : List UInt8) : (s.games i).at' = .launching →
      s.procs pid = none → s.dest (jars i).version = some binary →
      Launches jars s (.start i pid) ((s.setProc pid ⟨i, binary, true, false⟩).setGame i
        { s.games i with at' := .hooking, process := some pid })
  | hook (i : GameId) : (s.games i).at' = .hooking → (s.games i).life = .running →
      Launches jars s (.hook i) (s.setGame i
        { s.games i with at' := .waiting 0, hooks := (s.games i).hooks ++ [.ready] })
  | unhooked (i : GameId) : (s.games i).at' = .hooking → (s.games i).life ≠ .running →
      Launches jars s (.hook i) (s.go i .outside)
  | die (pid : Pid) (p : Proc) : s.procs pid = some p →
      Launches jars s (.die pid) (s.setProc pid { p with alive := false })
  | shutdown (i : GameId) : (s.games i).life = .running →
      Launches jars s (.shutdown i) (s.setGame i { s.games i with life := .stopping })
  | stop (i : GameId) (k : Nat) (b : HookAt) : (s.games i).life = .stopping →
      (s.games i).hooks[k]? = some .ready →
      (∀ pid, (s.games i).process = some pid → s.runs i = true → b = .waits pid) →
      Launches jars s (.stop i k) (s.setHook i k b)
  | force (i : GameId) (k : Nat) (pid : Pid) (p : Proc) : (s.games i).hooks[k]? = some (.waits pid) →
      s.procs pid = some p → Launches jars s (.stopped i k)
        ((s.setProc pid { p with forced := true }).setHook i k .done)
  | ended (i : GameId) (k : Nat) (pid : Pid) (p : Proc) : (s.games i).hooks[k]? = some (.waits pid) →
      s.procs pid = some p → p.alive = false → Launches jars s (.stopped i k) (s.setHook i k .done)
  | halt (i : GameId) : (s.games i).life = .stopping → s.hooksDone i = true →
      Launches jars s (.halt i) (s.setGame i { s.games i with at' := .outside, life := .halted })
  | crash (i : GameId) :
      Launches jars s (.crash i) (s.setGame i { s.games i with at' := .outside, life := .halted })

section
variable (jars : GameId → Jar) (s : Launchers)

/-- A ping that `waitReady` gets no answer to. -/
theorem route_nextRound (e : LaunchStep) (i : GameId) (k : Nat) :
    Route jars s e i (.waiting k) (s.nextRound i k) := by
  unfold Launchers.nextRound
  split
  · exact .leave _ (by rintro ⟨⟩)
  · split
    · exact .wait k
    · exact .leave _ (by rintro ⟨⟩)

theorem launches_step (e : LaunchStep) : Launches jars s e (s.stepLaunch jars e) := by
  have hnothing : Launches jars s e s := Launches.nothing e
  unfold Launchers.stepLaunch
  cases e with
  | enter i =>
    dsimp only
    split
    · next hat hlife => exact .goes _ i _ _ hat (.enter (by rw [hlife]; rintro ⟨⟩))
    · next hat hlife => exact .goes _ i _ _ hat (.enter (by rw [hlife]; rintro ⟨⟩))
    · exact hnothing
  | ping i ok =>
    dsimp only
    split
    · next hat =>
      cases ok with
      | true => exact .goes _ i _ _ hat (.leave _ (by rintro ⟨⟩))
      | false => exact .goes _ i _ _ hat .check
    · next k hat =>
      cases ok with
      | true => exact .goes _ i _ _ hat (.leave _ (by rintro ⟨⟩))
      | false => exact .goes _ i _ _ hat (route_nextRound jars s _ i k)
    · exact hnothing
  | check i =>
    dsimp only
    split
    · next hat =>
      cases hr : s.runs i with
      | true => exact .goes _ i _ _ hat (.leave _ (by rintro ⟨⟩))
      | false => exact .goes _ i _ _ hat (.look hr)
    · exact hnothing
  | look i =>
    dsimp only
    split
    · next hat =>
      cases hd : (s.dest (jars i).version).isSome with
      | true => exact .goes _ i _ _ hat (.found hd)
      | false => exact .goes _ i _ _ hat .absent
    · exact hnothing
  | create i tmp =>
    dsimp only
    split
    · next hat hfree => exact .create i tmp hat hfree
    · exact hnothing
  | copy i n =>
    dsimp only
    split
    · next tmp binary hat hb => exact .copy i n tmp binary hat hb
    · exact hnothing
  | copied i =>
    dsimp only
    split
    · next tmp hat =>
      split
      · exact .drop _ i tmp _ (by rw [hat]; rfl) (Or.inl rfl)
      · next binary hb => exact .filled i tmp binary hat hb
    · exact hnothing
  | move i ok =>
    dsimp only
    split
    · next tmp hat =>
      cases ok with
      | true => exact .move i tmp hat
      | false => exact .goes _ i _ _ hat (.unmoved tmp)
    · exact hnothing
  | again i =>
    dsimp only
    split
    · next tmp hat =>
      refine .drop _ i tmp _ (by rw [hat]; rfl) ?_
      cases hd : (s.dest (jars i).version).isSome with
      | true => exact Or.inr ⟨rfl, rfl⟩
      | false => exact Or.inl rfl
    · exact hnothing
  | ran i ok =>
    dsimp only
    split
    · next hat =>
      cases ok with
      | true => exact .goes _ i _ _ hat (.named rfl)
      | false => exact .goes _ i _ _ hat (.unnamed rfl)
    · next hat =>
      cases ok with
      | true => exact .goes _ i _ _ hat (.initialized rfl)
      | false => exact .goes _ i _ _ hat (.leave _ (by rintro ⟨⟩))
    · exact hnothing
  | start i pid =>
    dsimp only
    split
    · next binary hat hpid hdest => exact .start i pid binary hat hpid hdest
    · next hat _ _ => exact .goes _ i _ _ hat (.leave _ (by rintro ⟨⟩))
    · exact hnothing
  | hook i =>
    dsimp only
    split
    · next hat hlife => exact .hook i hat hlife
    · next hat hlife => exact .unhooked i hat hlife
    · exact hnothing
  | throw i =>
    dsimp only
    split
    · exact hnothing
    · next hat => exact .goes _ i _ _ rfl (.leave _ hat)
  | die pid =>
    dsimp only
    split
    · next p hp => exact .die pid p hp
    · exact hnothing
  | shutdown i =>
    dsimp only
    split
    · next hlife => exact .shutdown i hlife
    · exact hnothing
  | stop i k =>
    dsimp only
    split
    · next hlife hk =>
      split
      · next hnone => exact .stop i k .done hlife hk fun pid hpid => nomatch hnone.symm.trans hpid
      · next pid hpid =>
        refine .stop i k _ hlife hk fun q hq hr => ?_
        cases hpid.symm.trans hq
        rw [hr]
        rfl
    · exact hnothing
  | stopped i k =>
    dsimp only
    split
    · next pid hk =>
      split
      · next p hp =>
        split
        · exact .force i k pid p hk hp
        · next hl => exact .ended i k pid p hk hp (Bool.not_eq_true _ ▸ hl)
      · exact hnothing
    · exact hnothing
  | halt i =>
    dsimp only
    split
    · next hlife =>
      split
      · next hdone => exact .halt i hlife hdone
      · exact hnothing
    · exact hnothing
  | crash i => exact .crash i

end

/-! ## One agent a game -/

/-- The thread has seen that no process of its own runs. -/
def LauncherAt.clear : LauncherAt → Bool
  | .looking => true
  | .creating => true
  | .copying _ => true
  | .moving _ => true
  | .unmoved _ => true
  | .naming => true
  | .initializing => true
  | .launching => true
  | _ => false

/-- A live process is the `process` of its game; a thread starts one when there is none. -/
structure OneEach (s : Launchers) : Prop where
  own : ∀ pid p, s.procs pid = some p → p.alive = true → (s.games p.owner).process = some pid
  idle : ∀ j, (s.games j).at'.clear = true → s.runs j = false
  known : ∀ j pid, (s.games j).process = some pid → ∃ p, s.procs pid = some p

theorem oneEach_start : OneEach Launchers.start where
  own := by rintro pid p ⟨⟩
  idle := by rintro j ⟨⟩
  known := by rintro j pid ⟨⟩

section
variable (jars : GameId → Jar) (s : Launchers)

theorem games_setGame (j i : GameId) (g : Game) :
    (s.setGame j g).games i = if i = j then g else s.games i := by
  show Function.update s.games j g i = _
  rw [Function.update_apply]

theorem runs_iff (j : GameId) : s.runs j = true ↔
    ∃ pid p, (s.games j).process = some pid ∧ s.procs pid = some p ∧ p.alive = true := by
  unfold Launchers.runs
  cases hpid : (s.games j).process with
  | none => exact iff_of_false Bool.false_ne_true (by rintro ⟨_, _, ⟨⟩, -⟩)
  | some pid =>
    dsimp only
    cases hp : s.procs pid with
    | none =>
      refine iff_of_false Bool.false_ne_true ?_
      rintro ⟨_, p, ⟨⟩, hp', -⟩
      cases hp.symm.trans hp'
    | some p =>
      constructor
      · intro h
        exact ⟨pid, p, rfl, hp, h⟩
      · rintro ⟨_, p', ⟨⟩, hp', h⟩
        cases hp.symm.trans hp'
        exact h

theorem route_clear {e : LaunchStep} (i : GameId) (a b : LauncherAt)
    (h : Route jars s e i a b) (hb : b.clear = true) : a.clear = true ∨ s.runs i = false := by
  cases h with
  | look hr => exact Or.inr hr
  | found => exact Or.inl rfl
  | absent => exact Or.inl rfl
  | unmoved => exact Or.inl rfl
  | named => exact Or.inl rfl
  | unnamed => exact Or.inl rfl
  | initialized => exact Or.inl rfl
  | _ => cases hb

variable (h : OneEach s)
include h

/-- No process changes, and a game goes on with the one it has. -/
theorem oneEach_setGame (s1 : Launchers) (j : GameId) (g : Game) (hp : s1.procs = s.procs)
    (hg : s1.games = s.games) (hprocess : g.process = (s.games j).process)
    (hclear : g.at'.clear = true → (s.games j).at'.clear = true ∨ s.runs j = false) :
    OneEach (s1.setGame j g) := by
  have hprocs : (s1.setGame j g).procs = s.procs := hp
  have hsame : ∀ i, ((s1.setGame j g).games i).process = (s.games i).process := by
    intro i
    rw [games_setGame, hg]
    split
    · next hi => rw [hi, hprocess]
    · rfl
  have hruns : ∀ i, (s1.setGame j g).runs i = s.runs i := by
    intro i
    unfold Launchers.runs
    rw [hsame, hprocs]
  refine ⟨?_, ?_, ?_⟩
  · intro pid p hpid hl
    rw [hprocs] at hpid
    rw [hsame]
    exact h.own pid p hpid hl
  · intro i hi
    rw [hruns]
    rw [games_setGame, hg] at hi
    split at hi
    · next he =>
      rw [he]
      exact (hclear hi).elim (h.idle j) id
    · exact h.idle i hi
  · intro i pid hi
    rw [hsame] at hi
    rw [hprocs]
    exact h.known i pid hi

theorem oneEach_go (s1 : Launchers) (j : GameId) (a : LauncherAt) (hp : s1.procs = s.procs)
    (hg : s1.games = s.games)
    (hclear : a.clear = true → (s.games j).at'.clear = true ∨ s.runs j = false) :
    OneEach (s1.go j a) := by
  unfold Launchers.go
  rw [hg]
  exact oneEach_setGame s h s1 j { s.games j with at' := a } hp hg rfl hclear

/-- The thread that has seen no process starts one. -/
theorem oneEach_launched (j : GameId) (pid : Pid) (binary : List UInt8)
    (hat : (s.games j).at' = .launching) (hpid : s.procs pid = none) :
    OneEach ((s.setProc pid ⟨j, binary, true, false⟩).setGame j
      { s.games j with at' := .hooking, process := some pid }) := by
  have hgame := games_setGame (s.setProc pid ⟨j, binary, true, false⟩) j
  have hnone : s.runs j = false := h.idle j (by rw [hat]; rfl)
  have hother : ∀ i q, (s.games i).process = some q → q ≠ pid := by
    rintro i q hq rfl
    obtain ⟨p, hp⟩ := h.known i q hq
    cases hpid.symm.trans hp
  refine ⟨?_, ?_, ?_⟩
  · intro q p hp hl
    rw [hgame]
    rcases (Run.update_iff s.procs pid (some ⟨j, binary, true, false⟩) (· = some p) q).mp hp with
      ⟨rfl, hnew⟩ | ⟨-, hold⟩
    · cases hnew
      rw [if_pos rfl]
    · have hq := h.own q p hold hl
      split
      · next ho =>
        -- the old one would be running
        rw [ho] at hq
        have hruns := (runs_iff s j).mpr ⟨q, p, hq, hold, hl⟩
        rw [hnone] at hruns
        cases hruns
      · exact hq
  · intro i hi
    rw [hgame] at hi
    split at hi
    · cases hi
    · next hne =>
      rw [← Bool.not_eq_true, runs_iff]
      rintro ⟨q, p, hq, hp, hl⟩
      rw [hgame, if_neg hne] at hq
      have hold : s.procs q = some p := by
        have hp : Function.update s.procs pid (some ⟨j, binary, true, false⟩) q = some p := hp
        rwa [Function.update_of_ne (hother i q hq)] at hp
      have hruns := (runs_iff s i).mpr ⟨q, p, hq, hold, hl⟩
      rw [h.idle i hi] at hruns
      cases hruns
  · intro i q hq
    by_cases hne : q = pid
    · exact ⟨_, by rw [hne]; exact Function.update_self _ _ _⟩
    · rw [hgame] at hq
      split at hq
      · cases hq
        exact absurd rfl hne
      · obtain ⟨p, hp⟩ := h.known i q hq
        exact ⟨p, (Function.update_of_ne hne _ _).trans hp⟩

/-- A process ends, or is destroyed by force. -/
theorem oneEach_setProc (pid : Pid) (p p' : Proc) (hp : s.procs pid = some p)
    (howner : p'.owner = p.owner) (halive : p'.alive = true → p.alive = true) :
    OneEach (s.setProc pid p') := by
  have hback : ∀ q r, (s.setProc pid p').procs q = some r → r.alive = true →
      ∃ r', s.procs q = some r' ∧ r'.owner = r.owner ∧ r'.alive = true := by
    intro q r hr hl
    rcases (Run.update_iff s.procs pid (some p') (· = some r) q).mp hr with ⟨rfl, hnew⟩ | ⟨-, hold⟩
    · cases hnew
      exact ⟨p, hp, howner.symm, halive hl⟩
    · exact ⟨r, hold, rfl, hl⟩
  refine ⟨?_, ?_, ?_⟩
  · intro q r hr hl
    obtain ⟨r', hr', ho, hl'⟩ := hback q r hr hl
    rw [← ho]
    show (s.games r'.owner).process = some q
    exact h.own q r' hr' hl'
  · intro i hi
    rw [← Bool.not_eq_true, runs_iff]
    rintro ⟨q, r, hq, hr, hl⟩
    obtain ⟨r', hr', -, hl'⟩ := hback q r hr hl
    have hruns := (runs_iff s i).mpr ⟨q, r', hq, hr', hl'⟩
    rw [h.idle i hi] at hruns
    cases hruns
  · intro i q hq
    obtain ⟨r, hr⟩ := h.known i q hq
    by_cases hne : q = pid
    · exact ⟨p', by rw [hne]; exact Function.update_self _ _ _⟩
    · exact ⟨r, (Function.update_of_ne hne _ _).trans hr⟩

theorem oneEach_setHook (j : GameId) (k : Nat) (b : HookAt) :
    OneEach (s.setHook j k b) :=
  oneEach_setGame s h s j _ rfl rfl rfl fun hb => Or.inl hb

theorem oneEach_step (e : LaunchStep) : OneEach (s.stepLaunch jars e) := by
  have hdoes := launches_step jars s e
  generalize s.stepLaunch jars e = s' at hdoes
  cases hdoes with
  | nothing => exact h
  | goes e i a b hat hroute =>
    refine oneEach_go s h s i b rfl rfl fun hb => ?_
    rw [hat]
    exact route_clear jars s i a b hroute hb
  | create i tmp hat => exact oneEach_go s h _ i _ rfl rfl fun _ => Or.inl (by rw [hat]; rfl)
  | copy i n tmp binary => exact ⟨h.own, h.idle, h.known⟩
  | filled i tmp binary hat => exact oneEach_go s h _ i _ rfl rfl fun _ => Or.inl (by rw [hat]; rfl)
  | move i tmp hat => exact oneEach_go s h _ i _ rfl rfl fun _ => Or.inl (by rw [hat]; rfl)
  | drop e i tmp b hat hb =>
    refine oneEach_go s h _ i _ rfl rfl fun _ => Or.inl ?_
    cases ha : (s.games i).at' <;> rw [ha] at hat <;> first | rfl | cases hat
  | start i pid binary hat hpid => exact oneEach_launched s h i pid binary hat hpid
  | hook i => exact oneEach_setGame s h s i _ rfl rfl rfl (by rintro ⟨⟩)
  | unhooked i => exact oneEach_go s h s i _ rfl rfl (by rintro ⟨⟩)
  | die pid p hp => exact oneEach_setProc s h pid p _ hp rfl (by rintro ⟨⟩)
  | shutdown i => exact oneEach_setGame s h s i _ rfl rfl rfl fun hb => Or.inl hb
  | stop i k b => exact oneEach_setHook s h i k b
  | force i k pid p _ hp =>
    exact oneEach_setHook _ (oneEach_setProc s h pid p { p with forced := true } hp rfl id) i k .done
  | ended i k => exact oneEach_setHook s h i k .done
  | halt i => exact oneEach_setGame s h s i _ rfl rfl rfl (by rintro ⟨⟩)
  | crash i => exact oneEach_setGame s h s i _ rfl rfl rfl (by rintro ⟨⟩)

end

section
variable (jars : GameId → Jar)

theorem oneEach_run (l : List LaunchStep) :
    OneEach (Run.run (Launchers.stepLaunch jars) Launchers.start l) :=
  Run.run_invariant (Launchers.stepLaunch jars) OneEach (fun s e h => oneEach_step jars s h e) _
    oneEach_start l

/-- **One agent a game**: in every run, whatever the pings find and whenever
processes end, of the processes a game has started at most one is alive, and it is
the one that the game would stop. -/
theorem one_agent (l : List LaunchStep) (pid pid' : Pid) (p p' : Proc)
    (hp : (Run.run (Launchers.stepLaunch jars) Launchers.start l).procs pid = some p)
    (hp' : (Run.run (Launchers.stepLaunch jars) Launchers.start l).procs pid' = some p')
    (hl : p.alive = true) (hl' : p'.alive = true) (howner : p.owner = p'.owner) :
    pid = pid' ∧
      ((Run.run (Launchers.stepLaunch jars) Launchers.start l).games p.owner).process = some pid := by
  have h := oneEach_run jars l
  have hown := h.own pid p hp hl
  have hown' := h.own pid' p' hp' hl'
  rw [howner] at hown
  refine ⟨Option.some.inj (hown.symm.trans hown'), ?_⟩
  rw [howner]
  exact hown

end

namespace Sample

def jars (_ : GameId) : Jar := ⟨"0.1.0", some [0x7f, 0x45]⟩

/-- A first start, up to the process. -/
def launching : List LaunchStep :=
  [.enter 0, .ping 0 false, .check 0, .look 0, .create 0 5, .copy 0 1, .copied 0, .move 0 true,
    .ran 0 false, .ran 0 true, .start 0 100]

/-- The process ends while the game waits for it, and the game starts another. -/
def relaunching : List LaunchStep :=
  launching ++ [.hook 0, .die 100, .ping 0 false, .enter 0, .ping 0 false, .check 0, .look 0,
    .ran 0 true, .start 0 101]

end Sample

theorem one_agent_launched :
    (Run.run (Launchers.stepLaunch Sample.jars) Launchers.start Sample.relaunching).procs 100 =
      some ⟨0, [0x7f, 0x45], false, false⟩ ∧
    ((Run.run (Launchers.stepLaunch Sample.jars) Launchers.start
      Sample.relaunching).games 0).process = some 101 :=
  ⟨rfl, (one_agent Sample.jars Sample.relaunching 101 101 ⟨0, [0x7f, 0x45], true, false⟩
    ⟨0, [0x7f, 0x45], true, false⟩ rfl rfl rfl rfl rfl).2⟩

end McTunnel
