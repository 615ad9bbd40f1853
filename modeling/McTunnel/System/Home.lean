import McTunnel.Cli.Profile
import McTunnel.Mod.AgentLauncher

/-!
# The first run (`AgentLauncher.java` and `main.rs`)

The games of a player run `mc-tunnel` in one directory.  Before one starts an agent it
runs `name`, and if that fails `init`; the agent loads the identity on its own, some
time later.  Meanwhile other games do the same, and the player types commands; every
process makes its calls on the keystore one by one.

    an agent that a game starts has an identity, all have the same      (agents_serve)
-/

namespace McTunnel

/-! ## The whole -/

/-- The games, the processes of `mc-tunnel` and the keystore. -/
structure Home where
  launchers : Launchers
  profile : Profile
  /-- the command whose end a game waits for -/
  waits : GameId → Option Pid

inductive HomeStep
  /-- what a launcher does but to run a command -/
  | game (e : LaunchStep)
  /-- a game runs `mc-tunnel name` -/
  | name (j : GameId) (pid : Pid)
  /-- a game runs `mc-tunnel init` -/
  | init (j : GameId) (pid : Pid)
  /-- a command of a game ends before it does anything -/
  | fail (j : GameId)
  /-- a game sees that its command has exited -/
  | exited (j : GameId)
  /-- an agent begins to load the identity -/
  | serve (pid : Pid)
  /-- a process goes on, or is a command of the player -/
  | cli (e : CliStep)

namespace Home

def start (store : Keystore) : Home where
  launchers := Launchers.start
  profile := Profile.start store
  waits := fun _ => none

/-- A step of a launcher by itself; a process that starts is a new one. -/
def alone (s : Home) : LaunchStep → Bool
  | .ran _ _ => false
  | .start _ pid =>
    match s.profile.procs pid with
    | .unstarted => true
    | _ => false
  | _ => true

/-- A thread that is interrupted waits no more. -/
def waitsAfter (s : Home) : LaunchStep → GameId → Option Pid
  | .throw j => Function.update s.waits j none
  | _ => s.waits

def fresh (s : Home) (pid : Pid) : Bool :=
  match s.launchers.procs pid, s.profile.procs pid with
  | none, .unstarted => true
  | _, _ => false

section
variable [Crates] (jars : GameId → Jar) (dir : String)

/-- A game runs a command. -/
def command (s : Home) (j : GameId) (pid : Pid) (cmd : CliCommand) : Home :=
  if s.fresh pid then
    { s with
      profile := s.profile.step dir (.start pid cmd)
      waits := Function.update s.waits j (some pid) }
  else s

def step (s : Home) (e : HomeStep) : Home :=
  match e with
  | .game e =>
    if s.alone e then
      { s with launchers := s.launchers.stepLaunch jars e, waits := s.waitsAfter e }
    else s
  | .name j pid =>
    match (s.launchers.games j).at', s.waits j with
    | .naming, none => s.command dir j pid (.load (.name ⟨"", none⟩))
    | _, _ => s
  | .init j pid =>
    match (s.launchers.games j).at', s.waits j with
    | .initializing, none =>
      s.command dir j pid (.init ⟨UInt64.ofNat DEFAULT_KEYID_LEN, none, false⟩)
    | _, _ => s
  | .fail j =>
    match s.waits j with
    | none => { s with launchers := s.launchers.stepLaunch jars (.ran j false) }
    | some _ => s
  | .exited j =>
    match s.waits j with
    | none => s
    | some pid =>
      match s.profile.procs pid with
      | .ended out =>
        { s with
          launchers := s.launchers.stepLaunch jars (.ran j out.isOk)
          waits := Function.update s.waits j none }
      | .killed =>
        { s with
          launchers := s.launchers.stepLaunch jars (.ran j false)
          waits := Function.update s.waits j none }
      | _ => s
  | .serve pid =>
    match s.launchers.procs pid with
    | some p =>
      if p.alive then { s with profile := s.profile.step dir (.start pid (.load .serve)) } else s
    | none => s
  | .cli e =>
    match s.launchers.procs e.proc with
    | none => { s with profile := s.profile.step dir e }
    | some p =>
      -- an agent that has begun to load makes its calls
      match e with
      | .go pid io =>
        if p.alive then { s with profile := s.profile.step dir (.go pid io) } else s
      | _ => s

end
end Home

/-- What an agent reads of the key file can be read if it is there. -/
def CliAt.ReadsKey (s : Keystore) (io : Io) : CliAt → Prop
  | .loading _ .keyFile => Legible s.keyFile io.works
  | .loading _ .read => Legible s.keyFile io.works
  | _ => True

/-- No command forces or removes an identity, what is stored can be read, and while a
process is in the middle of a save no other begins one or reads the keyid length. -/
def Settled (s : Home) : HomeStep → Prop
  | .cli e => Calm s.profile e ∧ ∀ pid io, e = .go pid io → (s.launchers.procs pid).isSome = true →
      (s.profile.procs pid).ReadsKey s.profile.disk.store io
  | _ => True

/-! ## What a step does to the launchers -/

section
variable (jars : GameId → Jar) (s : Launchers) (e : LaunchStep)

/-- A thread is about to start an agent only after a command has exited well. -/
theorem launching_step (j : GameId) (h : ((s.stepLaunch jars e).games j).at' = .launching) :
    (s.games j).at' = .launching ∨ e = .ran j true := by
  have hdoes := launches_step jars s e
  generalize s.stepLaunch jars e = s' at hdoes h
  have hset : ∀ (s1 : Launchers) (i : GameId) (g : Game), s1.games = s.games →
      ((s1.setGame i g).games j).at' = .launching →
      (s.games j).at' = .launching ∨ (j = i ∧ g.at' = .launching) := by
    intro s1 i g hg hj
    rw [games_setGame, hg] at hj
    by_cases hji : j = i
    · rw [if_pos hji] at hj
      exact Or.inr ⟨hji, hj⟩
    · rw [if_neg hji] at hj
      exact Or.inl hj
  -- the thread is where it was
  have hsame : ∀ (s1 : Launchers) (i : GameId) (g : Game), s1.games = s.games →
      ((s1.setGame i g).games j).at' = .launching → g.at' = (s.games i).at' →
      (s.games j).at' = .launching := by
    intro s1 i g hg hj hat
    rcases hset s1 i g hg hj with hold | ⟨rfl, hnew⟩
    · exact hold
    · exact hat.symm.trans hnew
  -- the thread goes elsewhere
  have hgo : ∀ (s1 : Launchers) (i : GameId) (b : LauncherAt), s1.games = s.games →
      b ≠ .launching → ((s1.go i b).games j).at' = .launching → (s.games j).at' = .launching := by
    intro s1 i b hg hb hj
    exact (hset s1 i _ hg hj).elim id fun hnew => absurd hnew.2 hb
  cases hdoes with
  | nothing => exact Or.inl h
  | goes _ i a b hat hroute =>
    rcases hset s i _ rfl h with hold | ⟨rfl, hb⟩
    · exact Or.inl hold
    · cases hroute with
      | named he => exact Or.inr he
      | initialized he => exact Or.inr he
      | _ => cases hb
  | create i tmp => exact Or.inl (hgo _ i _ rfl (by rintro ⟨⟩) h)
  | copy i n tmp binary => exact Or.inl h
  | filled i tmp binary => exact Or.inl (hgo _ i _ rfl (by rintro ⟨⟩) h)
  | move i tmp => exact Or.inl (hgo _ i _ rfl (by rintro ⟨⟩) h)
  | drop _ i tmp b _ hb =>
    refine Or.inl (hgo _ i b rfl ?_ h)
    rcases hb with rfl | ⟨rfl, -⟩ <;> rintro ⟨⟩
  | start i pid binary =>
    refine Or.inl ((hset (s.setProc pid ⟨i, binary, true, false⟩) i _ rfl h).elim id ?_)
    rintro ⟨-, ⟨⟩⟩
  | hook i =>
    refine Or.inl ((hset s i _ rfl h).elim id ?_)
    rintro ⟨-, ⟨⟩⟩
  | unhooked i => exact Or.inl (hgo s i _ rfl (by rintro ⟨⟩) h)
  | die pid p => exact Or.inl h
  | shutdown i => exact Or.inl (hsame s i _ rfl h rfl)
  | stop i k b => exact Or.inl (hsame s i _ rfl h rfl)
  | force i k pid p => exact Or.inl (hsame (s.setProc pid { p with forced := true }) i _ rfl h rfl)
  | ended i k => exact Or.inl (hsame s i _ rfl h rfl)
  | halt i =>
    refine Or.inl ((hset s i _ rfl h).elim id ?_)
    rintro ⟨-, ⟨⟩⟩
  | crash i =>
    refine Or.inl ((hset s i _ rfl h).elim id ?_)
    rintro ⟨-, ⟨⟩⟩

/-- An agent is started by a thread that is about to. -/
theorem agents_step (pid : Pid) (p : Proc) (h : (s.stepLaunch jars e).procs pid = some p) :
    (∃ p', s.procs pid = some p') ∨ ∃ i, e = .start i pid ∧ (s.games i).at' = .launching := by
  have hdoes := launches_step jars s e
  generalize s.stepLaunch jars e = s' at hdoes h
  have hset : ∀ (q : Pid) (r r' : Proc), s.procs q = some r → (s.setProc q r').procs pid = some p →
      ∃ p', s.procs pid = some p' := by
    intro q r r' hq hp
    by_cases hpq : pid = q
    · exact ⟨r, by rw [hpq, hq]⟩
    · exact ⟨p, (Function.update_of_ne hpq _ _).symm.trans hp⟩
  cases hdoes with
  | start i q binary hat =>
    by_cases hpq : pid = q
    · subst hpq
      exact Or.inr ⟨i, rfl, hat⟩
    · exact Or.inl ⟨p, (Function.update_of_ne hpq _ _).symm.trans h⟩
  | die q r hq => exact Or.inl (hset q r _ hq h)
  | force i k q r _ hq => exact Or.inl (hset q r _ hq h)
  | _ => exact Or.inl ⟨p, h⟩

end

/-! ## What a step does to the profile -/

/-- What an agent can be at while it has not ended: it finds the identity. -/
def Finds (s : Keystore) : CliAt → Prop
  | .unstarted => True
  | .loading .serve .keyring => True
  | .loading .serve _ => ∃ id, secretOf s.keyFile = some id
  | .ended (.ok (.serving _)) => True
  | _ => False

section
variable [Crates] (dir : String)

/-- A step leaves what is stored, or a save goes on. -/
theorem leaves_step (s : Profile) (e : CliStep) (h : Told s) (hcalm : Calm s e) :
    Leaves s.disk.store (s.step dir e).disk.store := by
  have hdoes := acts_step dir s e
  generalize s.step dir e = s' at hdoes
  cases hdoes with
  | goes p io => exact leaves_call dir io s.disk (s.procs p) (h.seen p)
  | _ => exact leaves_refl s.disk.store

omit [Crates] in
theorem finds_leaves (s s' : Keystore) (hleaves : Leaves s s') (a : CliAt) (h : Finds s a) :
    Finds s' a := by
  cases a with
  | loading cmd at' =>
    cases cmd with
    | serve =>
      cases at' with
      | keyring => trivial
      | _ =>
        obtain ⟨id, hid⟩ := h
        exact ⟨id, hleaves.keyFile id hid⟩
    | _ => exact h
  | ended res =>
    cases res with
    | error e => exact h
    | ok out => cases out <;> exact h
  | _ => exact h

/-- The next call of an agent finds the identity too. -/
theorem finds_call (s : Disk) (io : Io) (a : CliAt) (id : Identity)
    (hid : s.store.identity = some id) (hreads : a.Reads s.store io)
    (hkey : a.ReadsKey s.store io) (h : Finds s.store a) :
    Finds (CliAt.call dir io s a).2.store (CliAt.call dir io s a).1 := by
  cases a with
  | loading cmd at' =>
    cases cmd with
    | serve =>
      unfold CliAt.call CliAt.load
      cases at' with
      | keyring =>
        dsimp only
        split
        · trivial
        · next hnone =>
          have hkeyring := secretOf_of_no_load s.store io.works hreads hnone
          unfold Keystore.identity at hid
          rw [hkeyring] at hid
          exact ⟨id, hid⟩
      | keyFile =>
        obtain ⟨id', hid'⟩ := h
        have hbytes := (secretOf_some_iff s.store.keyFile id').mp hid'
        dsimp only
        rw [if_pos (by rw [hbytes, hkey (by rw [hbytes]; rfl)]; rfl)]
        exact ⟨id', hid'⟩
      | read =>
        obtain ⟨id', hid'⟩ := h
        have hbytes := (secretOf_some_iff s.store.keyFile id').mp hid'
        dsimp only
        rw [read_legible _ _ hkey, hbytes]
        dsimp only
        rw [toVector_toList]
        trivial
    | _ => exact h.elim
  | unstarted => trivial
  | ended res => exact h
  | _ => exact h.elim

end

/-! ## The agents are served -/

/-- There is an identity when an agent starts, and the agents find it. -/
structure Served [Crates] (s : Home) : Prop where
  told : Told s.profile
  launching : ∀ j, (s.launchers.games j).at' = .launching →
    ∃ id, s.profile.disk.store.identity = some id
  agents : ∀ pid p, s.launchers.procs pid = some p →
    (∃ id, s.profile.disk.store.identity = some id) ∧
      Finds s.profile.disk.store (s.profile.procs pid)

section
variable [Crates] (jars : GameId → Jar) (dir : String) (s : Home)

theorem served_start (store : Keystore) : Served (Home.start store) where
  told := told_start store
  launching := by rintro j ⟨⟩
  agents := by rintro pid p ⟨⟩

variable (h : Served s) (waits : GameId → Option Pid)
include h

/-- A process of `mc-tunnel` goes on. -/
theorem served_cli (e : CliStep) (hcalm : Calm s.profile e)
    (hagent : ∀ p, s.launchers.procs e.proc = some p →
      Finds (s.profile.step dir e).disk.store ((s.profile.step dir e).procs e.proc)) :
    Served { s with profile := s.profile.step dir e, waits := waits } := by
  have hleaves := leaves_step dir s.profile e h.told hcalm
  have hkeep : (∃ id, s.profile.disk.store.identity = some id) →
      ∃ id, (s.profile.step dir e).disk.store.identity = some id := by
    rintro ⟨id, hid⟩
    exact ⟨id, hleaves.identity id hid⟩
  refine ⟨told_step dir s.profile e h.told hcalm, fun j hj => hkeep (h.launching j hj), ?_⟩
  intro pid p hp
  obtain ⟨hid, hfinds⟩ := h.agents pid p hp
  refine ⟨hkeep hid, ?_⟩
  by_cases hpid : pid = e.proc
  · subst hpid
    exact hagent p hp
  · have hproc := procs_step_of_ne dir s.profile e pid hpid
    show Finds (s.profile.step dir e).disk.store ((s.profile.step dir e).procs pid)
    rw [hproc]
    exact finds_leaves _ _ hleaves _ hfinds

theorem served_launch (e : LaunchStep)
    (hran : ∀ j, e = .ran j true → ∃ id, s.profile.disk.store.identity = some id)
    (hfresh : ∀ j pid, e = .start j pid → s.profile.procs pid = .unstarted) :
    Served { s with launchers := s.launchers.stepLaunch jars e, waits := waits } := by
  refine ⟨h.told, ?_, ?_⟩
  · intro j hj
    rcases launching_step jars s.launchers e j hj with hold | he
    · exact h.launching j hold
    · exact hran j he
  · intro pid p hp
    rcases agents_step jars s.launchers e pid p hp with ⟨p', hp'⟩ | ⟨j, he, hat⟩
    · exact h.agents pid p' hp'
    · refine ⟨h.launching j hat, ?_⟩
      show Finds s.profile.disk.store (s.profile.procs pid)
      rw [hfresh j pid he]
      trivial

/-- A command of a game is a new process. -/
theorem served_command (j : GameId) (pid : Pid) (cmd : CliCommand)
    (hcalm : Calm s.profile (.start pid cmd)) : Served (s.command dir j pid cmd) := by
  unfold Home.command
  by_cases hfresh : s.fresh pid = true
  · rw [if_pos hfresh]
    refine served_cli dir s h _ (.start pid cmd) hcalm ?_
    intro p hp
    unfold Home.fresh at hfresh
    split at hfresh
    · next hno _ => cases hno.symm.trans hp
    · cases hfresh
  · rw [if_neg hfresh]
    exact h

/-- An agent begins to load. -/
theorem served_serve (pid : Pid) :
    Served { s with profile := s.profile.step dir (.start pid (.load .serve)) } := by
  refine served_cli dir s h s.waits (.start pid (.load .serve)) trivial ?_
  intro p hp
  obtain ⟨-, hfinds⟩ := h.agents pid p hp
  unfold Profile.step
  dsimp only [CliStep.proc]
  split
  · rw [show (s.profile.put pid (.begin (.load .serve))).procs pid = .begin (.load .serve)
      from Function.update_self _ _ _]
    trivial
  · exact hfinds

/-- An agent makes its next call. -/
theorem served_agent (pid : Pid) (io : Io) (p : Proc) (hp : s.launchers.procs pid = some p)
    (hcalm : Calm s.profile (.go pid io))
    (hkey : (s.profile.procs pid).ReadsKey s.profile.disk.store io) :
    Served { s with profile := s.profile.step dir (.go pid io) } := by
  refine served_cli dir s h s.waits (.go pid io) hcalm ?_
  intro _ _
  obtain ⟨⟨id, hid⟩, hfinds⟩ := h.agents pid p hp
  have hnext := finds_call dir s.profile.disk io (s.profile.procs pid) id hid hcalm.1 hkey hfinds
  have hself : (s.profile.step dir (.go pid io)).procs pid =
      (CliAt.call dir io s.profile.disk (s.profile.procs pid)).1 := Function.update_self _ _ _
  show Finds _ ((s.profile.step dir (.go pid io)).procs pid)
  rw [hself]
  exact hnext

theorem served_step (e : HomeStep) (hquiet : Settled s e) : Served (s.step jars dir e) := by
  unfold Home.step
  cases e with
  | game e =>
    dsimp only
    by_cases ha : s.alone e = true
    · rw [if_pos ha]
      refine served_launch jars s h _ e ?_ ?_
      · rintro j rfl
        cases ha
      · rintro j pid rfl
        unfold Home.alone at ha
        dsimp only at ha
        split at ha
        · next hun => exact hun
        · cases ha
    · rw [if_neg ha]
      exact h
  | name j pid =>
    dsimp only
    split
    · exact served_command dir s h j pid _ trivial
    · exact h
  | init j pid =>
    dsimp only
    split
    · exact served_command dir s h j pid _ rfl
    · exact h
  | fail j =>
    dsimp only
    split
    · exact served_launch jars s h s.waits (.ran j false) (by rintro i ⟨⟩) (by rintro i pid ⟨⟩)
    · exact h
  | exited j =>
    dsimp only
    split
    · exact h
    · next pid _ =>
      split
      · next out hend =>
        refine served_launch jars s h _ _ ?_ (by rintro i pid ⟨⟩)
        intro i hi
        cases out with
        | error e => cases hi
        | ok o =>
          have hseen := h.told.seen pid
          rw [hend] at hseen
          obtain ⟨id, hid, -⟩ := hseen
          exact ⟨id, hid⟩
      · exact served_launch jars s h _ (.ran j false) (by rintro i ⟨⟩) (by rintro i pid ⟨⟩)
      · exact h
  | serve pid =>
    dsimp only
    split
    · split
      · exact served_serve dir s h pid
      · exact h
    · exact h
  | cli e =>
    obtain ⟨hcalm, hkey⟩ := hquiet
    dsimp only
    split
    · next hno =>
      refine served_cli dir s h s.waits e hcalm ?_
      intro p hp
      cases hno.symm.trans hp
    · next p hp =>
      split
      · next pid io =>
        have hp : s.launchers.procs pid = some p := hp
        split
        · exact served_agent dir s h pid io p hp hcalm (hkey pid io rfl (by rw [hp]; rfl))
        · exact h
      · exact h

end

/-- **The first run**: an agent that a game starts finds an identity, and all agents and
commands go by the same one, in every run of games, agents and commands of the player
in which no identity is forced or removed, what is stored can be read, and no save
begins and no keyid length is read in the middle of another process's save. -/
theorem agents_serve [Crates] (jars : GameId → Jar) (dir : String) (store : Keystore)
    (l : List HomeStep) (hl : Run.Each (Home.step jars dir) Settled (Home.start store) l) :
    ∃ id keyidLen,
      (∀ pid p, (Run.run (Home.step jars dir) (Home.start store) l).launchers.procs pid = some p →
        (Run.run (Home.step jars dir) (Home.start store) l).profile.procs pid = .unstarted ∨
        (∃ at', (Run.run (Home.step jars dir) (Home.start store) l).profile.procs pid =
          .loading .serve at') ∨
        (Run.run (Home.step jars dir) (Home.start store) l).profile.procs pid =
          .ended (.ok (.serving id))) ∧
      ∀ pid out, (Run.run (Home.step jars dir) (Home.start store) l).profile.procs pid =
        .ended (.ok out) → out.Of id keyidLen := by
  have hserved : Served (Run.run (Home.step jars dir) (Home.start store) l) :=
    (Run.always_of_each (Home.step jars dir) Settled Served
      (fun s e h hquiet => served_step jars dir s h e hquiet) (Home.start store)
      (served_start store) l hl).1 l [] (List.append_nil l).symm
  generalize Run.run (Home.step jars dir) (Home.start store) l = s at hserved
  cases hid : s.profile.disk.store.identity with
  | none =>
    refine ⟨⟨Vector.replicate 32 0⟩, 0, ?_, ?_⟩
    · intro pid p hp
      obtain ⟨⟨id, hid'⟩, -⟩ := hserved.agents pid p hp
      cases hid.symm.trans hid'
    · intro pid out hp
      have hseen := hserved.told.seen pid
      rw [hp] at hseen
      obtain ⟨id, hid', -⟩ := hseen
      cases hid.symm.trans hid'
  | some id =>
    have hof := of_told s.profile hserved.told id hid
    refine ⟨id, (keyidLenOf s.profile.disk.store.metaFile).getD 0, ?_, hof⟩
    intro pid p hp
    obtain ⟨-, hfinds⟩ := hserved.agents pid p hp
    cases ha : s.profile.procs pid with
    | unstarted => exact Or.inl rfl
    | loading cmd at' =>
      rw [ha] at hfinds
      cases cmd with
      | serve => exact Or.inr (Or.inl ⟨at', rfl⟩)
      | _ => exact hfinds.elim
    | ended res =>
      rw [ha] at hfinds
      cases res with
      | error e => exact hfinds.elim
      | ok out =>
        cases out with
        | serving id' =>
          cases hof pid _ ha
          exact Or.inr (Or.inr rfl)
        | _ => exact hfinds.elim
    | _ =>
      rw [ha] at hfinds
      exact hfinds.elim

namespace Sample
attribute [local instance] crates

/-- A game extracts the binary and asks for its name. -/
def asksName : List HomeStep :=
  [.game (.enter 0), .game (.ping 0 false), .game (.check 0), .game (.look 0), .game (.create 0 5),
    .game (.copied 0), .game (.move 0 true), .name 0 1]

def asksInit : List HomeStep := [.exited 0, .init 0 2]

def nameCalls : List CliStep := calls 1 2

/-- The calls of an `init` that finds nothing. -/
def initCalls : List CliStep := calls 2 2 ++ .make 2 ⟨⟨aliceSecret⟩, 0, []⟩ :: calls 2 7

def startsAgent : List HomeStep :=
  [.exited 0, .game (.start 0 100), .serve 100, .cli (.go 100 works)]

/-- A game that finds nothing, up to its agent. -/
def firstRun : List HomeStep :=
  asksName ++ (nameCalls.map .cli ++ (asksInit ++ (initCalls.map .cli ++ startsAgent)))

example : (Run.run (Home.step jars profileDir) (Home.start emptyStore) firstRun).profile.procs 100 =
    .ended (.ok (.serving ⟨aliceSecret⟩)) := rfl

/-- What the commands do up to the save. -/
def beforeSave : List CliStep :=
  .start 1 (.load (.name ⟨"", none⟩)) :: (nameCalls ++
    .start 2 (.init ⟨UInt64.ofNat DEFAULT_KEYID_LEN, none, false⟩) :: initCalls.take 3)

theorem settled_firstRun :
    Run.Each (Home.step jars profileDir) Settled (Home.start emptyStore) firstRun := by
  have hquiet : ∀ q, ¬ ((Run.run (Profile.step profileDir) (Profile.start emptyStore)
      beforeSave).procs q).Saving := by
    refine no_saving profileDir emptyStore beforeSave 3 (by decide) ?_
    intro p hp
    interval_cases p <;> exact id
  have hno : ∀ {P : Prop}, False → P := False.elim
  -- a call of a command, and of an agent
  have hcommand : ∀ {s : Home} {pid io}, s.launchers.procs pid = none →
      Calm s.profile (.go pid io) → Settled s (.cli (.go pid io)) := by
    intro s pid io hnone hcalm
    refine ⟨hcalm, ?_⟩
    rintro _ _ ⟨⟩ hsome
    rw [hnone] at hsome
    cases hsome
  exact ⟨trivial, trivial, trivial, trivial, trivial, trivial, trivial, trivial,
    hcommand rfl ⟨fun _ => rfl, hno⟩, hcommand rfl ⟨trivial, hno⟩, trivial, trivial,
    hcommand rfl ⟨trivial, hno⟩, hcommand rfl ⟨trivial, hno⟩, ⟨trivial, by rintro _ _ ⟨⟩⟩,
    hcommand rfl ⟨fun _ => rfl, fun _ => hquiet⟩, hcommand rfl ⟨fun _ => rfl, hno⟩,
    hcommand rfl ⟨trivial, hno⟩, hcommand rfl ⟨trivial, hno⟩, hcommand rfl ⟨trivial, hno⟩,
    hcommand rfl ⟨trivial, hno⟩, hcommand rfl ⟨trivial, hno⟩, trivial, trivial, trivial,
    ⟨⟨fun _ => rfl, hno⟩, by rintro _ _ ⟨⟩ _; trivial⟩, trivial⟩

end Sample

theorem agents_serve_firstRun :
    ∃ id keyidLen,
      (∀ pid p, (Run.run (@Home.step Sample.crates Sample.jars Sample.profileDir)
          (Home.start Sample.emptyStore) Sample.firstRun).launchers.procs pid = some p →
        (Run.run (@Home.step Sample.crates Sample.jars Sample.profileDir)
          (Home.start Sample.emptyStore) Sample.firstRun).profile.procs pid = .unstarted ∨
        (∃ at', (Run.run (@Home.step Sample.crates Sample.jars Sample.profileDir)
          (Home.start Sample.emptyStore) Sample.firstRun).profile.procs pid = .loading .serve at') ∨
        (Run.run (@Home.step Sample.crates Sample.jars Sample.profileDir)
          (Home.start Sample.emptyStore) Sample.firstRun).profile.procs pid =
            .ended (.ok (.serving id))) ∧
      ∀ pid out, (Run.run (@Home.step Sample.crates Sample.jars Sample.profileDir)
        (Home.start Sample.emptyStore) Sample.firstRun).profile.procs pid = .ended (.ok out) →
          @Output.Of Sample.crates id keyidLen out :=
  @agents_serve Sample.crates Sample.jars Sample.profileDir Sample.emptyStore Sample.firstRun
    Sample.settled_firstRun

end McTunnel
