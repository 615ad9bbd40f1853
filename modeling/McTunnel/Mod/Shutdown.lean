import McTunnel.Mod.AgentLauncher

/-!
# Shutting down (`stop`)

The hooks of a game run at once when it shuts down, each reads the `process` there
is then, and the game halts when all have returned.

    no agent outlives a game that shuts down, unless it is started meanwhile,
      or has been destroyed by force                                  (no_orphan)
-/

namespace McTunnel

/-- The game is not killed, and no agent is started once it shuts down, nor is one
on the way into the hooks. -/
def Orderly (j : GameId) (s : Launchers) (e : LaunchStep) : Prop :=
  match e with
  | .start i _ => i = j → (s.games j).life = .running
  | .shutdown i => i = j → (s.games j).at' ≠ .hooking
  | .crash i => i ≠ j
  | _ => True

/-- A process that runs was destroyed by force, or a hook is to see to it. -/
def Attended (s : Launchers) (j : GameId) : Prop :=
  ∀ pid p, (s.games j).process = some pid → s.procs pid = some p → p.alive = true →
    p.forced = true ∨ .ready ∈ (s.games j).hooks ∨ .waits pid ∈ (s.games j).hooks

/-- What there is for a process in each part of a game's life. -/
structure Watched (j : GameId) (s : Launchers) : Prop where
  ready : (s.games j).life = .running → ∀ h ∈ (s.games j).hooks, h = .ready
  hooked : (s.games j).life = .running → (s.games j).at' ≠ .hooking → Attended s j
  stopping : (s.games j).life = .stopping → (s.games j).at' ≠ .hooking ∧ Attended s j
  halted : (s.games j).life = .halted → (s.games j).at' = .outside ∧
    ∀ pid p, (s.games j).process = some pid → s.procs pid = some p → p.alive = true →
      p.forced = true

theorem watched_start (j : GameId) : Watched j Launchers.start where
  ready _ h hh := by cases hh
  hooked _ _ pid p hpid := by cases hpid
  stopping := by rintro ⟨⟩
  halted := by rintro ⟨⟩

section
variable (jars : GameId → Jar) (j : GameId) (s : Launchers) (h : Watched j s)
include h

/-- Other games, and files, do not matter. -/
theorem watched_congr (s' : Launchers) (hg : s'.games j = s.games j)
    (hp : ∀ pid, (s.games j).process = some pid → s'.procs pid = s.procs pid) : Watched j s' := by
  have hatt : ∀ pid p, (s.games j).process = some pid → s'.procs pid = some p → s.procs pid = some p :=
    fun pid p hpid hp' => (hp pid hpid).symm.trans hp'
  refine ⟨?_, ?_, ?_, ?_⟩
  · rw [hg]
    exact h.ready
  · rw [hg]
    intro hl hat pid p hpid hp'
    rw [hg] at hpid ⊢
    exact h.hooked hl hat pid p hpid (hatt pid p hpid hp')
  · rw [hg]
    intro hl
    refine ⟨(h.stopping hl).1, ?_⟩
    intro pid p hpid hp'
    rw [hg] at hpid ⊢
    exact (h.stopping hl).2 pid p hpid (hatt pid p hpid hp')
  · rw [hg]
    intro hl
    exact ⟨(h.halted hl).1, fun pid p hpid hp' => (h.halted hl).2 pid p hpid (hatt pid p hpid hp')⟩

/-- A thread goes on, of this game or another. -/
theorem watched_go (s1 : Launchers) (i : GameId) (a : LauncherAt) (hg : s1.games = s.games)
    (hp : s1.procs = s.procs) (hat : (s.games i).at' ≠ .hooking) (ha : a ≠ .hooking)
    (hlife : i = j → (s.games j).life = .halted → a = .outside) : Watched j (s1.go i a) := by
  have hgame := games_setGame s1 i
  by_cases hi : j = i
  · subst hi
    have hself : (s1.go j a).games j = { s.games j with at' := a } := by
      unfold Launchers.go
      rw [hgame, if_pos rfl, hg]
    have hprocs : (s1.go j a).procs = s.procs := hp
    refine ⟨?_, ?_, ?_, ?_⟩
    · rw [hself]
      exact h.ready
    · intro hl _ pid p hpid hp'
      rw [hself] at hl hpid ⊢
      rw [hprocs] at hp'
      exact h.hooked hl hat pid p hpid hp'
    · intro hl
      rw [hself] at hl ⊢
      refine ⟨ha, ?_⟩
      intro pid p hpid hp'
      rw [hself] at hpid ⊢
      rw [hprocs] at hp'
      exact (h.stopping hl).2 pid p hpid hp'
    · intro hl
      rw [hself] at hl ⊢
      refine ⟨hlife rfl hl, ?_⟩
      rw [hprocs]
      exact (h.halted hl).2
  · apply watched_congr j s h
    · unfold Launchers.go
      rw [hgame, if_neg hi, hg]
    · intro pid _
      exact congrFun hp pid

/-- A process ends, or is destroyed by force. -/
theorem watched_setProc (pid : Pid) (p p' : Proc) (hp : s.procs pid = some p)
    (hl : p'.alive = true → p.alive = true) (hf : p.forced = true → p'.forced = true) :
    Watched j (s.setProc pid p') := by
  have hback : ∀ q r, (s.setProc pid p').procs q = some r → r.alive = true →
      ∃ r', s.procs q = some r' ∧ r'.alive = true ∧ (r'.forced = true → r.forced = true) := by
    intro q r hr hlr
    rcases (Run.update_iff s.procs pid (some p') (· = some r) q).mp hr with ⟨rfl, hnew⟩ | ⟨-, hold⟩
    · cases hnew
      exact ⟨p, hp, hl hlr, hf⟩
    · exact ⟨r, hold, hlr, id⟩
  have hatt : Attended s j → Attended (s.setProc pid p') j := by
    intro ha q r hq hr hlr
    obtain ⟨r', hr', hl', hf'⟩ := hback q r hr hlr
    exact (ha q r' hq hr' hl').imp_left hf'
  refine ⟨h.ready, fun hl hat => hatt (h.hooked hl hat), ?_, ?_⟩
  · intro hlife
    exact ⟨(h.stopping hlife).1, hatt (h.stopping hlife).2⟩
  · intro hlife
    refine ⟨(h.halted hlife).1, ?_⟩
    intro q r hq hr hlr
    obtain ⟨r', hr', hl', hf'⟩ := hback q r hr hlr
    exact hf' ((h.halted hlife).2 q r' hq hr' hl')

omit h in
theorem mem_set_of_ne {α : Type} (l : List α) (i : Nat) (a b : α) (ha : a ∈ l)
    (hne : l[i]? ≠ some a) : a ∈ l.set i b := by
  obtain ⟨k, hk, rfl⟩ := List.getElem_of_mem ha
  have hik : i ≠ k := by
    rintro rfl
    exact hne (List.getElem?_eq_getElem hk)
  rw [List.mem_iff_getElem]
  exact ⟨k, by rw [List.length_set]; exact hk, by rw [List.getElem_set_ne hik]⟩

/-- A hook goes on. -/
theorem watched_setHook (s1 : Launchers) (k : GameId) (i : Nat) (a b : HookAt)
    (hg : s1.games = s.games) (hi : (s.games k).hooks[i]? = some a) (ha : k = j → a ≠ .ready ∨
      (s.games j).life = .stopping)
    (hatt : k = j → (s.games j).life = .stopping → Attended s j → Attended (s1.setHook k i b) j)
    (hp : Watched j s1) : Watched j (s1.setHook k i b) := by
  have hgame : ∀ m, (s1.setHook k i b).games m = if m = k then
      { s.games k with hooks := (s.games k).hooks.set i b } else s.games m := by
    intro m
    unfold Launchers.setHook
    rw [games_setGame, hg]
  by_cases hk : j = k
  · subst hk
    have hself : (s1.setHook j i b).games j =
        { s.games j with hooks := (s.games j).hooks.set i b } := by
      rw [hgame, if_pos rfl]
    -- hooks go on only in a game that shuts down
    have hnot : (s.games j).life ≠ .running := by
      intro hl
      rcases ha rfl with hne | hst
      · exact hne (h.ready hl a (List.mem_of_getElem? hi))
      · cases hl.symm.trans hst
    refine ⟨?_, ?_, ?_, ?_⟩
    · intro hl
      rw [hself] at hl
      exact absurd hl hnot
    · intro hl
      rw [hself] at hl
      exact absurd hl hnot
    · intro hl
      rw [hself] at hl ⊢
      exact ⟨(h.stopping hl).1, hatt rfl hl (h.stopping hl).2⟩
    · intro hl
      rw [hself] at hl ⊢
      have hhalted := hp.halted (by rw [hg]; exact hl)
      rw [hg] at hhalted
      exact hhalted
  · apply watched_congr j s1 hp
    · rw [hgame, if_neg hk, hg]
    · intro pid _
      rfl

omit h in
/-- A process is destroyed, or a hook that goes on was not the one to see to it, or
sees to it now. -/
theorem attended_setHook (s1 : Launchers) (k : GameId) (i : Nat) (a b : HookAt)
    (hg : s1.games = s.games) (hi : (s.games k).hooks[i]? = some a)
    (hp : ∀ pid p, (s.games k).process = some pid → s1.procs pid = some p → p.alive = true →
      p.forced = true ∨ ∃ w, (w = .ready ∨ w = .waits pid) ∧
        (w = b ∨ (w ∈ (s.games k).hooks ∧ w ≠ a))) : Attended (s1.setHook k i b) k := by
  have hself : (s1.setHook k i b).games k =
      { s.games k with hooks := (s.games k).hooks.set i b } := by
    unfold Launchers.setHook
    rw [games_setGame, if_pos rfl, hg]
  intro pid p hpid hproc hl
  rw [hself] at hpid ⊢
  rcases hp pid p hpid hproc hl with hf | ⟨w, hw, hin⟩
  · exact Or.inl hf
  · right
    have hmem : w ∈ (s.games k).hooks.set i b := by
      rcases hin with rfl | ⟨hm, hne⟩
      · exact List.mem_set (List.getElem?_eq_some_iff.mp hi).1 _
      · apply mem_set_of_ne _ i _ _ hm
        rw [hi]
        rintro ⟨⟩
        exact hne rfl
    rcases hw with rfl | rfl
    · exact Or.inl hmem
    · exact Or.inr hmem

theorem watched_stop (k : GameId) (i : Nat) (b : HookAt) (hlife : (s.games k).life = .stopping)
    (hi : (s.games k).hooks[i]? = some .ready)
    (hb : ∀ pid, (s.games k).process = some pid → s.runs k = true → b = .waits pid) :
    Watched j (s.setHook k i b) := by
  refine watched_setHook j s h s k i .ready b rfl hi ?_ ?_ h
  · rintro rfl
    exact Or.inr hlife
  · rintro rfl _ _
    refine attended_setHook s s k i .ready b rfl hi fun pid p hpid hp hl => ?_
    have hruns := (runs_iff s k).mpr ⟨pid, p, hpid, hp, hl⟩
    exact Or.inr ⟨_, Or.inr rfl, Or.inl (hb pid hpid hruns).symm⟩

omit h in
/-- The other processes are as they were. -/
theorem attended_others (k : GameId) (pid : Pid) (hatt : Attended s k) (q : Pid) (r : Proc)
    (hq : (s.games k).process = some q) (hr : s.procs q = some r) (hl : r.alive = true)
    (hne : q ≠ pid) : r.forced = true ∨ ∃ w, (w = .ready ∨ w = .waits q) ∧
      (w = HookAt.done ∨ (w ∈ (s.games k).hooks ∧ w ≠ .waits pid)) := by
  rcases hatt q r hq hr hl with hf | hready | hwaits
  · exact Or.inl hf
  · exact Or.inr ⟨.ready, Or.inl rfl, Or.inr ⟨hready, by rintro ⟨⟩⟩⟩
  · refine Or.inr ⟨.waits q, Or.inr rfl, Or.inr ⟨hwaits, ?_⟩⟩
    rintro ⟨⟩
    exact hne rfl

section
variable (k : GameId) (i : Nat) (pid : Pid) (p : Proc) (hp : s.procs pid = some p)
  (hi : (s.games k).hooks[i]? = some (.waits pid))
include hp hi

/-- The two seconds are over. -/
theorem watched_force :
    Watched j ((s.setProc pid { p with forced := true }).setHook k i .done) := by
  have hforced : Watched j (s.setProc pid { p with forced := true }) :=
    watched_setProc j s h pid p { p with forced := true } hp id fun _ => rfl
  refine watched_setHook j s h _ k i (.waits pid) .done rfl hi
    (fun _ => Or.inl (by rintro ⟨⟩)) ?_ hforced
  rintro rfl _ hatt
  refine attended_setHook s _ k i (.waits pid) .done rfl hi fun q r hq hr hlr => ?_
  rcases (Run.update_iff s.procs pid _ (· = some r) q).mp hr with ⟨-, hnew⟩ | ⟨hne, hold⟩
  · cases hnew
    exact Or.inl rfl
  · exact attended_others s k pid hatt q r hq hold hlr hne

/-- The process has ended. -/
theorem watched_ended (hdead : p.alive = false) : Watched j (s.setHook k i .done) := by
  refine watched_setHook j s h s k i (.waits pid) .done rfl hi
    (fun _ => Or.inl (by rintro ⟨⟩)) ?_ h
  rintro rfl _ hatt
  refine attended_setHook s s k i (.waits pid) .done rfl hi fun q r hq hr hlr => ?_
  refine attended_others s k pid hatt q r hq hr hlr ?_
  rintro rfl
  cases hp.symm.trans hr
  cases hdead.symm.trans hlr

end

/-- A thread of a game that is halted is outside. -/
theorem alive_of_at (i : GameId) (a : LauncherAt) (hat : (s.games i).at' = a) (ha : a ≠ .outside) :
    i = j → (s.games j).life ≠ .halted := by
  rintro rfl hl
  exact ha (hat.symm.trans (h.halted hl).1)

/-- A thread goes on from a place where the game is not halted. -/
theorem watched_goes (s1 : Launchers) (i : GameId) (a b : LauncherAt) (hg : s1.games = s.games)
    (hp : s1.procs = s.procs) (hat : (s.games i).at' = a) (ha : a ≠ .outside ∧ a ≠ .hooking)
    (hb : b ≠ .hooking) : Watched j (s1.go i b) := by
  refine watched_go j s h s1 i b hg hp (by rw [hat]; exact ha.2) hb fun hi hl => ?_
  exact absurd hl (alive_of_at j s h i a hat ha.1 hi)

/-- A thread goes on, and no file or process with it. -/
theorem watched_route {e : LaunchStep} (i : GameId) (a b : LauncherAt)
    (hat : (s.games i).at' = a) (hroute : Route jars s e i a b) : Watched j (s.go i b) := by
  have hgoes := watched_goes j s h s i a b rfl rfl hat
  cases hroute with
  | enter hlife =>
    refine watched_go j s h s i _ rfl rfl (by rw [hat]; rintro ⟨⟩) (by rintro ⟨⟩) ?_
    rintro rfl hl
    exact absurd hl hlife
  | leave _ ha =>
    exact watched_go j s h s i _ rfl rfl (fun hh => ha (hat.symm.trans hh)) (by rintro ⟨⟩)
      fun _ _ => rfl
  | _ => exact hgoes ⟨by rintro ⟨⟩, by rintro ⟨⟩⟩ (by rintro ⟨⟩)

/-- No hook is added to a game that shuts down: here no thread is on the way to one. -/
theorem watched_unhooked (i : GameId) (hat : (s.games i).at' = .hooking)
    (hlife : (s.games i).life ≠ .running) : Watched j (s.go i .outside) := by
  by_cases hi : j = i
  · subst hi
    exfalso
    cases hl : (s.games j).life with
    | running => exact hlife hl
    | stopping => exact (h.stopping hl).1 hat
    | halted => cases hat.symm.trans (h.halted hl).1
  · apply watched_congr j s h
    · unfold Launchers.go
      rw [games_setGame, if_neg hi]
    · intro _ _
      rfl

/-- The agent is started, and waits for its hook. -/
theorem watched_launched (hone : OneEach s) (i : GameId) (pid : Pid) (binary : List UInt8)
    (hpid : s.procs pid = none) (hlife : i = j → (s.games j).life = .running) :
    Watched j ((s.setProc pid ⟨i, binary, true, false⟩).setGame i
      { s.games i with at' := .hooking, process := some pid }) := by
  have hgame := games_setGame (s.setProc pid ⟨i, binary, true, false⟩) i
  by_cases hi : j = i
  · subst hi
    have hself : ((s.setProc pid ⟨j, binary, true, false⟩).setGame j
        { s.games j with at' := .hooking, process := some pid }).games j =
        { s.games j with at' := .hooking, process := some pid } := by
      rw [hgame, if_pos rfl]
    refine ⟨?_, ?_, ?_, ?_⟩
    · rw [hself]
      exact h.ready
    · intro _ hat
      rw [hself] at hat
      exact absurd rfl hat
    · intro hl
      rw [hself] at hl
      cases (hlife rfl).symm.trans hl
    · intro hl
      rw [hself] at hl
      cases (hlife rfl).symm.trans hl
  · apply watched_congr j s h
    · rw [hgame, if_neg hi]
      rfl
    · intro q hq
      refine Function.update_of_ne ?_ _ _
      rintro rfl
      obtain ⟨p, hp⟩ := hone.known j q hq
      cases hpid.symm.trans hp

/-- The hook is added. -/
theorem watched_hooked (i : GameId) (hat : (s.games i).at' = .hooking)
    (hlife : (s.games i).life = .running) : Watched j (s.setGame i
      { s.games i with at' := .waiting 0, hooks := (s.games i).hooks ++ [.ready] }) := by
  have hgame := games_setGame s i
  by_cases hi : j = i
  · subst hi
    have hself : (s.setGame j { s.games j with
        at' := .waiting 0, hooks := (s.games j).hooks ++ [.ready] }).games j =
        { s.games j with at' := .waiting 0, hooks := (s.games j).hooks ++ [.ready] } := by
      rw [hgame, if_pos rfl]
    refine ⟨?_, ?_, ?_, ?_⟩
    · rw [hself]
      intro hl w hw
      rcases List.mem_append.mp hw with hw | hw
      · exact h.ready hl w hw
      · exact List.mem_singleton.mp hw
    · intro _ _ pid p _ _ _
      rw [hself]
      exact Or.inr (Or.inl (by simp))
    · intro hl
      rw [hself] at hl
      cases hlife.symm.trans hl
    · intro hl
      rw [hself] at hl
      cases hlife.symm.trans hl
  · exact watched_congr j s h _ (by rw [hgame, if_neg hi]) fun _ _ => rfl

theorem watched_shutdown (i : GameId) (hlife : (s.games i).life = .running)
    (ho : i = j → (s.games j).at' ≠ .hooking) :
    Watched j (s.setGame i { s.games i with life := .stopping }) := by
  have hgame := games_setGame s i
  by_cases hi : j = i
  · subst hi
    have hself : (s.setGame j { s.games j with life := .stopping }).games j =
        { s.games j with life := .stopping } := by
      rw [hgame, if_pos rfl]
    refine ⟨?_, ?_, ?_, ?_⟩
    · intro hl
      rw [hself] at hl
      cases hl
    · intro hl
      rw [hself] at hl
      cases hl
    · intro _
      rw [hself]
      refine ⟨ho rfl, ?_⟩
      intro pid p hpid hp hl
      rw [hself] at hpid ⊢
      exact h.hooked hlife (ho rfl) pid p hpid hp hl
    · intro hl
      rw [hself] at hl
      cases hl
  · exact watched_congr j s h _ (by rw [hgame, if_neg hi]) fun _ _ => rfl

/-- No hook has anything left to do. -/
theorem watched_halt (i : GameId) (hlife : (s.games i).life = .stopping)
    (hdone : s.hooksDone i = true) :
    Watched j (s.setGame i { s.games i with at' := .outside, life := .halted }) := by
  have hgame := games_setGame s i
  by_cases hi : j = i
  · subst hi
    have hself : (s.setGame j { s.games j with at' := .outside, life := .halted }).games j =
        { s.games j with at' := .outside, life := .halted } := by
      rw [hgame, if_pos rfl]
    have hall : ∀ w ∈ (s.games j).hooks, w = .done := by
      intro w hw
      have hd := List.all_eq_true.mp hdone w hw
      cases w with
      | done => rfl
      | ready => cases hd
      | waits pid => cases hd
    refine ⟨?_, ?_, ?_, ?_⟩
    · intro hl
      rw [hself] at hl
      cases hl
    · intro hl
      rw [hself] at hl
      cases hl
    · intro hl
      rw [hself] at hl
      cases hl
    · intro _
      rw [hself]
      refine ⟨rfl, ?_⟩
      intro pid p hpid hp hl
      rcases (h.stopping hlife).2 pid p hpid hp hl with hf | hready | hwaits
      · exact hf
      · cases hall _ hready
      · cases hall _ hwaits
  · exact watched_congr j s h _ (by rw [hgame, if_neg hi]) fun _ _ => rfl

theorem watched_step (hone : OneEach s) (e : LaunchStep) (ho : Orderly j s e) :
    Watched j (s.stepLaunch jars e) := by
  have hdoes := launches_step jars s e
  generalize s.stepLaunch jars e = s' at hdoes
  cases hdoes with
  | nothing => exact h
  | goes e i a b hat hroute => exact watched_route jars j s h i a b hat hroute
  | create i tmp hat =>
    exact watched_goes j s h _ i _ _ rfl rfl hat ⟨by rintro ⟨⟩, by rintro ⟨⟩⟩ (by rintro ⟨⟩)
  | copy i n tmp binary => exact watched_congr j s h _ rfl fun _ _ => rfl
  | filled i tmp binary hat =>
    exact watched_goes j s h _ i _ _ rfl rfl hat ⟨by rintro ⟨⟩, by rintro ⟨⟩⟩ (by rintro ⟨⟩)
  | move i tmp hat =>
    exact watched_goes j s h _ i _ _ rfl rfl hat ⟨by rintro ⟨⟩, by rintro ⟨⟩⟩ (by rintro ⟨⟩)
  | drop e i tmp b hat hb =>
    refine watched_goes j s h _ i _ b rfl rfl rfl ⟨?_, ?_⟩ ?_
    · intro ha
      rw [ha] at hat
      cases hat
    · intro ha
      rw [ha] at hat
      cases hat
    · rcases hb with rfl | ⟨rfl, -⟩ <;> rintro ⟨⟩
  | start i pid binary hat hpid => exact watched_launched j s h hone i pid binary hpid ho
  | hook i hat hlife => exact watched_hooked j s h i hat hlife
  | unhooked i hat hlife => exact watched_unhooked j s h i hat hlife
  | die pid p hp => exact watched_setProc j s h pid p _ hp (by rintro ⟨⟩) id
  | shutdown i hlife => exact watched_shutdown j s h i hlife ho
  | stop i k b hlife hi hb => exact watched_stop j s h i k b hlife hi hb
  | force i k pid p hi hp => exact watched_force j s h i k pid p hp hi
  | ended i k pid p hi hp hdead => exact watched_ended j s h i k pid p hp hi hdead
  | halt i hlife hdone => exact watched_halt j s h i hlife hdone
  | crash i =>
    have hne : j ≠ i := fun he => ho he.symm
    exact watched_congr j s h _ (by rw [games_setGame, if_neg hne]) fun _ _ => rfl

omit h in
/-- **No agent is left behind** by a game that shuts down: when it has halted, each
agent that it has started has ended or was destroyed by force, in every run in which
it is not killed, and starts no agent, nor is about to add a hook, once it shuts down. -/
theorem no_orphan (l : List LaunchStep)
    (hl : Run.Each (Launchers.stepLaunch jars) (Orderly j) Launchers.start l)
    (hhalted : ((Run.run (Launchers.stepLaunch jars) Launchers.start l).games j).life = .halted)
    (pid : Pid) (p : Proc)
    (hp : (Run.run (Launchers.stepLaunch jars) Launchers.start l).procs pid = some p)
    (howner : p.owner = j) (halive : p.alive = true) : p.forced = true := by
  have hrun := Run.always_of_each (Launchers.stepLaunch jars) (Orderly j)
    (fun s => OneEach s ∧ Watched j s)
    (fun s e h ho => ⟨oneEach_step jars s h.1 e, watched_step jars j s h.2 h.1 e ho⟩)
    Launchers.start ⟨oneEach_start, watched_start j⟩ l hl
  obtain ⟨hone, hwatched⟩ := hrun.1 l [] (List.append_nil l).symm
  have hown := hone.own pid p hp halive
  rw [howner] at hown
  exact (hwatched.halted hhalted).2 pid p hown hp halive

end

namespace Sample

/-- The agent does not end in time. -/
def shutting : List LaunchStep := [.hook 0, .shutdown 0, .stop 0 0, .stopped 0 0, .halt 0]

end Sample

theorem no_orphan_shutting :
    ∃ p, (Run.run (Launchers.stepLaunch Sample.jars) Launchers.start
      (Sample.launching ++ Sample.shutting)).procs 100 = some p ∧ p.alive = true ∧
      p.forced = true :=
  ⟨⟨0, [0x7f, 0x45], true, true⟩, rfl, rfl,
    no_orphan Sample.jars 0 (Sample.launching ++ Sample.shutting)
      ⟨trivial, trivial, trivial, trivial, trivial, trivial, trivial, trivial, trivial, trivial,
        fun _ => rfl, trivial, (by rintro _ ⟨⟩), trivial, trivial, trivial, trivial⟩
      rfl 100 _ rfl rfl rfl⟩

-- a game that shuts down before it has added its hook leaves its agent running
example : ((Run.run (Launchers.stepLaunch Sample.jars) Launchers.start
    (Sample.launching ++ [.shutdown 0, .hook 0, .halt 0])).procs 100).map
      (fun p => (p.alive, p.forced)) = some (true, false) := rfl

end McTunnel
