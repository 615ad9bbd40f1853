import McTunnel.Mod.AgentLauncher

/-!
# Extracting the binary (`extractBinary`)

The binary is copied to a temporary file of the thread's own, which is moved to
the place that is named after the version.

    what lies there is whole, and so is every binary that is started   (binary_whole)
-/

namespace McTunnel

section
variable (jars : GameId → Jar)

/-- `extractBinary` has returned the path. -/
def LauncherAt.extracted : LauncherAt → Bool
  | .naming => true
  | .initializing => true
  | .launching => true
  | _ => false

/-- The bytes are those that a jar of this version brings. -/
def Shipped (version : String) (bytes : List UInt8) : Prop :=
  ∃ i, (jars i).version = version ∧ (jars i).binary = some bytes

/-- Each thread writes a file of its own; what is moved is whole. -/
structure Whole (s : Launchers) : Prop where
  temps : ∀ i tmp, (s.games i).at'.temp = some tmp → (s.temps tmp).isSome = true
  apart : ∀ i j tmp, (s.games i).at'.temp = some tmp → (s.games j).at'.temp = some tmp → i = j
  sealed : ∀ i tmp, (s.games i).at' = .moving tmp →
    ∃ b, s.temps tmp = some b ∧ (jars i).binary = some b
  dest : ∀ version b, s.dest version = some b → Shipped jars version b
  extracted : ∀ i, (s.games i).at'.extracted = true → (s.dest (jars i).version).isSome = true
  procs : ∀ pid p, s.procs pid = some p → Shipped jars (jars p.owner).version p.binary

theorem whole_start : Whole jars Launchers.start where
  temps := by rintro i tmp ⟨⟩
  apart := by rintro i j tmp ⟨⟩
  sealed := by rintro i tmp ⟨⟩
  dest := by rintro version b ⟨⟩
  extracted := by rintro i ⟨⟩
  procs := by rintro pid p ⟨⟩

section
variable (s : Launchers)

/-- No thread that writes a file comes from where it has none. -/
theorem route_temp {e : LaunchStep} (i : GameId) (a b : LauncherAt) (t : TempId)
    (hroute : Route jars s e i a b) (hb : b.temp = some t) : a = .moving t ∧ b = .unmoved t := by
  cases hroute with
  | unmoved tmp =>
    cases hb
    exact ⟨rfl, rfl⟩
  | _ => cases hb

variable (h : Whole jars s)
include h

/-- The game `j` goes on, with the file of its own set to `c`. -/
theorem whole_own (j : GameId) (tmp : TempId) (c : Option (List UInt8)) (g : Game)
    (hown : ∀ i, i ≠ j → (s.games i).at'.temp ≠ some tmp)
    (htemp : ∀ t, g.at'.temp = some t → t = tmp ∧ c.isSome = true)
    (hsealed : ∀ t, g.at' = .moving t → ∃ b, c = some b ∧ (jars j).binary = some b)
    (hext : g.at'.extracted = true → (s.dest (jars j).version).isSome = true) :
    Whole jars ({ s with temps := Function.update s.temps tmp c }.setGame j g) := by
  have hgame := games_setGame { s with temps := Function.update s.temps tmp c } j
  have hother : ∀ i t, i ≠ j → (s.games i).at'.temp = some t →
      Function.update s.temps tmp c t = s.temps t := by
    intro i t hi ht
    apply Function.update_of_ne
    rintro rfl
    exact hown i hi ht
  refine ⟨?_, ?_, ?_, h.dest, ?_, h.procs⟩
  · intro i t ht
    rw [hgame] at ht
    show (Function.update s.temps tmp c t).isSome = true
    split at ht
    · obtain ⟨rfl, hc⟩ := htemp t ht
      rw [Function.update_self]
      exact hc
    · next hi =>
      rw [hother i t hi ht]
      exact h.temps i t ht
  · intro i k t hi hk
    rw [hgame] at hi hk
    split at hi
    · next he =>
      obtain ⟨rfl, -⟩ := htemp t hi
      split at hk
      · next hk' => rw [he, hk']
      · next hne => exact absurd hk (hown k hne)
    · next hne =>
      split at hk
      · obtain ⟨rfl, -⟩ := htemp t hk
        exact absurd hi (hown i hne)
      · exact h.apart i k t hi hk
  · intro i t ht
    rw [hgame] at ht
    show ∃ b, Function.update s.temps tmp c t = some b ∧ _
    split at ht
    · next he =>
      obtain ⟨rfl, -⟩ := htemp t (by rw [ht]; rfl)
      rw [Function.update_self, he]
      exact hsealed t ht
    · next hi =>
      rw [hother i t hi (by rw [ht]; rfl)]
      exact h.sealed i t ht
  · intro i hi
    rw [hgame] at hi
    split at hi
    · next he =>
      rw [he]
      exact hext hi
    · exact h.extracted i hi

/-- The game goes on, and no file changes. -/
theorem whole_setGame (j : GameId) (g : Game)
    (htemp : ∀ t, g.at'.temp = some t → (s.games j).at'.temp = some t)
    (hsealed : ∀ t, g.at' = .moving t → (s.games j).at' = .moving t)
    (hext : g.at'.extracted = true → (s.dest (jars j).version).isSome = true) :
    Whole jars (s.setGame j g) := by
  have hgame := games_setGame s j
  refine ⟨?_, ?_, ?_, h.dest, ?_, h.procs⟩
  · intro i t ht
    rw [hgame] at ht
    split at ht
    · exact h.temps j t (htemp t ht)
    · exact h.temps i t ht
  · intro i k t hi hk
    rw [hgame] at hi hk
    split at hi
    · next he =>
      split at hk
      · next hk' => rw [he, hk']
      · rw [he]
        exact h.apart j k t (htemp t hi) hk
    · split at hk
      · next hk' =>
        rw [hk']
        exact h.apart i j t hi (htemp t hk)
      · exact h.apart i k t hi hk
  · intro i t ht
    rw [hgame] at ht
    split at ht
    · next he =>
      rw [he]
      exact h.sealed j t (hsealed t ht)
    · exact h.sealed i t ht
  · intro i hi
    rw [hgame] at hi
    split at hi
    · next he =>
      rw [he]
      exact hext hi
    · exact h.extracted i hi

theorem whole_go (j : GameId) (a : LauncherAt) (ht : a.temp = none)
    (hext : a.extracted = true → (s.dest (jars j).version).isSome = true) :
    Whole jars (s.go j a) := by
  apply whole_setGame jars s h j _ _ _ hext
  · intro t he
    cases ht.symm.trans he
  · intro t he
    have he : a = .moving t := he
    rw [he] at ht
    cases ht

/-- A game's own temporary file is no other's. -/
theorem other_temp (j : GameId) (tmp : TempId) (hat : (s.games j).at'.temp = some tmp) (i : GameId)
    (hi : i ≠ j) : (s.games i).at'.temp ≠ some tmp :=
  fun ht => hi (h.apart i j tmp ht hat)

theorem whole_setProc (pid : Pid) (p : Proc) (hp : Shipped jars (jars p.owner).version p.binary) :
    Whole jars (s.setProc pid p) := by
  refine ⟨h.temps, h.apart, h.sealed, h.dest, h.extracted, ?_⟩
  intro q r hr
  rcases (Run.update_iff s.procs pid (some p) (· = some r) q).mp hr with ⟨-, hnew⟩ | ⟨-, hold⟩
  · cases hnew
    exact hp
  · exact h.procs q r hold

/-- A whole binary is moved into its place. -/
theorem whole_dest (version : String) (b : List UInt8) (hb : Shipped jars version b) :
    Whole jars { s with dest := Function.update s.dest version (some b) } := by
  refine ⟨h.temps, h.apart, h.sealed, ?_, ?_, h.procs⟩
  · intro v b' hv
    rcases (Run.update_iff s.dest version (some b) (· = some b') v).mp hv with ⟨rfl, hnew⟩ | ⟨-, hold⟩
    · cases hnew
      exact hb
    · exact h.dest v b' hold
  · intro i hi
    show (Function.update s.dest version (some b) (jars i).version).isSome = true
    rw [Function.update_apply]
    split
    · rfl
    · exact h.extracted i hi

/-- A thread that has the binary goes on to start it. -/
theorem route_extracted {e : LaunchStep} (i : GameId) (a b : LauncherAt)
    (hat : (s.games i).at' = a) (hroute : Route jars s e i a b) (hb : b.extracted = true) :
    (s.dest (jars i).version).isSome = true := by
  cases hroute with
  | found hd => exact hd
  | named => exact h.extracted i (by rw [hat]; rfl)
  | unnamed => exact h.extracted i (by rw [hat]; rfl)
  | initialized => exact h.extracted i (by rw [hat]; rfl)
  | _ => cases hb

theorem whole_step (e : LaunchStep) : Whole jars (s.stepLaunch jars e) := by
  have hdoes := launches_step jars s e
  generalize s.stepLaunch jars e = s' at hdoes
  cases hdoes with
  | nothing => exact h
  | goes e i a b hat hroute =>
    apply whole_setGame jars s h i
    · intro t ht
      obtain ⟨ha, -⟩ := route_temp jars s i a b t hroute ht
      rw [hat, ha]
      rfl
    · intro t ht
      have hb : b = .moving t := ht
      obtain ⟨-, hb'⟩ := route_temp jars s i a b t hroute (by rw [hb]; rfl)
      cases hb.symm.trans hb'
    · exact route_extracted jars s h i a b hat hroute
  | create i tmp hat hfree =>
    refine whole_own jars s h i tmp (some []) _ ?_ ?_ (by rintro t ⟨⟩) (by rintro ⟨⟩)
    · intro k _ hk
      have hsome := h.temps k tmp hk
      rw [hfree] at hsome
      cases hsome
    · rintro t ⟨⟩
      exact ⟨rfl, rfl⟩
  | copy i n tmp binary hat hb =>
    have htemp : (s.games i).at'.temp = some tmp := by
      rw [hat]
      rfl
    have hown := whole_own jars s h i tmp (some (binary.take n)) (s.games i)
      (other_temp jars s h i tmp htemp)
      (by
        intro t ht
        cases htemp.symm.trans ht
        exact ⟨rfl, rfl⟩)
      (by
        intro t ht
        cases hat.symm.trans ht)
      (h.extracted i)
    unfold Launchers.setGame at hown
    dsimp only at hown
    rw [Function.update_eq_self] at hown
    exact hown
  | filled i tmp binary hat hb =>
    have hown : (s.games i).at'.temp = some tmp := by rw [hat]; rfl
    refine whole_own jars s h i tmp (some binary) _ (other_temp jars s h i tmp hown) ?_ ?_
      (by rintro ⟨⟩)
    · rintro t ⟨⟩
      exact ⟨rfl, rfl⟩
    · rintro t ⟨⟩
      exact ⟨binary, rfl, hb⟩
  | move i tmp hat =>
    obtain ⟨b, htmp, hb⟩ := h.sealed i tmp hat
    rw [htmp]
    have hdest := whole_dest jars s h (jars i).version b ⟨i, rfl, hb⟩
    refine whole_own jars _ hdest i tmp none _ (other_temp jars s h i tmp (by rw [hat]; rfl))
      (by rintro t ⟨⟩) (by rintro t ⟨⟩) fun _ => ?_
    show (Function.update s.dest (jars i).version (some b) (jars i).version).isSome = true
    rw [Function.update_self]
    rfl
  | drop e i tmp b hat hb =>
    refine whole_own jars s h i tmp none _ (other_temp jars s h i tmp hat) ?_ ?_ ?_
    · rintro t ht
      rcases hb with rfl | ⟨rfl, -⟩ <;> cases ht
    · rintro t ht
      have hbt : b = .moving t := ht
      rcases hb with rfl | ⟨rfl, -⟩ <;> cases hbt
    · intro hext
      rcases hb with rfl | ⟨rfl, hd⟩
      · cases hext
      · exact hd
  | start i pid binary hat hpid hdest =>
    have hproc := whole_setProc jars s h pid ⟨i, binary, true, false⟩ (h.dest _ _ hdest)
    exact whole_setGame jars _ hproc i _ (by rintro t ⟨⟩) (by rintro t ⟨⟩) (by rintro ⟨⟩)
  | hook i => exact whole_setGame jars s h i _ (by rintro t ⟨⟩) (by rintro t ⟨⟩) (by rintro ⟨⟩)
  | unhooked i => exact whole_go jars s h i _ rfl (by rintro ⟨⟩)
  | die pid p hp => exact whole_setProc jars s h pid _ (h.procs pid p hp)
  | shutdown i => exact whole_setGame jars s h i _ (fun _ => id) (fun _ => id) (h.extracted i)
  | stop i k b => exact whole_setGame jars s h i _ (fun _ => id) (fun _ => id) (h.extracted i)
  | force i k pid p _ hp =>
    have hproc := whole_setProc jars s h pid { p with forced := true } (h.procs pid p hp)
    exact whole_setGame jars _ hproc i _ (fun _ => id) (fun _ => id) (h.extracted i)
  | ended i k => exact whole_setGame jars s h i _ (fun _ => id) (fun _ => id) (h.extracted i)
  | halt i => exact whole_setGame jars s h i _ (by rintro t ⟨⟩) (by rintro t ⟨⟩) (by rintro ⟨⟩)
  | crash i => exact whole_setGame jars s h i _ (by rintro t ⟨⟩) (by rintro t ⟨⟩) (by rintro ⟨⟩)

end

/-- **What is started is whole**: in every run, however many games extract the
binary at once and wherever they are killed, the file at its place is absent or
all of what a jar of that version brings, and so is every binary that is started; a
thread that comes to start it finds it there. -/
theorem binary_whole (l : List LaunchStep) :
    let s := Run.run (Launchers.stepLaunch jars) Launchers.start l
    (∀ version b, s.dest version = some b → Shipped jars version b) ∧
    (∀ pid p, s.procs pid = some p → Shipped jars (jars p.owner).version p.binary) ∧
    ∀ j, (s.games j).at' = .launching → ∃ b, s.dest (jars j).version = some b := by
  intro s
  have h : Whole jars s :=
    Run.run_invariant (Launchers.stepLaunch jars) (Whole jars) (fun s e h => whole_step jars s h e)
      Launchers.start (whole_start jars) l
  refine ⟨h.dest, h.procs, ?_⟩
  intro j hj
  exact Option.isSome_iff_exists.mp (h.extracted j (by rw [hj]; rfl))

end

end McTunnel
