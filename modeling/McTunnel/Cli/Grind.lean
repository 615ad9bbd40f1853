import McTunnel.Core.Sample
import McTunnel.Lib.Run

/-!
# Vanity grinding (`grind.rs`)

Workers generate keys in batches and look at the abort flag in between; the one
that finds a match sets the flag and then sends the key.  The reporter waits for
a key, a second at a time, and looks at the flag after each second: a flag that
is set means an abort to it.

    nothing but an abort ends in `None`, and only matches in `Some` ↔
      no match from before an abort is under way when the reporter
      finds the flag set                                              (always_answered_iff)
-/

namespace McTunnel

/-! ## Code -/

/-- Validate a requested vanity prefix against the keyid charset and length. -/
def validate (vanityPrefix : String) (keyidLen : Nat) : Except String Unit :=
  if vanityPrefix.isEmpty then .error "--vanity-prefix must not be empty"
  else if vanityPrefix.toList.all isBase32Lower = false then
    .error "--vanity-prefix must use only the base32 charset a-z2-7 (no 0 1 8 9 o l)"
  else if keyidLen < vanityPrefix.utf8ByteSize then
    .error ("--vanity-prefix (" ++ Nat.repr vanityPrefix.utf8ByteSize ++
      " chars) is longer than keyid_len (" ++ Nat.repr keyidLen ++ ")")
  else if MAX_KEYID_LEN < vanityPrefix.utf8ByteSize then .error "--vanity-prefix too long"
  else .ok ()

/-- Keys a worker generates between two looks at the flag. -/
def BATCH : Nat := 4096

/-- A key that matches; `early` if it was found before an abort from outside. -/
structure Match where
  secret : Vector UInt8 32
  early : Bool
deriving DecidableEq

inductive Worker
  /-- about to look at the flag -/
  | checking
  /-- so many keys into its batch -/
  | batch (made : Nat)
  /-- about to set the flag -/
  | found (m : Match)
  /-- about to send the key -/
  | stored (m : Match)
  | exited
deriving DecidableEq

inductive Reporter
  /-- in `recv_timeout` -/
  | waiting
  /-- about to look at the flag -/
  | timedOut
  /-- out of the loop: what `grind` returns -/
  | done (found : Option (Vector UInt8 32))
deriving DecidableEq

/-- A grind on `n + 1` threads. -/
structure Grind (n : Nat) where
  flag : Bool
  /-- the flag was set from outside -/
  outside : Bool
  /-- a match was found when it had not been -/
  foundEarly : Bool
  workers : Fin (n + 1) → Worker
  queue : List Match
  reporter : Reporter

def Grind.start (n : Nat) : Grind n where
  flag := false
  outside := false
  foundEarly := false
  workers := fun _ => .checking
  queue := []
  reporter := .waiting

inductive GrindStep (n : Nat)
  | check (w : Fin (n + 1))
  | generate (w : Fin (n + 1)) (secret : Vector UInt8 32)
  | store (w : Fin (n + 1))
  | send (w : Fin (n + 1))
  /-- the flag is set from outside -/
  | abort
  | recv
  /-- a second has passed and nothing was there -/
  | timeout
  | readFlag
  | disconnected

/-- The worker goes on as `x`. -/
def Grind.move {n : Nat} (s : Grind n) (w : Fin (n + 1)) (x : Worker) : Grind n :=
  { s with workers := Function.update s.workers w x }

section
variable [Crates]

/-- `keyid_from_pubkey(&id.public_bytes(), plen) == prefix`. -/
def matched (vanityPrefix : String) (secret : Vector UInt8 32) : Bool :=
  keyidFromPubkey (Identity.publicBytes ⟨secret⟩) vanityPrefix.utf8ByteSize == vanityPrefix

variable {n : Nat}

def Grind.step (vanityPrefix : String) (s : Grind n) (i : GrindStep n) : Grind n :=
  match i with
  | .check w =>
    match s.workers w with
    | .checking => s.move w (if s.flag then .exited else .batch 0)
    | _ => s
  | .generate w secret =>
    match s.workers w with
    | .batch made =>
      if matched vanityPrefix secret then
        { s.move w (.found ⟨secret, !s.outside⟩) with foundEarly := s.foundEarly || !s.outside }
      else s.move w (if made + 1 < BATCH then .batch (made + 1) else .checking)
    | _ => s
  | .store w =>
    match s.workers w with
    | .found m => { s.move w (.stored m) with flag := true }
    | _ => s
  | .send w =>
    match s.workers w with
    | .stored m => { s.move w .exited with queue := s.queue ++ [m] }
    | _ => s
  | .abort => { s with flag := true, outside := true }
  | .recv =>
    match s.reporter, s.queue with
    | .waiting, m :: queue => { s with reporter := .done (some m.secret), queue := queue }
    | _, _ => s
  | .timeout =>
    if s.reporter = .waiting ∧ s.queue = [] ∧ ∃ w, s.workers w ≠ .exited then
      { s with reporter := .timedOut }
    else s
  | .readFlag =>
    if s.reporter = .timedOut then
      { s with reporter := if s.flag then .done none else .waiting }
    else s
  | .disconnected =>
    if s.reporter = .waiting ∧ s.queue = [] ∧ ∀ w, s.workers w = .exited then
      { s with reporter := .done none }
    else s

/-- What `grind` returns in a run, if it has returned. -/
def grind (n : Nat) (vanityPrefix : String) (keyidLen : Nat) (l : List (GrindStep n)) :
    Except String (Option (Option (Vector UInt8 32))) :=
  match validate vanityPrefix keyidLen with
  | .error e => .error e
  | .ok () =>
    match (Run.run (Grind.step vanityPrefix) (Grind.start n) l).reporter with
    | .done found => .ok (some found)
    | _ => .ok none

end

/-! ## Matches under way -/

section
variable {n : Nat}

def Worker.held : Worker → Option Match
  | .found m => some m
  | .stored m => some m
  | _ => none

/-- The worker has set the flag or seen it set. -/
def Worker.after : Worker → Bool
  | .stored _ => true
  | .exited => true
  | _ => false

/-- In a worker's hands or in the channel. -/
def Grind.UnderWay (s : Grind n) (m : Match) : Prop :=
  (∃ w, (s.workers w).held = some m) ∨ m ∈ s.queue

theorem held_move (s : Grind n) (w : Fin (n + 1)) (x : Worker) (m : Match) :
    (∃ v, ((s.move w x).workers v).held = some m) ↔
      x.held = some m ∨ ∃ v, v ≠ w ∧ (s.workers v).held = some m :=
  Function.exists_update_iff s.workers fun _ y => y.held = some m

/-- A worker that holds on to what it has changes nothing under way. -/
theorem underWay_move (s : Grind n) (w : Fin (n + 1)) (x : Worker)
    (hx : x.held = (s.workers w).held) (m : Match) :
    (s.move w x).UnderWay m ↔ s.UnderWay m := by
  unfold Grind.UnderWay
  rw [held_move]
  apply or_congr _ Iff.rfl
  constructor
  · rintro (h | ⟨v, -, h⟩)
    · exact ⟨w, hx ▸ h⟩
    · exact ⟨v, h⟩
  · rintro ⟨v, h⟩
    by_cases he : v = w
    · rw [he] at h
      exact Or.inl (hx.trans h)
    · exact Or.inr ⟨v, he, h⟩

/-- A worker that had nothing takes up a match. -/
theorem underWay_find (s : Grind n) (w : Fin (n + 1)) (m0 : Match) (hw : (s.workers w).held = none)
    (m : Match) : (s.move w (.found m0)).UnderWay m ↔ m = m0 ∨ s.UnderWay m := by
  unfold Grind.UnderWay
  rw [held_move, or_assoc]
  apply or_congr
  · rw [Worker.held, Option.some.injEq, eq_comm]
  · apply or_congr _ Iff.rfl
    constructor
    · rintro ⟨v, -, h⟩
      exact ⟨v, h⟩
    · rintro ⟨v, h⟩
      refine ⟨v, ?_, h⟩
      rintro rfl
      rw [hw] at h
      cases h

/-- What a worker sends stays under way. -/
theorem underWay_send (s : Grind n) (w : Fin (n + 1)) (m0 : Match)
    (hw : s.workers w = .stored m0) (m : Match) :
    Grind.UnderWay { s.move w .exited with queue := s.queue ++ [m0] } m ↔ s.UnderWay m := by
  show ((∃ v, ((s.move w .exited).workers v).held = some m) ∨ m ∈ s.queue ++ [m0]) ↔ s.UnderWay m
  unfold Grind.UnderWay
  rw [held_move, List.mem_append, List.mem_singleton]
  constructor
  · rintro ((h | ⟨v, -, h⟩) | h | rfl)
    · cases h
    · exact Or.inl ⟨v, h⟩
    · exact Or.inr h
    · exact Or.inl ⟨w, by rw [hw]; rfl⟩
  · rintro (⟨v, h⟩ | h)
    · by_cases he : v = w
      · rw [he, hw] at h
        cases h
        exact Or.inr (Or.inr rfl)
      · exact Or.inl (Or.inr ⟨v, he, h⟩)
    · exact Or.inr (Or.inl h)

theorem not_underWay_start (m : Match) : ¬ (Grind.start n).UnderWay m := by
  rintro (⟨w, hw⟩ | hm)
  · cases hw
  · cases hm

/-- The reporter got a key. -/
def Grind.Got (s : Grind n) : Prop := ∃ secret, s.reporter = .done (some secret)

theorem not_got (s : Grind n) (r : Reporter) (h : s.reporter = r)
    (hr : ∀ secret, r ≠ .done (some secret)) : ¬ s.Got := by
  rintro ⟨secret, hs⟩
  exact hr secret (h.symm.trans hs)

theorem after_move (s : Grind n) (w : Fin (n + 1)) (x : Worker) (P : Prop)
    (h : ∀ v, (s.workers v).after = true → P) (hx : x.after = true → P) :
    ∀ v, ((s.move w x).workers v).after = true → P :=
  (Function.forall_update_iff s.workers fun _ y => y.after = true → P).mpr
    ⟨hx, fun v _ => h v⟩

end

/-! ## What a step does -/

section
variable [Crates] {n : Nat}

/-- The steps of a grind. -/
inductive Grind.Does (vp : String) (s : Grind n) : GrindStep n → Grind n → Prop
  | nothing (i : GrindStep n) : (i = .readFlag → s.reporter ≠ .timedOut) → Grind.Does vp s i s
  /-- a worker moves on with what it holds -/
  | move (i : GrindStep n) (w : Fin (n + 1)) (x : Worker) : i ≠ .readFlag →
      x.held = (s.workers w).held → (x.after = true → s.flag = true) →
      Grind.Does vp s i (s.move w x)
  | find (w : Fin (n + 1)) (secret : Vector UInt8 32) : (s.workers w).held = none →
      matched vp secret = true →
      Grind.Does vp s (.generate w secret) { s.move w (.found ⟨secret, !s.outside⟩) with
        foundEarly := s.foundEarly || !s.outside }
  | store (w : Fin (n + 1)) (m : Match) : s.workers w = .found m →
      Grind.Does vp s (.store w) { s.move w (.stored m) with flag := true }
  | send (w : Fin (n + 1)) (m : Match) : s.workers w = .stored m →
      Grind.Does vp s (.send w) { s.move w .exited with queue := s.queue ++ [m] }
  | abort : Grind.Does vp s .abort { s with flag := true, outside := true }
  | recv (m : Match) (queue : List Match) : s.queue = m :: queue →
      Grind.Does vp s .recv { s with reporter := .done (some m.secret), queue := queue }
  | timeout : s.reporter = .waiting → Grind.Does vp s .timeout { s with reporter := .timedOut }
  | readFlag : s.reporter = .timedOut →
      Grind.Does vp s .readFlag { s with reporter := if s.flag then .done none else .waiting }
  | disconnected : s.reporter = .waiting → s.queue = [] → (∀ w, s.workers w = .exited) →
      Grind.Does vp s .disconnected { s with reporter := .done none }

theorem Grind.does_step (vp : String) (s : Grind n) (i : GrindStep n) :
    Grind.Does vp s i (s.step vp i) := by
  unfold Grind.step
  cases i with
  | check w =>
    dsimp only
    split
    · next hw =>
      split
      · next hf => exact .move _ w _ (by rintro ⟨⟩) (by rw [hw]; rfl) fun _ => hf
      · exact .move _ w _ (by rintro ⟨⟩) (by rw [hw]; rfl) (by rintro ⟨⟩)
    · exact .nothing _ (by rintro ⟨⟩)
  | generate w secret =>
    dsimp only
    split
    · next made hw =>
      split
      · next hm => exact .find w secret (by rw [hw]; rfl) hm
      · split
        · exact .move _ w _ (by rintro ⟨⟩) (by rw [hw]; rfl) (by rintro ⟨⟩)
        · exact .move _ w _ (by rintro ⟨⟩) (by rw [hw]; rfl) (by rintro ⟨⟩)
    · exact .nothing _ (by rintro ⟨⟩)
  | store w =>
    dsimp only
    split
    · next m hw => exact .store w m hw
    · exact .nothing _ (by rintro ⟨⟩)
  | send w =>
    dsimp only
    split
    · next m hw => exact .send w m hw
    · exact .nothing _ (by rintro ⟨⟩)
  | abort => exact .abort
  | recv =>
    dsimp only
    split
    · next m queue _ hq => exact .recv m queue hq
    · exact .nothing _ (by rintro ⟨⟩)
  | timeout =>
    dsimp only
    split
    · next hc => exact .timeout hc.1
    · exact .nothing _ (by rintro ⟨⟩)
  | readFlag =>
    dsimp only
    split
    · next hr => exact .readFlag hr
    · next hr => exact .nothing _ fun _ => hr
  | disconnected =>
    dsimp only
    split
    · next hc => exact .disconnected hc.1 hc.2.1 hc.2.2
    · exact .nothing _ (by rintro ⟨⟩)

end

/-! ## What every run keeps -/

section
variable [Crates] {n : Nat}

/-- How the flag, the matches and the workers belong together. -/
structure Kept (vanityPrefix : String) (s : Grind n) : Prop where
  good : ∀ m, s.UnderWay m → matched vanityPrefix m.secret = true
  got : ∀ secret, s.reporter = .done (some secret) → matched vanityPrefix secret = true
  early : ∀ m, s.UnderWay m → m.early = true → s.foundEarly = true
  late : ∀ m, s.UnderWay m → m.early = false → s.outside = true
  kept : s.foundEarly = true → (∃ m, s.UnderWay m ∧ m.early = true) ∨ s.Got
  flag : s.flag = true → s.outside = true ∨ (∃ m, s.UnderWay m ∧ m.early = true) ∨ s.Got
  after : ∀ w, (s.workers w).after = true → s.flag = true

theorem kept_start (vp : String) : Kept vp (Grind.start n) where
  good m hm := absurd hm (not_underWay_start m)
  got := by rintro secret ⟨⟩
  early m hm := absurd hm (not_underWay_start m)
  late m hm := absurd hm (not_underWay_start m)
  kept := by rintro ⟨⟩
  flag := by rintro ⟨⟩
  after := by rintro w ⟨⟩

/-- A step that leaves the matches, what is known of them and the reporter as they
are, and sets the flag for a reason only. -/
theorem kept_same (vp : String) (s s' : Grind n) (h : Kept vp s)
    (hu : ∀ m, s'.UnderWay m ↔ s.UnderWay m) (hearly : s'.foundEarly = s.foundEarly)
    (hout : s'.outside = s.outside) (hr : s'.reporter = s.reporter)
    (hflag : s'.flag = true →
      s.outside = true ∨ (∃ m, s.UnderWay m ∧ m.early = true) ∨ s.Got)
    (hafter : ∀ w, (s'.workers w).after = true → s'.flag = true) : Kept vp s' := by
  have hgot : s'.Got ↔ s.Got := by
    unfold Grind.Got
    rw [hr]
  constructor
  case good => exact fun m hm => h.good m ((hu m).mp hm)
  case got =>
    rw [hr]
    exact h.got
  case early =>
    rw [hearly]
    exact fun m hm => h.early m ((hu m).mp hm)
  case late =>
    rw [hout]
    exact fun m hm => h.late m ((hu m).mp hm)
  case kept =>
    rw [hearly, hgot]
    simp only [hu]
    exact h.kept
  case flag =>
    rw [hout, hgot]
    simp only [hu]
    exact hflag
  case after => exact hafter

/-- A worker moves on with what it holds. -/
theorem kept_move (vp : String) (s : Grind n) (h : Kept vp s) (w : Fin (n + 1)) (x : Worker)
    (hx : x.held = (s.workers w).held) (ha : x.after = true → s.flag = true) :
    Kept vp (s.move w x) :=
  kept_same vp s _ h (underWay_move s w x hx) rfl rfl rfl h.flag (after_move s w x _ h.after ha)

/-- A worker finds a match. -/
theorem kept_find (vp : String) (s : Grind n) (h : Kept vp s) (w : Fin (n + 1))
    (hw : (s.workers w).held = none) (secret : Vector UInt8 32) (hm : matched vp secret = true) :
    Kept vp { s.move w (.found ⟨secret, !s.outside⟩) with
      foundEarly := s.foundEarly || !s.outside } := by
  have hu := underWay_find s w ⟨secret, !s.outside⟩ hw
  constructor
  case good =>
    intro m hmu
    rcases (hu m).mp hmu with rfl | hold
    · exact hm
    · exact h.good m hold
  case got => exact h.got
  case early =>
    intro m hmu he
    show (s.foundEarly || !s.outside) = true
    rcases (hu m).mp hmu with rfl | hold
    · rw [Bool.or_eq_true]
      exact Or.inr he
    · rw [h.early m hold he]
      rfl
  case late =>
    intro m hmu he
    rcases (hu m).mp hmu with rfl | hold
    · exact Bool.not_eq_false' .. ▸ he
    · exact h.late m hold he
  case kept =>
    intro hf
    have hf : (s.foundEarly || !s.outside) = true := hf
    rcases (Bool.or_eq_true _ _).mp hf with hold | hnew
    · rcases h.kept hold with ⟨m, hmu, he⟩ | hgot
      · exact Or.inl ⟨m, (hu m).mpr (Or.inr hmu), he⟩
      · exact Or.inr hgot
    · exact Or.inl ⟨_, (hu _).mpr (Or.inl rfl), hnew⟩
  case flag =>
    intro hf
    rcases h.flag hf with ho | ⟨m, hmu, he⟩ | hgot
    · exact Or.inl ho
    · exact Or.inr (Or.inl ⟨m, (hu m).mpr (Or.inr hmu), he⟩)
    · exact Or.inr (Or.inr hgot)
  case after => exact after_move s w _ _ h.after (by rintro ⟨⟩)

/-- A worker sets the flag for its match. -/
theorem kept_store (vp : String) (s : Grind n) (h : Kept vp s) (w : Fin (n + 1)) (m0 : Match)
    (hw : s.workers w = .found m0) :
    Kept vp { s.move w (.stored m0) with flag := true } := by
  have hu := underWay_move s w (.stored m0) (by rw [hw]; rfl)
  have hm0 : s.UnderWay m0 := Or.inl ⟨w, by rw [hw]; rfl⟩
  refine kept_same vp s _ h hu rfl rfl rfl ?_ fun _ _ => rfl
  intro _
  cases he : m0.early with
  | true => exact Or.inr (Or.inl ⟨m0, hm0, he⟩)
  | false => exact Or.inl (h.late m0 hm0 he)

/-- A worker sends its match and exits. -/
theorem kept_send (vp : String) (s : Grind n) (h : Kept vp s) (w : Fin (n + 1)) (m0 : Match)
    (hw : s.workers w = .stored m0) :
    Kept vp { s.move w .exited with queue := s.queue ++ [m0] } :=
  kept_same vp s _ h (underWay_send s w m0 hw) rfl rfl rfl h.flag
    (after_move s w _ _ h.after fun _ => h.after w (by rw [hw]; rfl))

theorem kept_abort (vp : String) (s : Grind n) (h : Kept vp s) :
    Kept vp { s with flag := true, outside := true } where
  good := h.good
  got := h.got
  early := h.early
  late _ _ _ := rfl
  kept := h.kept
  flag _ := Or.inl rfl
  after _ _ := rfl

/-- The reporter gets a match. -/
theorem kept_recv (vp : String) (s : Grind n) (h : Kept vp s) (m0 : Match) (queue : List Match)
    (hq : s.queue = m0 :: queue) :
    Kept vp { s with reporter := .done (some m0.secret), queue := queue } := by
  have hu : ∀ m, Grind.UnderWay { s with
      reporter := .done (some m0.secret), queue := queue } m → s.UnderWay m := by
    rintro m (hw | hm)
    · exact Or.inl hw
    · exact Or.inr (hq ▸ List.mem_cons_of_mem _ hm)
  have hm0 : s.UnderWay m0 := Or.inr (hq ▸ List.mem_cons_self)
  constructor
  case good => exact fun m hm => h.good m (hu m hm)
  case got =>
    rintro secret ⟨⟩
    exact h.good m0 hm0
  case early => exact fun m hm => h.early m (hu m hm)
  case late => exact fun m hm => h.late m (hu m hm)
  case kept => exact fun _ => Or.inr ⟨_, rfl⟩
  case flag => exact fun _ => Or.inr (Or.inr ⟨_, rfl⟩)
  case after => exact h.after

/-- The reporter, which has got nothing, goes on with nothing. -/
theorem kept_reporter (vp : String) (s : Grind n) (h : Kept vp s) (r : Reporter) (hs : ¬ s.Got)
    (hr : ∀ secret, r ≠ .done (some secret)) : Kept vp { s with reporter := r } where
  good := h.good
  got secret he := absurd he (hr secret)
  early := h.early
  late := h.late
  kept := by
    intro hf
    rcases h.kept hf with hm | hgot
    · exact Or.inl hm
    · exact absurd hgot hs
  flag := by
    intro hf
    rcases h.flag hf with ho | hm | hgot
    · exact Or.inl ho
    · exact Or.inr (Or.inl hm)
    · exact absurd hgot hs
  after := h.after

theorem kept_step (vp : String) (s : Grind n) (i : GrindStep n) (h : Kept vp s) :
    Kept vp (s.step vp i) := by
  have hd := Grind.does_step vp s i
  generalize s.step vp i = s' at hd
  cases hd with
  | nothing => exact h
  | move _ w x _ hx ha => exact kept_move vp s h w x hx ha
  | find w secret hw hm => exact kept_find vp s h w hw secret hm
  | store w m hw => exact kept_store vp s h w m hw
  | send w m hw => exact kept_send vp s h w m hw
  | abort => exact kept_abort vp s h
  | recv m queue hq => exact kept_recv vp s h m queue hq
  | timeout hr => exact kept_reporter vp s h _ (not_got s _ hr (by rintro _ ⟨⟩)) (by rintro _ ⟨⟩)
  | readFlag hr =>
    have hnot := not_got s _ hr (by rintro _ ⟨⟩)
    split
    · exact kept_reporter vp s h _ hnot (by rintro _ ⟨⟩)
    · exact kept_reporter vp s h _ hnot (by rintro _ ⟨⟩)
  | disconnected hr =>
    exact kept_reporter vp s h _ (not_got s _ hr (by rintro _ ⟨⟩)) (by rintro _ ⟨⟩)

/-! ## What `grind` returns -/

/-- A return without a key comes from an abort, before which there was no match. -/
def Grind.Honest (s : Grind n) : Prop :=
  s.reporter = .done none → s.outside = true ∧ s.foundEarly = false

/-- When the reporter finds the flag set, no match from before an abort is under way. -/
def NoneUnderWay (s : Grind n) (i : GrindStep n) : Prop :=
  match i with
  | .readFlag => s.reporter = .timedOut → s.flag = true → ∀ m, s.UnderWay m → m.early = false
  | _ => True

/-- Without an early match under way and without a key, a set flag is an abort. -/
theorem honest_of_none (vp : String) (s : Grind n) (h : Kept vp s) (hf : s.flag = true)
    (hgot : ¬ s.Got) (hu : ∀ m, s.UnderWay m → m.early = false) :
    s.outside = true ∧ s.foundEarly = false := by
  have hno : ¬ ∃ m, s.UnderWay m ∧ m.early = true := by
    rintro ⟨m, hm, he⟩
    rw [hu m hm] at he
    cases he
  constructor
  · rcases h.flag hf with ho | hm | hg
    · exact ho
    · exact absurd hm hno
    · exact absurd hg hgot
  · by_contra hfound
    rw [Bool.not_eq_false] at hfound
    rcases h.kept hfound with hm | hg
    · exact hno hm
    · exact hgot hg

theorem honest_readFlag_iff (vp : String) (s : Grind n) (h : Kept vp s)
    (hr : s.reporter = .timedOut) :
    Grind.Honest { s with reporter := if s.flag then .done none else .waiting } ↔
      NoneUnderWay s .readFlag := by
  have hgot := not_got s _ hr (by rintro _ ⟨⟩)
  unfold NoneUnderWay
  cases hf : s.flag with
  | false =>
    constructor
    · rintro - - ⟨⟩
    · rintro - ⟨⟩
  | true =>
    constructor
    · intro hh _ _ m hm
      have hfound : s.foundEarly = false := (hh rfl).2
      cases he : m.early with
      | false => rfl
      | true =>
        rw [h.early m hm he] at hfound
        cases hfound
    · intro hu _
      exact honest_of_none vp s h hf hgot (hu hr rfl)

theorem honest_disconnected (vp : String) (s : Grind n) (h : Kept vp s)
    (hr : s.reporter = .waiting) (hqueue : s.queue = []) (hexited : ∀ w, s.workers w = .exited) :
    Grind.Honest { s with reporter := .done none } := by
  intro _
  have hf : s.flag = true := h.after 0 (by rw [hexited 0]; rfl)
  apply honest_of_none vp s h hf (not_got s _ hr (by rintro _ ⟨⟩))
  rintro m (⟨w, hw⟩ | hm)
  · rw [hexited w] at hw
    cases hw
  · rw [hqueue] at hm
    cases hm

omit [Crates] in
theorem honest_find (s : Grind n) (hq : s.Honest) (w : Fin (n + 1)) (x : Worker) :
    Grind.Honest { s.move w x with foundEarly := s.foundEarly || !s.outside } := by
  intro hr
  obtain ⟨ho, hfound⟩ := hq hr
  refine ⟨ho, ?_⟩
  show (s.foundEarly || !s.outside) = false
  rw [ho, hfound]
  rfl

omit [Crates] in
/-- Only a look at the flag has something to ask for. -/
theorem noneUnderWay_of_ne (s : Grind n) (i : GrindStep n)
    (h : i = .readFlag → s.reporter ≠ .timedOut) : NoneUnderWay s i := by
  unfold NoneUnderWay
  split
  · intro ht
    exact absurd ht (h rfl)
  · trivial

theorem honest_step_iff (vp : String) (s : Grind n) (i : GrindStep n) (h : Kept vp s)
    (hq : s.Honest) : (s.step vp i).Honest ↔ NoneUnderWay s i := by
  have hd := Grind.does_step vp s i
  generalize s.step vp i = s' at hd
  cases hd with
  | nothing _ hi => exact iff_of_true hq (noneUnderWay_of_ne s i hi)
  | move _ w x hi => exact iff_of_true hq (noneUnderWay_of_ne s i fun he => absurd he hi)
  | find w secret => exact iff_of_true (honest_find s hq w _) trivial
  | store => exact iff_of_true hq trivial
  | send => exact iff_of_true hq trivial
  | abort => exact iff_of_true (fun hr => ⟨rfl, (hq hr).2⟩) trivial
  | recv => exact iff_of_true (by rintro ⟨⟩) trivial
  | timeout => exact iff_of_true (by rintro ⟨⟩) trivial
  | readFlag hr => exact honest_readFlag_iff vp s h hr
  | disconnected hr hqueue hexited =>
    exact iff_of_true (honest_disconnected vp s h hr hqueue hexited) trivial

/-- A match begins with the prefix at every length from the prefix's own. -/
theorem take_of_matched (vp : String) (secret : Vector UInt8 32) (h : matched vp secret = true)
    (len : Nat) (hl : vp.utf8ByteSize ≤ len) :
    (keyidFromPubkey (Identity.publicBytes ⟨secret⟩) len).toList.take vp.utf8ByteSize =
      vp.toList := by
  have hm := congrArg String.toList (beq_iff_eq.mp h)
  rw [toList_keyidFromPubkey] at hm
  rw [toList_keyidFromPubkey, List.take_take, min_eq_left hl]
  exact hm

theorem grind_ok_iff (vp : String) (keyidLen : Nat) (hv : validate vp keyidLen = .ok ())
    (l : List (GrindStep n)) (found : Option (Vector UInt8 32)) :
    grind n vp keyidLen l = .ok (some found) ↔
      (Run.run (Grind.step vp) (Grind.start n) l).reporter = .done found := by
  unfold grind
  rw [hv]
  dsimp only
  cases (Run.run (Grind.step vp) (Grind.start n) l).reporter with
  | waiting => simp
  | timedOut => simp
  | done f => simp

/-! ## Top theorem -/

/-- **No found key is lost exactly when no match is under way at the reporter's
look at a set flag**: whatever runs up to here, `None` is returned only after an
abort from outside before which nobody had a match, and what is returned
otherwise begins with the prefix at every length. -/
theorem always_answered_iff (vp : String) (keyidLen : Nat) (hv : validate vp keyidLen = .ok ())
    (l : List (GrindStep n)) :
    (∀ l1 l2, l = l1 ++ l2 →
      (grind n vp keyidLen l1 = .ok (some none) →
        (Run.run (Grind.step vp) (Grind.start n) l1).outside = true ∧
        (Run.run (Grind.step vp) (Grind.start n) l1).foundEarly = false) ∧
      ∀ secret, grind n vp keyidLen l1 = .ok (some (some secret)) → ∀ len, vp.utf8ByteSize ≤ len →
        (keyidFromPubkey (Identity.publicBytes ⟨secret⟩) len).toList.take vp.utf8ByteSize =
          vp.toList) ↔
    Run.Each (Grind.step vp) NoneUnderWay (Grind.start n) l := by
  have hkept := Run.run_invariant (Grind.step vp) (Kept vp) (fun s i => kept_step vp s i)
    (Grind.start n) (kept_start vp)
  have hiff := Run.always_iff_each_of (Grind.step vp) (Kept vp) (fun s i => kept_step vp s i)
    NoneUnderWay Grind.Honest (honest_step_iff vp) (Grind.start n) (kept_start vp)
    (by rintro ⟨⟩) l
  rw [← hiff]
  constructor
  · intro h l1 l2 hl hr
    exact (h l1 l2 hl).1 ((grind_ok_iff vp keyidLen hv l1 none).mpr hr)
  · intro h l1 l2 hl
    refine ⟨fun hg => h l1 l2 hl ((grind_ok_iff vp keyidLen hv l1 none).mp hg), ?_⟩
    intro secret hg
    have hr := (grind_ok_iff vp keyidLen hv l1 _).mp hg
    exact take_of_matched vp secret ((hkept l1).got secret hr)

end

/-! ## Alice's key on one thread -/

namespace Sample
attribute [local instance] crates

/-- The prefix of Alice's keyid. -/
def wanted : String := "eh7d"

theorem matched_alice : matched wanted aliceSecret = true := by
  have hk : Text.truncate aliceKeyidFull wanted.utf8ByteSize = wanted := by decide +kernel
  unfold matched Identity.publicBytes
  rw [beq_iff_eq]
  show Text.truncate (keyidFullFromPubkey (publicKey aliceSecret)) _ = _
  rw [publicKey_alice, keyidFull_alice, hk]

/-- The worker finds Alice's key and sends it; the reporter gets it. -/
def delivered : List (GrindStep 0) :=
  [.check 0, .generate 0 aliceSecret, .store 0, .send 0, .recv]

/-- The second is over after the worker set the flag and before it sends the key. -/
def interrupted : List (GrindStep 0) :=
  [.check 0, .generate 0 aliceSecret, .store 0, .timeout, .readFlag, .send 0]

theorem grind_delivered : grind 0 wanted 16 delivered = .ok (some (some aliceSecret)) := by
  rw [grind_ok_iff wanted 16 (by decide +kernel)]
  simp [delivered, Run.run, Grind.step, Grind.move, Grind.start, matched_alice]

end Sample

section
attribute [local instance] Sample.crates

/-- Alice's key is found and sent, `None` is returned, and there was no abort. -/
theorem found_key_lost :
    grind 0 Sample.wanted 16 Sample.interrupted = .ok (some none) ∧
    (Run.run (Grind.step Sample.wanted) (Grind.start 0) Sample.interrupted).outside = false ∧
    (Run.run (Grind.step Sample.wanted) (Grind.start 0) Sample.interrupted).queue =
      [⟨Sample.aliceSecret, true⟩] := by
  rw [grind_ok_iff Sample.wanted 16 (by decide +kernel)]
  simp [Sample.interrupted, Run.run, Grind.step, Grind.move, Grind.start, Sample.matched_alice]

theorem answered_delivered :
    (keyidFromPubkey (Identity.publicBytes ⟨Sample.aliceSecret⟩) 16).toList.take 4 =
      "eh7d".toList := by
  have heach : Run.Each (Grind.step Sample.wanted) NoneUnderWay (Grind.start 0) Sample.delivered :=
    ⟨trivial, trivial, trivial, trivial, trivial, trivial⟩
  have h := (always_answered_iff Sample.wanted 16 (by decide +kernel) Sample.delivered).mpr heach
  exact (h Sample.delivered [] rfl).2 Sample.aliceSecret Sample.grind_delivered 16 (by decide)

end

end McTunnel
