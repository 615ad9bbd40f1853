import McTunnel.Proxy.Live
import McTunnel.Proxy.Rate

/-!
# The accept loop (`proxy/lib.rs`)

The loop of `run_publish` and `run_connect` asks the rate limiter about each
arrival and the counter about those that the limiter lets through; the tasks of
the tunnels go on beside it.  Times are those that `Instant::now` reads.

    tunnels spawned from a to e ≤ c + c * (e - a) + what was being decided at a,
      and never more than the cap are up                             (spawned_bounds)
    on the connect side: ≤ 64 + 64 * (e - a) and one more          (connect_spawned_le)
    an arrival 1/c seconds after the last one, with room left, gets a tunnel,
      which is up and counted, whatever the tasks do meanwhile     (arrival_admitted)
-/

namespace McTunnel

open TokenBucket (Bucket)

/-! ## Code -/

/-- The connect side's cap on new tunnels a second. -/
def CONNECT_MAX_CONN_RATE : UInt32 := 64

structure AcceptLoop where
  proxy : Proxy
  rate : RateLimiter

inductive LoopStep
  /-- `incoming.next` or `listener.accept` returns -/
  | arrive
  | load
  | add
  | stop (e : String)
  | opened (i : Nat) (result : Except String Unit)
  | spliced (i : Nat) (result : Except String Unit)
  | leave (i : Nat)

/-- The step of the loop and the tasks, with the limiter's answer. -/
def LoopStep.proxy (allowed : Bool) : LoopStep → ProxyStep
  | .arrive => .arrive allowed
  | .load => .load
  | .add => .add
  | .stop e => .stop e
  | .opened i result => .opened i result
  | .spliced i result => .spliced i result
  | .leave i => .leave i

namespace AcceptLoop

/-- `run_publish` is given its rate. -/
def start (perSec : UInt32) (now : ℚ) : AcceptLoop := ⟨Proxy.start, RateLimiter.new perSec now⟩

def run_connect (now : ℚ) : AcceptLoop := start CONNECT_MAX_CONN_RATE now

/-- The limiter is asked. -/
def asks (s : AcceptLoop) (i : LoopStep) : Bool :=
  match i, s.proxy.loop with
  | .arrive, .accept => true
  | _, _ => false

def step (side : ProxySide) (s : AcceptLoop) (x : ℚ × LoopStep) : AcceptLoop :=
  if s.asks x.2 then
    let (allowed, rate) := s.rate.allow x.1
    { proxy := s.proxy.step side (x.2.proxy allowed), rate := rate }
  else { s with proxy := s.proxy.step side (x.2.proxy false) }

/-- The step spawns a tunnel's task. -/
def spawns (s : AcceptLoop) (x : ℚ × LoopStep) : Bool :=
  match x.2, s.proxy.loop with
  | .add, .add _ => true
  | _, _ => false

/-- The tunnels that a run spawns. -/
def spawned (side : ProxySide) (s : AcceptLoop) (l : List (ℚ × LoopStep)) : Nat :=
  (Run.trace (step side) spawns s l).count true

/-- The arrivals that are let through and not decided yet. -/
def deciding (s : AcceptLoop) : Nat :=
  match s.proxy.loop with
  | .load => 1
  | .add _ => 1
  | _ => 0

end AcceptLoop

/-- A burst, a second of quiet, and a tunnel for each that gets through. -/
example : AcceptLoop.spawned .connect (AcceptLoop.start 1 0)
    [(0, .arrive), (0, .load), (0, .add), (0, .arrive), (0, .load), (1, .arrive), (1, .load),
      (1, .add)] = 2 := by decide +kernel

/-! ## The limiter in a run -/

namespace AcceptLoop

/-- The limiter lets the arrival through. -/
def lets (s : AcceptLoop) (x : ℚ × LoopStep) : Bool := s.asks x.2 && (s.rate.allow x.1).1

/-- What the loop and the tasks do. -/
def acts (s : AcceptLoop) (x : ℚ × LoopStep) : ProxyStep := x.2.proxy (s.lets x)

/-- The tasks that end in a run. -/
def finished (side : ProxySide) (s : AcceptLoop) (l : List (ℚ × LoopStep)) : Nat :=
  s.proxy.finished side (Run.trace (step side) acts s l)

def asked (s : AcceptLoop) (x : ℚ × LoopStep) : Option ℚ := if s.asks x.2 then some x.1 else none

/-- When the limiter is asked. -/
def askTimes (side : ProxySide) (s : AcceptLoop) (l : List (ℚ × LoopStep)) : List ℚ :=
  (Run.trace (step side) asked s l).filterMap id

def admits (side : ProxySide) (s : AcceptLoop) (l : List (ℚ × LoopStep)) : Nat :=
  (Run.trace (step side) lets s l).count true

end AcceptLoop

section
variable (side : ProxySide) (s : AcceptLoop)

theorem step_asks (x : ℚ × LoopStep) (h : s.asks x.2 = true) : s.step side x =
    ⟨s.proxy.step side (x.2.proxy (s.rate.allow x.1).1), s.rate.after x.1⟩ := by
  unfold AcceptLoop.step
  rw [if_pos h]
  rfl

theorem step_silent (x : ℚ × LoopStep) (h : s.asks x.2 = false) :
    s.step side x = { s with proxy := s.proxy.step side (x.2.proxy false) } := by
  unfold AcceptLoop.step
  rw [if_neg (by rw [h]; exact Bool.false_ne_true)]

/-- The limiter is asked of an arrival that the loop waits for. -/
theorem arrive_of_asks (i : LoopStep) (h : s.asks i = true) :
    i = .arrive ∧ s.proxy.loop = .accept := by
  unfold AcceptLoop.asks at h
  split at h
  · exact ⟨rfl, by assumption⟩
  · cases h

theorem step_proxy (x : ℚ × LoopStep) :
    (s.step side x).proxy = s.proxy.step side (s.acts x) := by
  unfold AcceptLoop.acts AcceptLoop.lets
  cases hask : s.asks x.2 with
  | true => rw [step_asks side s x hask, Bool.true_and]
  | false => rw [step_silent side s x hask, Bool.false_and]

theorem run_proxy (l : List (ℚ × LoopStep)) : (Run.run (AcceptLoop.step side) s l).proxy =
    Run.run (Proxy.step side) s.proxy (Run.trace (AcceptLoop.step side) AcceptLoop.acts s l) :=
  Run.view_run (AcceptLoop.step side) (Proxy.step side) AcceptLoop.proxy AcceptLoop.acts
    (fun s x => step_proxy side s x) s l

theorem askTimes_cons (x : ℚ × LoopStep) (l : List (ℚ × LoopStep)) :
    s.askTimes side (x :: l) = (s.asked x).toList ++ (s.step side x).askTimes side l := by
  unfold AcceptLoop.askTimes
  show List.filterMap id (s.asked x :: _) = _
  cases s.asked x <;> rfl

theorem askTimes_sublist (l : List (ℚ × LoopStep)) :
    (s.askTimes side l).Sublist (l.map Prod.fst) := by
  induction l generalizing s with
  | nil => exact List.Sublist.refl _
  | cons x l ih =>
    rw [askTimes_cons, List.map_cons]
    unfold AcceptLoop.asked
    split
    · exact (ih _).cons_cons x.1
    · exact (ih _).cons x.1

theorem admits_cons (x : ℚ × LoopStep) (l : List (ℚ × LoopStep)) :
    s.admits side (x :: l) = (s.lets x).toNat + (s.step side x).admits side l := by
  unfold AcceptLoop.admits
  show List.count true (s.lets x :: _) = _
  cases s.lets x <;> simp [add_comm]

/-- The limiter sees the calls of a bucket. -/
theorem admits_eq_count (l : List (ℚ × LoopStep)) :
    s.admits side l = (TokenBucket.results s.rate.bucket (s.askTimes side l)).count true := by
  induction l generalizing s with
  | nil => rfl
  | cons x l ih =>
    rw [admits_cons, askTimes_cons, ih]
    cases hask : s.asks x.2 with
    | true =>
      obtain ⟨htakes, hafter⟩ := allow_bucket s.rate x.1
      have hlets : s.lets x = s.rate.bucket.takes x.1 := by
        unfold AcceptLoop.lets
        rw [hask, Bool.true_and, htakes]
      have hasked : s.asked x = some x.1 := by
        unfold AcceptLoop.asked
        rw [if_pos hask]
      rw [hlets, hasked, step_asks side s x hask]
      dsimp only
      rw [hafter]
      show _ = List.count true (s.rate.bucket.takes x.1 :: _)
      cases s.rate.bucket.takes x.1 <;> simp [add_comm, TokenBucket.results]
    | false =>
      have hlets : s.lets x = false := by
        unfold AcceptLoop.lets
        rw [hask, Bool.false_and]
      have hasked : s.asked x = none := by
        unfold AcceptLoop.asked
        rw [if_neg (by rw [hask]; exact Bool.false_ne_true)]
      rw [hlets, hasked, step_silent side s x hask]
      exact Nat.zero_add _

/-! ## What is spawned was let through -/

/-- A step of a tunnel's task. -/
def LoopStep.IsTask : LoopStep → Prop
  | .opened _ _ => True
  | .spliced _ _ => True
  | .leave _ => True
  | _ => False

/-- A task leaves the loop where it is, and at most takes itself away. -/
theorem proxy_task (p : Proxy) (i : LoopStep) (allowed : Bool) (hi : i.IsTask) :
    (p.step side (i.proxy allowed)).loop = p.loop ∧
      (p.step side (i.proxy allowed)).arrivals = p.arrivals ∧
      (p.step side (i.proxy allowed)).tasks.length ≤ p.tasks.length := by
  cases i with
  | opened j result =>
    unfold LoopStep.proxy Proxy.step
    dsimp only
    split <;> simp
  | spliced j result =>
    unfold LoopStep.proxy Proxy.step
    dsimp only
    split <;> simp
  | leave j =>
    unfold LoopStep.proxy Proxy.step
    dsimp only
    split
    · exact ⟨rfl, rfl, List.length_eraseIdx_le _ _⟩
    · exact ⟨rfl, rfl, le_refl _⟩
  | _ => exact hi.elim

theorem asks_task (i : LoopStep) (hi : i.IsTask) : s.asks i = false := by
  cases i <;> first | exact hi.elim | rfl

theorem spawns_add_deciding_le (x : ℚ × LoopStep) :
    (s.spawns x).toNat + (s.step side x).deciding ≤ (s.lets x).toNat + s.deciding := by
  obtain ⟨now, i⟩ := x
  cases hask : s.asks i with
  | true =>
    rw [step_asks side s (now, i) hask]
    obtain ⟨rfl, hloop⟩ := arrive_of_asks s i hask
    unfold AcceptLoop.lets AcceptLoop.spawns AcceptLoop.deciding LoopStep.proxy Proxy.step
    simp only [hask, hloop]
    cases (s.rate.allow now).1 <;> simp
  | false =>
    rw [step_silent side s (now, i) hask]
    have htask : ∀ i : LoopStep, i.IsTask → (s.spawns (now, i)).toNat +
        AcceptLoop.deciding { s with proxy := s.proxy.step side (i.proxy false) } ≤
          (s.lets (now, i)).toNat + s.deciding := by
      intro i hi
      have hspawns : s.spawns (now, i) = false := by
        cases i <;> first | exact hi.elim | rfl
      unfold AcceptLoop.deciding
      dsimp only
      rw [(proxy_task side s.proxy i false hi).1, hspawns]
      exact Nat.add_le_add_right (Nat.zero_le _) _
    unfold AcceptLoop.asks at hask
    cases i with
    | arrive =>
      unfold AcceptLoop.lets AcceptLoop.spawns AcceptLoop.deciding LoopStep.proxy Proxy.step
      cases hloop : s.proxy.loop <;> simp_all
    | load =>
      unfold AcceptLoop.lets AcceptLoop.spawns AcceptLoop.deciding LoopStep.proxy Proxy.step
      cases hloop : s.proxy.loop with
      | load => dsimp only; split <;> simp
      | _ => simp [hloop]
    | add =>
      unfold AcceptLoop.lets AcceptLoop.spawns AcceptLoop.deciding LoopStep.proxy Proxy.step
      cases hloop : s.proxy.loop <;> simp [hloop]
    | stop e =>
      unfold AcceptLoop.lets AcceptLoop.spawns AcceptLoop.deciding LoopStep.proxy Proxy.step
      cases hloop : s.proxy.loop <;> simp [hloop]
    | opened j result => exact htask (.opened j result) trivial
    | spliced j result => exact htask (.spliced j result) trivial
    | leave j => exact htask (.leave j) trivial

theorem deciding_le_one : s.deciding ≤ 1 := by
  unfold AcceptLoop.deciding
  split <;> decide

theorem spawned_add_deciding_le (l : List (ℚ × LoopStep)) :
    s.spawned side l + (Run.run (AcceptLoop.step side) s l).deciding ≤
      s.admits side l + s.deciding := by
  induction l generalizing s with
  | nil =>
    show 0 + _ ≤ 0 + _
    exact le_refl _
  | cons x l ih =>
    have hstep := spawns_add_deciding_le side s x
    have ih := ih (s.step side x)
    have hspawned : s.spawned side (x :: l) = (s.spawns x).toNat + (s.step side x).spawned side l := by
      unfold AcceptLoop.spawned
      show List.count true (s.spawns x :: _) = _
      cases s.spawns x <;> simp [add_comm]
    rw [hspawned, admits_cons, Run.run_cons]
    omega

/-- The loop and the tasks count as they do with any limiter. -/
theorem counted_accept (h : Counted side s.proxy) (x : ℚ × LoopStep) :
    Counted side (s.step side x).proxy := by
  rw [step_proxy]
  exact counted_step side s.proxy h _

theorem counted_run (h : Counted side s.proxy) (l : List (ℚ × LoopStep)) :
    Counted side (Run.run (AcceptLoop.step side) s l).proxy :=
  Run.run_invariant (AcceptLoop.step side) (fun s => Counted side s.proxy)
    (fun s x h => counted_accept side s h x) s h l

/-! ## The limiter keeps its size -/

/-- The limiter is one that was made for `perSec`. -/
structure Limits (perSec : UInt32) (s : AcceptLoop) : Prop where
  sound : s.rate.bucket.Sound
  capacity : s.rate.bucket.capacity = perSecRate perSec
  rate : s.rate.bucket.rate = perSecRate perSec

theorem limits_start (perSec : UInt32) (now : ℚ) : Limits perSec (AcceptLoop.start perSec now) :=
  ⟨new_sound perSec now, rfl, rfl⟩

theorem limits_step (perSec : UInt32) (h : Limits perSec s) (x : ℚ × LoopStep) :
    Limits perSec (s.step side x) := by
  cases hask : s.asks x.2 with
  | true =>
    rw [step_asks side s x hask]
    have hafter := (allow_bucket s.rate x.1).2
    refine ⟨?_, ?_, ?_⟩
    · rw [hafter]
      exact TokenBucket.call_sound _ x.1 h.sound
    · rw [hafter]
      exact h.capacity
    · rw [hafter]
      exact h.rate
  | false =>
    rw [step_silent side s x hask]
    exact ⟨h.sound, h.capacity, h.rate⟩

theorem limits_run (perSec : UInt32) (now : ℚ) (l : List (ℚ × LoopStep)) :
    Limits perSec (Run.run (AcceptLoop.step side) (AcceptLoop.start perSec now) l) :=
  Run.run_invariant (AcceptLoop.step side) (Limits perSec)
    (fun s x h => limits_step side s perSec h x) _ (limits_start perSec now) l

/-- What the limiter lets through between `a` and `e`. -/
theorem admits_le (perSec : UInt32) (h : Limits perSec s) (l : List (ℚ × LoopStep)) (a e : ℚ)
    (hmono : (l.map Prod.fst).Pairwise (· ≤ ·)) (hl : ∀ x ∈ l, a ≤ x.1 ∧ x.1 ≤ e) (hae : a ≤ e) :
    (s.admits side l : ℚ) ≤ perSecRate perSec + perSecRate perSec * (e - a) := by
  have hc := one_le_perSecRate perSec
  have hsub := askTimes_sublist side s l
  have hin : ∀ t ∈ s.askTimes side l, a ≤ t ∧ t ≤ e := by
    intro t ht
    obtain ⟨x, hx, rfl⟩ := List.mem_map.mp (hsub.subset ht)
    exact hl x hx
  have hchain : (s.askTimes side l).IsChain (· ≤ ·) :=
    List.isChain_iff_pairwise.mpr (hmono.sublist hsub)
  rw [admits_eq_count]
  cases htimes : s.askTimes side l with
  | nil =>
    show ((0 : Nat) : ℚ) ≤ _
    have := mul_nonneg (show 0 ≤ perSecRate perSec by linarith) (show 0 ≤ e - a by linarith)
    push_cast
    linarith
  | cons t ts =>
    rw [htimes] at hin hchain
    have hcount := TokenBucket.count_cons_le s.rate.bucket h.sound t ts hchain
    have hlast := TokenBucket.run_last s.rate.bucket (t :: ts) _ (List.getLast?_eq_some_getLast
      (List.cons_ne_nil t ts))
    have hend := hin _ (List.getLast_mem (List.cons_ne_nil t ts))
    have hbegin := hin t List.mem_cons_self
    rw [hlast, h.capacity, h.rate] at hcount
    have hwidth : ((t :: ts).getLast (List.cons_ne_nil t ts) - t) * perSecRate perSec ≤
        (e - a) * perSecRate perSec :=
      mul_le_mul_of_nonneg_right (by linarith [hend.2, hbegin.1]) (by linarith)
    linarith

/-- What is spawned between `a` and `e`. -/
theorem spawned_le (perSec : UInt32) (h : Limits perSec s) (l : List (ℚ × LoopStep)) (a e : ℚ)
    (hmono : (l.map Prod.fst).Pairwise (· ≤ ·)) (hl : ∀ x ∈ l, a ≤ x.1 ∧ x.1 ≤ e) (hae : a ≤ e) :
    (s.spawned side l : ℚ) ≤ perSecRate perSec + perSecRate perSec * (e - a) + s.deciding := by
  have hspawned : (s.spawned side l : ℚ) ≤ s.admits side l + s.deciding := by
    have h := spawned_add_deciding_le side s l
    have h : s.spawned side l ≤ s.admits side l + s.deciding := by omega
    exact_mod_cast h
  have hadmits := admits_le side s perSec h l a e hmono hl hae
  linarith

end

/-! ## Bounds -/

/-- **Both controls hold at once**, on either side and whatever the tasks do: in a
part `l2` of a run, with times from `a` to `e` that do not go back, at most
c + c * (e - a) tunnels are spawned, and one more if it was being decided; and in
every state of the run no more tunnels than the cap are up. -/
theorem spawned_bounds (side : ProxySide) (perSec : UInt32) (begin : ℚ)
    (l1 l2 : List (ℚ × LoopStep)) (a e : ℚ) (hmono : (l2.map Prod.fst).Pairwise (· ≤ ·))
    (hl : ∀ x ∈ l2, a ≤ x.1 ∧ x.1 ≤ e) (hae : a ≤ e) :
    ((Run.run (AcceptLoop.step side) (AcceptLoop.start perSec begin) l1).spawned side l2 : ℚ) ≤
      perSecRate perSec + perSecRate perSec * (e - a) +
        (Run.run (AcceptLoop.step side) (AcceptLoop.start perSec begin) l1).deciding ∧
    Run.Always (AcceptLoop.step side) (fun s => s.proxy.live.toNat = s.proxy.tasks.length ∧
      s.proxy.tasks.length ≤ side.cap.toNat) (AcceptLoop.start perSec begin) (l1 ++ l2) := by
  constructor
  · exact spawned_le side _ perSec (limits_run side perSec begin l1) l2 a e hmono hl hae
  · intro m1 m2 _
    have hcount := counted_run side (AcceptLoop.start perSec begin) (counted_start side) m1
    exact ⟨hcount.live, hcount.le_cap⟩

/-- Two seconds at one tunnel a second. -/
theorem spawned_bounds_two : ((AcceptLoop.start 1 0).spawned .connect
    [(0, .arrive), (0, .load), (0, .add), (1, .arrive), (1, .load), (1, .add)] : ℚ) ≤
      perSecRate 1 + perSecRate 1 * (1 - 0) + 0 :=
  (spawned_bounds .connect 1 0 [] [(0, .arrive), (0, .load), (0, .add), (1, .arrive), (1, .load),
    (1, .add)] 0 1 (by decide +kernel) (by decide +kernel) (by decide +kernel)).1

/-- The connect side, with the rate it has of its own. -/
theorem connect_spawned_le (begin : ℚ) (l1 l2 : List (ℚ × LoopStep)) (a e : ℚ)
    (hmono : (l2.map Prod.fst).Pairwise (· ≤ ·)) (hl : ∀ x ∈ l2, a ≤ x.1 ∧ x.1 ≤ e) (hae : a ≤ e) :
    ((Run.run (AcceptLoop.step .connect) (AcceptLoop.run_connect begin) l1).spawned .connect l2 : ℚ)
      ≤ 64 + 64 * (e - a) + 1 := by
  have hlimits := limits_run .connect CONNECT_MAX_CONN_RATE begin l1
  have hspawned := spawned_le .connect _ CONNECT_MAX_CONN_RATE hlimits l2 a e hmono hl hae
  have hrate : perSecRate CONNECT_MAX_CONN_RATE = 64 := by decide +kernel
  rw [hrate] at hspawned
  refine hspawned.trans (add_le_add (le_refl _) ?_)
  exact_mod_cast deciding_le_one _

/-! ## Room for an arrival -/

section
variable (side : ProxySide)

/-- While only tasks act. -/
theorem run_tasks (s : AcceptLoop) (m : List (ℚ × LoopStep)) (hm : ∀ x ∈ m, x.2.IsTask) :
    (Run.run (AcceptLoop.step side) s m).proxy.loop = s.proxy.loop ∧
      (Run.run (AcceptLoop.step side) s m).proxy.arrivals = s.proxy.arrivals ∧
      (Run.run (AcceptLoop.step side) s m).proxy.tasks.length ≤ s.proxy.tasks.length := by
  induction m generalizing s with
  | nil => exact ⟨rfl, rfl, le_refl _⟩
  | cons x m ih =>
    have hx := hm x List.mem_cons_self
    obtain ⟨hloop, harr, hlen⟩ := ih (s.step side x) fun y hy => hm y (List.mem_cons_of_mem _ hy)
    obtain ⟨hloop', harr', hlen'⟩ := proxy_task side s.proxy x.2 false hx
    rw [step_silent side s x (asks_task s x.2 hx)] at hloop harr hlen
    rw [Run.run_cons, step_silent side s x (asks_task s x.2 hx)]
    exact ⟨hloop.trans hloop', harr.trans harr', hlen.trans hlen'⟩

/-- The limiter lets one through that comes long enough after the last. -/
theorem allow_of_wait (perSec : UInt32) (s : AcceptLoop) (hlimits : Limits perSec s) (now : ℚ)
    (hwait : s.rate.last + 1 / perSecRate perSec ≤ now) : (s.rate.allow now).1 = true := by
  have hc := one_le_perSecRate perSec
  rw [(allow_bucket s.rate now).1]
  apply TokenBucket.takes_of_wait _ now hlimits.sound
  · rw [hlimits.capacity]
    exact hc
  · rw [hlimits.rate, ← div_le_iff₀ (by linarith)]
    show 1 / perSecRate perSec ≤ now - s.rate.last
    linarith

theorem step_arrive (s : AcceptLoop) (now : ℚ) (haccept : s.proxy.loop = .accept)
    (htakes : (s.rate.allow now).1 = true) :
    s.step side (now, .arrive) = ⟨{ s.proxy with loop := .load }, s.rate.after now⟩ := by
  have hask : s.asks .arrive = true := by
    unfold AcceptLoop.asks
    rw [haccept]
  rw [step_asks side s (now, .arrive) hask]
  dsimp only
  rw [htakes]
  unfold LoopStep.proxy Proxy.step
  dsimp only
  rw [haccept]
  rfl

/-- The counter is below the cap. -/
theorem step_load (s : AcceptLoop) (t : ℚ) (hloop : s.proxy.loop = .load)
    (hlive : ¬ side.cap ≤ s.proxy.live) :
    s.step side (t, .load) = { s with proxy := { s.proxy with loop := .add s.proxy.live } } := by
  have hsilent : s.asks LoopStep.load = false := rfl
  rw [step_silent side s (t, .load) hsilent]
  unfold LoopStep.proxy Proxy.step
  dsimp only
  rw [hloop]
  dsimp only
  rw [if_neg hlive]

theorem step_add (s : AcceptLoop) (t : ℚ) (n : UInt64) (hloop : s.proxy.loop = .add n) :
    s.step side (t, .add) = { s with proxy := {
      live := s.proxy.live + 1
      loop := .accept
      tasks := s.proxy.tasks ++ [.opening]
      arrivals := s.proxy.arrivals ++ [⟨true, some n, true⟩] } } := by
  have hsilent : s.asks LoopStep.add = false := rfl
  rw [step_silent side s (t, .add) hsilent]
  unfold LoopStep.proxy Proxy.step
  dsimp only
  rw [hloop]

/-- Over a run: admitted = tunnels up + tunnels finished. -/
theorem tunnels_run (s : AcceptLoop) (l : List (ℚ × LoopStep)) :
    (Run.run (AcceptLoop.step side) s l).proxy.admitted + s.proxy.tasks.length =
      s.proxy.admitted + (Run.run (AcceptLoop.step side) s l).proxy.tasks.length +
        s.finished side l := by
  rw [run_proxy]
  exact admitted_run side s.proxy _

/-- **A player gets a tunnel** who comes 1/c seconds after the limiter was last
asked, while fewer tunnels than the cap are up, whatever the tasks do between the
loop's steps: where these end a tunnel more has been admitted and is opening, the
counter has gone up with it, and of those that were up before only what the tasks
have finished is gone. -/
theorem arrival_admitted (perSec : UInt32) (begin : ℚ) (l m1 m2 : List (ℚ × LoopStep))
    (now t1 t2 : ℚ) (s s2 s' : AcceptLoop)
    (hs : s = Run.run (AcceptLoop.step side) (AcceptLoop.start perSec begin) l)
    (haccept : s.proxy.loop = .accept) (hwait : s.rate.last + 1 / perSecRate perSec ≤ now)
    (hroom : s.proxy.tasks.length < side.cap.toNat) (hm1 : ∀ x ∈ m1, x.2.IsTask)
    (hm2 : ∀ x ∈ m2, x.2.IsTask)
    (hs2 : s2 = Run.run (AcceptLoop.step side) s ((now, .arrive) :: m1 ++ (t1, .load) :: m2))
    (hs' : s' = s2.step side (t2, .add)) :
    (∃ n, s'.proxy.arrivals = s.proxy.arrivals ++ [⟨true, some n, true⟩]) ∧
    s'.proxy.tasks = s2.proxy.tasks ++ [.opening] ∧
    s'.proxy.live.toNat = s2.proxy.live.toNat + 1 ∧
    s'.proxy.tasks.length + s.finished side ((now, .arrive) :: m1 ++ (t1, .load) :: m2) =
      s.proxy.tasks.length + 1 := by
  have hlimits : Limits perSec s := by
    rw [hs]
    exact limits_run side perSec begin l
  have hcounted : Counted side s.proxy := by
    rw [hs]
    exact counted_run side (AcceptLoop.start perSec begin) (counted_start side) l
  have hstep1 := step_arrive side s now haccept (allow_of_wait perSec s hlimits now hwait)
  have htunnels := tunnels_run side s ((now, .arrive) :: m1 ++ (t1, .load) :: m2)
  have hcounted2 := counted_run side s hcounted ((now, .arrive) :: m1 ++ (t1, .load) :: m2)
  rw [← hs2] at htunnels hcounted2
  obtain ⟨hloop1, harr1, hlen1⟩ := run_tasks side (s.step side (now, .arrive)) m1 hm1
  have hcounted1 := counted_run side (s.step side (now, .arrive)) (counted_accept side s hcounted _) m1
  rw [List.cons_append, Run.run_cons, Run.run_append] at hs2
  generalize Run.run (AcceptLoop.step side) (s.step side (now, .arrive)) m1 = s1
    at hloop1 harr1 hlen1 hcounted1 hs2
  rw [hstep1] at hloop1 harr1 hlen1
  dsimp only at hloop1 harr1 hlen1
  have hlive : ¬ side.cap ≤ s1.proxy.live := by
    rw [UInt64.le_iff_toNat_le, hcounted1.live]
    omega
  obtain ⟨hloop2, harr2, -⟩ := run_tasks side (s1.step side (t1, .load)) m2 hm2
  rw [Run.run_cons] at hs2
  rw [← hs2, step_load side s1 t1 hloop1 hlive] at hloop2 harr2
  dsimp only at hloop2 harr2
  -- the count of the step that spawns, from the state in which the loop adds
  rw [step_add side s2 t2 _ hloop2] at hs'
  have hadd := counted_add side s2.proxy hcounted2 _ hloop2
  rw [hs']
  refine ⟨⟨s1.proxy.live, ?_⟩, rfl, ?_, ?_⟩
  · show s2.proxy.arrivals ++ _ = _
    rw [harr2, harr1]
  · rw [hcounted2.live]
    exact hadd.live.trans List.length_append
  · show (s2.proxy.tasks ++ [TunnelAt.opening]).length + _ = _
    have hsame : s2.proxy.admitted = s.proxy.admitted := by
      unfold Proxy.admitted
      rw [harr2, harr1]
    rw [hsame] at htunnels
    rw [List.length_append, List.length_singleton]
    omega

/-- The connect side: one tunnel is up when a player comes, and it ends while the
loop decides. -/
theorem arrival_admitted_second :
    let s := Run.run (AcceptLoop.step .connect) (AcceptLoop.run_connect 0)
      [(0, .arrive), (0, .load), (0, .add), (0, .opened 0 (.error "no route"))]
    let m := (1, LoopStep.arrive) :: [(1, .leave 0)] ++ (1, .load) :: []
    let s2 := Run.run (AcceptLoop.step .connect) s m
    s.finished .connect m = 1 ∧
    (∃ n, (s2.step .connect (2, .add)).proxy.arrivals = s.proxy.arrivals ++ [⟨true, some n, true⟩]) ∧
    (s2.step .connect (2, .add)).proxy.tasks = s2.proxy.tasks ++ [.opening] ∧
    (s2.step .connect (2, .add)).proxy.live.toNat = s2.proxy.live.toNat + 1 ∧
    (s2.step .connect (2, .add)).proxy.tasks.length + s.finished .connect m =
      s.proxy.tasks.length + 1 :=
  ⟨by decide +kernel, arrival_admitted .connect CONNECT_MAX_CONN_RATE 0
    [(0, .arrive), (0, .load), (0, .add), (0, .opened 0 (.error "no route"))] [(1, .leave 0)] [] 1 1 2
    _ _ _ rfl (arrive_of_asks _ .arrive (by decide +kernel)).2 (by decide +kernel)
    (by decide +kernel) (by simp [LoopStep.IsTask]) (by simp) rfl rfl⟩

end

end McTunnel
