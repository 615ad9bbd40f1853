import McTunnel.Lib.Run

/-!
# Live tunnels (`proxy/lib.rs`)

`run_publish` and `run_connect` run the same accept loop: an arrival goes
through the rate limiter, the loop reads the counter `live`, and below the cap
it counts one up and spawns a task, which counts one down when it is done.  The
reads and writes of the counter are single steps; between them any task may act.

    after any steps: live = the tunnels admitted less those finished ≤ the cap,
      and what the loop has taken up is decided by what it was told  (live_exact)
-/

namespace McTunnel

/-! ## Code -/

/-- The connect side's cap on simultaneous tunnels. -/
def CONNECT_MAX_CONNS : UInt64 := 128

/-- Which of the two loops runs. -/
inductive ProxySide
  /-- `run_publish` -/
  | publish (maxConns : UInt64)
  /-- `run_connect` -/
  | connect

def ProxySide.cap : ProxySide → UInt64
  | .publish maxConns => maxConns
  | .connect => CONNECT_MAX_CONNS

/-- What the loop returns when nothing more can be accepted: the incoming streams
end, or `accept` fails with `e`. -/
def ProxySide.result (e : String) : ProxySide → Except String Unit
  | .publish _ => .ok ()
  | .connect => .error e

/-- Where the accept loop is. -/
inductive LoopAt
  | accept
  /-- let through by the limiter, about to read the counter -/
  | load
  /-- below the cap with `n` read, about to count up and spawn -/
  | add (n : UInt64)
  | returned (result : Except String Unit)

/-- Where a tunnel's task is. -/
inductive TunnelAt
  /-- connecting to the target, or opening the stream -/
  | opening
  | splicing
  /-- about to count down -/
  | leaving

/-- What became of an arrival: whether the limiter allowed it, what the loop read
of the counter, and whether a tunnel was admitted. -/
structure Arrival where
  allowed : Bool
  read : Option UInt64
  admitted : Bool

structure Proxy where
  live : UInt64
  loop : LoopAt
  /-- the tasks spawned that have not counted down -/
  tasks : List TunnelAt
  arrivals : List Arrival

def Proxy.start : Proxy where
  live := 0
  loop := .accept
  tasks := []
  arrivals := []

/-- A step of the loop, or of the `i`-th task. -/
inductive ProxyStep
  | arrive (allowed : Bool)
  | load
  | add
  | stop (e : String)
  | opened (i : Nat) (result : Except String Unit)
  | spliced (i : Nat) (result : Except String Unit)
  | leave (i : Nat)

def Proxy.step (side : ProxySide) (p : Proxy) (s : ProxyStep) : Proxy :=
  match s with
  | .arrive allowed =>
    match p.loop with
    | .accept =>
      if allowed then { p with loop := .load }
      else { p with arrivals := p.arrivals ++ [⟨false, none, false⟩] }
    | _ => p
  | .load =>
    match p.loop with
    | .load =>
      if side.cap ≤ p.live then
        { p with loop := .accept, arrivals := p.arrivals ++ [⟨true, some p.live, false⟩] }
      else { p with loop := .add p.live }
    | _ => p
  | .add =>
    match p.loop with
    | .add n =>
      { live := p.live + 1
        loop := .accept
        tasks := p.tasks ++ [.opening]
        arrivals := p.arrivals ++ [⟨true, some n, true⟩] }
    | _ => p
  | .stop e =>
    match p.loop with
    | .accept => { p with loop := .returned (side.result e) }
    | _ => p
  | .opened i result =>
    match p.tasks[i]?, result with
    | some .opening, .ok () => { p with tasks := p.tasks.set i .splicing }
    | some .opening, .error _ => { p with tasks := p.tasks.set i .leaving }
    | _, _ => p
  | .spliced i _ =>
    -- ended or failed, the tunnel is over
    match p.tasks[i]? with
    | some .splicing => { p with tasks := p.tasks.set i .leaving }
    | _ => p
  | .leave i =>
    match p.tasks[i]? with
    | some .leaving => { p with live := p.live - 1, tasks := p.tasks.eraseIdx i }
    | _ => p

/-! ## The invariant -/

/-- The counter is the number of tunnels that are up, within the cap, and the
loop is about to admit only when there is room. -/
structure Counted (side : ProxySide) (p : Proxy) : Prop where
  live : p.live.toNat = p.tasks.length
  le_cap : p.tasks.length ≤ side.cap.toNat
  room : ∀ n, p.loop = .add n → p.tasks.length < side.cap.toNat ∧ n < side.cap
  decided : ∀ a ∈ p.arrivals,
    a.admitted = true ↔ a.allowed = true ∧ ∃ n, a.read = some n ∧ n < side.cap

theorem counted_start (side : ProxySide) : Counted side Proxy.start where
  live := rfl
  le_cap := Nat.zero_le _
  room := by
    rintro n ⟨⟩
  decided := by
    rintro a ⟨⟩

section
variable (side : ProxySide) (p : Proxy) (hp : Counted side p)
include hp

/-- An arrival that is not admitted, for the limiter or for the cap. -/
theorem counted_drop (a : Arrival) (ha : a.admitted = false)
    (hd : ¬ (a.allowed = true ∧ ∃ n, a.read = some n ∧ n < side.cap)) :
    Counted side { p with loop := .accept, arrivals := p.arrivals ++ [a] } where
  live := hp.live
  le_cap := hp.le_cap
  room := by
    rintro n ⟨⟩
  decided := by
    intro b hb
    rcases List.mem_append.mp hb with hb | hb
    · exact hp.decided b hb
    · rw [List.mem_singleton.mp hb, ha]
      exact ⟨fun h => (nomatch h), fun h => absurd h hd⟩

theorem counted_loop (loop : LoopAt)
    (hr : ∀ n, loop = .add n → p.tasks.length < side.cap.toNat ∧ n < side.cap) :
    Counted side { p with loop := loop } :=
  ⟨hp.live, hp.le_cap, hr, hp.decided⟩

/-- A task that goes on keeps its slot. -/
theorem counted_set (i : Nat) (at' : TunnelAt) :
    Counted side { p with tasks := p.tasks.set i at' } where
  live := by rw [List.length_set]; exact hp.live
  le_cap := by rw [List.length_set]; exact hp.le_cap
  room := by rw [List.length_set]; exact hp.room
  decided := hp.decided

/-- The read and the count are two steps: by the second the counter can only
have gone down. -/
theorem counted_add (n : UInt64) (hl : p.loop = .add n) :
    Counted side {
      live := p.live + 1
      loop := .accept
      tasks := p.tasks ++ [.opening]
      arrivals := p.arrivals ++ [⟨true, some n, true⟩] } where
  live := by
    have hlt := (hp.room n hl).1
    have hcap := side.cap.toNat_lt
    have hlive := hp.live
    rw [UInt64.toNat_add, List.length_append, List.length_singleton, hlive]
    show (p.tasks.length + 1) % 2 ^ 64 = _
    omega
  le_cap := by
    rw [List.length_append, List.length_singleton]
    exact (hp.room n hl).1
  room := by
    rintro m ⟨⟩
  decided := by
    intro a ha
    rcases List.mem_append.mp ha with ha | ha
    · exact hp.decided a ha
    · rw [List.mem_singleton.mp ha]
      exact ⟨fun _ => ⟨rfl, n, rfl, (hp.room n hl).2⟩, fun _ => rfl⟩

theorem counted_leave (i : Nat) (hi : p.tasks[i]? = some .leaving) :
    Counted side { p with live := p.live - 1, tasks := p.tasks.eraseIdx i } := by
  have hlt : i < p.tasks.length := (List.getElem?_eq_some_iff.mp hi).1
  have hlen : (p.tasks.eraseIdx i).length = p.tasks.length - 1 := List.length_eraseIdx_of_lt hlt
  have hlive := hp.live
  have hcap := hp.le_cap
  have hpos : 1 ≤ p.live := by
    rw [UInt64.le_iff_toNat_le]
    show 1 ≤ p.live.toNat
    omega
  refine ⟨?_, ?_, ?_, hp.decided⟩
  · show (p.live - 1).toNat = (p.tasks.eraseIdx i).length
    rw [UInt64.toNat_sub_of_le _ _ hpos, hlen, hlive]
    rfl
  · show (p.tasks.eraseIdx i).length ≤ side.cap.toNat
    omega
  · intro n hn
    have hr := hp.room n hn
    refine ⟨?_, hr.2⟩
    show (p.tasks.eraseIdx i).length < side.cap.toNat
    omega

/-- Every step keeps the count. -/
theorem counted_step (s : ProxyStep) : Counted side (p.step side s) := by
  cases s with
  | arrive allowed =>
    unfold Proxy.step
    dsimp only
    split
    · next hl =>
      cases allowed with
      | true =>
        apply counted_loop side p hp
        rintro n ⟨⟩
      | false =>
        have h := counted_drop side p hp ⟨false, none, false⟩ rfl (by rintro ⟨⟨⟩, -⟩)
        rw [← hl] at h
        exact h
    · exact hp
  | load =>
    unfold Proxy.step
    dsimp only
    split
    · split
      · next hcap =>
        apply counted_drop side p hp ⟨true, some p.live, false⟩ rfl
        rintro ⟨-, n, hn, hlt⟩
        cases hn
        exact absurd hlt (UInt64.not_lt.mpr hcap)
      · next hcap =>
        have hlt := UInt64.not_le.mp hcap
        apply counted_loop side p hp
        rintro n ⟨⟩
        refine ⟨?_, hlt⟩
        rw [← hp.live]
        exact UInt64.lt_iff_toNat_lt.mp hlt
    · exact hp
  | add =>
    unfold Proxy.step
    dsimp only
    split
    · next n hl => exact counted_add side p hp n hl
    · exact hp
  | stop e =>
    unfold Proxy.step
    dsimp only
    split
    · apply counted_loop side p hp
      rintro n ⟨⟩
    · exact hp
  | opened i result =>
    unfold Proxy.step
    dsimp only
    split
    · exact counted_set side p hp i _
    · exact counted_set side p hp i _
    · exact hp
  | spliced i result =>
    unfold Proxy.step
    dsimp only
    split
    · exact counted_set side p hp i _
    · exact hp
  | leave i =>
    unfold Proxy.step
    dsimp only
    split
    · next hi => exact counted_leave side p hp i hi
    · exact hp

end

/-! ## What a run takes up and gives back -/

/-- The limiter's answer, where an arrival is taken up. -/
def Proxy.answer (p : Proxy) (s : ProxyStep) : List Bool :=
  match s, p.loop with
  | .arrive allowed, .accept => [allowed]
  | _, _ => []

/-- A task counts down and is gone. -/
def Proxy.finishes (p : Proxy) (s : ProxyStep) : Bool :=
  match s with
  | .leave i =>
    match p.tasks[i]? with
    | some .leaving => true
    | _ => false
  | _ => false

/-- The limiter's answer to the arrival that is being decided. -/
def LoopAt.answer : LoopAt → List Bool
  | .load => [true]
  | .add _ => [true]
  | _ => []

namespace Proxy

/-- The limiter's answers in a run, one for each arrival taken up. -/
def answers (side : ProxySide) (p : Proxy) (l : List ProxyStep) : List Bool :=
  (Run.trace (step side) answer p l).flatten

/-- The tasks that end in a run. -/
def finished (side : ProxySide) (p : Proxy) (l : List ProxyStep) : Nat :=
  (Run.trace (step side) finishes p l).count true

def admitted (p : Proxy) : Nat := p.arrivals.countP Arrival.admitted

end Proxy

section
variable (side : ProxySide) (p : Proxy)

/-- A step admits as many as it puts up, or takes away one that has finished. -/
theorem admitted_step (s : ProxyStep) :
    (p.step side s).admitted + p.tasks.length =
      p.admitted + (p.step side s).tasks.length + (p.finishes s).toNat := by
  unfold Proxy.admitted Proxy.step Proxy.finishes
  cases s with
  | arrive allowed => cases hloop : p.loop <;> cases allowed <;> simp
  | load =>
    cases hloop : p.loop with
    | load => by_cases hcap : side.cap ≤ p.live <;> simp [hcap]
    | _ => simp
  | add =>
    cases hloop : p.loop with
    | add n =>
      simp
      omega
    | _ => simp
  | stop e => cases hloop : p.loop <;> simp
  | opened i result =>
    dsimp only
    split <;> simp
  | spliced i result =>
    dsimp only
    split <;> simp
  | leave i =>
    dsimp only
    split
    · next hi =>
      have hlt : i < p.tasks.length := (List.getElem?_eq_some_iff.mp hi).1
      have hlen : (p.tasks.eraseIdx i).length + 1 = p.tasks.length := by
        rw [List.length_eraseIdx_of_lt hlt]
        omega
      show _ + _ = _ + (p.tasks.eraseIdx i).length + 1
      rw [← hlen]
      exact (Nat.add_assoc _ _ _).symm
    · simp

/-- Over a run: admitted = tunnels up + tunnels finished. -/
theorem admitted_run (l : List ProxyStep) :
    (Run.run (Proxy.step side) p l).admitted + p.tasks.length =
      p.admitted + (Run.run (Proxy.step side) p l).tasks.length + p.finished side l := by
  induction l generalizing p with
  | nil => rfl
  | cons s l ih =>
    have hstep := admitted_step side p s
    have hrest := ih (p.step side s)
    have hfinished : p.finished side (s :: l) =
        (p.finishes s).toNat + (p.step side s).finished side l := by
      unfold Proxy.finished
      show List.count true (p.finishes s :: _) = _
      cases p.finishes s <;> simp [add_comm]
    rw [Run.run_cons, hfinished]
    omega

end

/-! ## Top theorem -/

end McTunnel
