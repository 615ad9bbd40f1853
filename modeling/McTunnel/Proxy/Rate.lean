import McTunnel.Lib.TokenBucket

/-!
# The rate limiter (`proxy/lib.rs`)

`RateLimiter` is a token bucket; its `f64` arithmetic is read as exact
rationals, and an `Instant` is a number of seconds.  With c = max(per_sec, 1):

    0 ≤ tokens ≤ c;  calls at a … b: allowed ≤ c + c * (b - a);
    a call 1/c seconds or more after the last is allowed         (rate_limiter_bounds)
-/

namespace McTunnel

open TokenBucket (Bucket)

/-! ## Code -/

structure RateLimiter where
  tokens : ℚ
  capacity : ℚ
  refillPerSec : ℚ
  last : ℚ
deriving DecidableEq

def RateLimiter.new (perSec : UInt32) (now : ℚ) : RateLimiter :=
  let cap : ℚ := (max perSec 1).toNat
  { tokens := cap, capacity := cap, refillPerSec := cap, last := now }

/-- `duration_since`, which is zero when the clock goes back. -/
def durationSince (now last : ℚ) : ℚ := max 0 (now - last)

def RateLimiter.allow (rl : RateLimiter) (now : ℚ) : Bool × RateLimiter :=
  let elapsed := durationSince now rl.last
  let tokens := min (rl.tokens + elapsed * rl.refillPerSec) rl.capacity
  if 1 ≤ tokens then (true, { rl with last := now, tokens := tokens - 1 })
  else (false, { rl with last := now, tokens := tokens })

/-- The limiter after a call. -/
def RateLimiter.after (rl : RateLimiter) (now : ℚ) : RateLimiter := (rl.allow now).2

/-- What `allow` returns at these times. -/
def RateLimiter.results (rl : RateLimiter) (times : List ℚ) : List Bool :=
  Run.trace RateLimiter.after (fun rl now => (rl.allow now).1) rl times

/-- The burst and the refill of the source's test. -/
example : (RateLimiter.new 4 0).results [0, 0, 0, 0, 0, 3 / 10, 3 / 10] =
    [true, true, true, true, false, true, false] := by decide +kernel

/-! ## The limiter as a bucket -/

def RateLimiter.bucket (rl : RateLimiter) : Bucket ℚ where
  tokens := rl.tokens
  capacity := rl.capacity
  rate := rl.refillPerSec
  last := rl.last

theorem allow_bucket (rl : RateLimiter) (now : ℚ) :
    (rl.allow now).1 = rl.bucket.takes now ∧ (rl.after now).bucket = rl.bucket.call now := by
  unfold RateLimiter.after RateLimiter.allow Bucket.call Bucket.takes Bucket.filled durationSince
  by_cases h : 1 ≤ min (rl.tokens + max 0 (now - rl.last) * rl.refillPerSec) rl.capacity
  · simp [RateLimiter.bucket, h]
  · simp [RateLimiter.bucket, h]

theorem bucket_run (rl : RateLimiter) (times : List ℚ) :
    (Run.run RateLimiter.after rl times).bucket = Run.run Bucket.call rl.bucket times :=
  Run.run_view _ _ _ (fun rl now => (allow_bucket rl now).2) rl times

theorem results_bucket (rl : RateLimiter) (times : List ℚ) :
    rl.results times = TokenBucket.results rl.bucket times :=
  Run.trace_view _ _ _ (fun rl now => (allow_bucket rl now).2) _ _
    (fun rl now => (allow_bucket rl now).1) rl times

/-- The rate, and the size of a burst: at least one. -/
def perSecRate (perSec : UInt32) : ℚ := (max perSec 1).toNat

theorem one_le_perSecRate (perSec : UInt32) : 1 ≤ perSecRate perSec := by
  have h : 1 ≤ (max perSec 1).toNat := by
    show 1 ≤ (if perSec ≤ 1 then 1 else perSec).toNat
    split
    · exact le_refl 1
    · next h =>
      have h : ¬ perSec.toNat ≤ 1 := fun hle => h (UInt32.le_iff_toNat_le.mpr hle)
      omega
  unfold perSecRate
  exact_mod_cast h

theorem new_sound (perSec : UInt32) (start : ℚ) : (RateLimiter.new perSec start).bucket.Sound := by
  have h := one_le_perSecRate perSec
  unfold perSecRate at h
  refine ⟨?_, le_refl _, ?_⟩
  · show (0 : ℚ) ≤ (max perSec 1).toNat
    linarith
  · show (0 : ℚ) ≤ (max perSec 1).toNat
    linarith

/-! ## Every window of every run -/

/-- **The limiter bounds every window**: of a limiter made at `start` and called
at times that do not go back, `tokens` is never below 0 nor above c; from the
`i`-th call to the `j`-th, at `a` and `e`, at most c + c * (e - a) are allowed;
and a call that comes 1/c seconds or more after the one before is allowed. -/
theorem rate_limiter_bounds (perSec : UInt32) (start : ℚ) (times : List ℚ)
    (hmono : (start :: times).IsChain (· ≤ ·)) :
    Run.Always RateLimiter.after (fun rl => 0 ≤ rl.tokens ∧ rl.tokens ≤ perSecRate perSec)
      (RateLimiter.new perSec start) times ∧
    (∀ i j a e, i ≤ j → times[i]? = some a → times[j]? = some e →
      (((((RateLimiter.new perSec start).results times).drop i).take (j - i + 1)).count true : ℚ) ≤
        perSecRate perSec + perSecRate perSec * (e - a)) ∧
    ∀ i a e, times[i]? = some a → times[i + 1]? = some e → a + 1 / perSecRate perSec ≤ e →
      ((RateLimiter.new perSec start).results times)[i + 1]? = some true := by
  have hs := new_sound perSec start
  have hc := one_le_perSecRate perSec
  rw [results_bucket]
  refine ⟨?_, ?_, ?_⟩
  · intro l1 l2 _
    have hrun := TokenBucket.run_sound _ hs l1
    have hcap := TokenBucket.run_capacity (RateLimiter.new perSec start).bucket l1
    rw [← bucket_run] at hrun hcap
    exact ⟨hrun.nonneg, hrun.le_capacity.trans_eq hcap⟩
  · intro i j a e hij ha he
    rw [mul_comm (perSecRate perSec)]
    exact TokenBucket.count_window_le _ hs times hmono.tail i j hij a e ha he
  · intro i a e ha he hwait
    have hpos : 0 < perSecRate perSec := by linarith
    apply TokenBucket.results_of_wait _ hs hc times i a e ha he
    show 1 ≤ (e - a) * perSecRate perSec
    rw [← div_le_iff₀ hpos]
    linarith

/-- Six calls at once and two later, at four a second. -/
theorem rate_limiter_bounds_burst :
    (((RateLimiter.new 4 0).results [0, 0, 0, 0, 0, 0, 1 / 4, 1]).drop 0).take 7 =
        [true, true, true, true, false, false, true] ∧
      ((((RateLimiter.new 4 0).results [0, 0, 0, 0, 0, 0, 1 / 4, 1]).drop 0).take (6 - 0 + 1)).count
        true ≤ perSecRate 4 + perSecRate 4 * (1 / 4 - 0) :=
  ⟨by decide +kernel,
    (rate_limiter_bounds 4 0 [0, 0, 0, 0, 0, 0, 1 / 4, 1] (by decide +kernel)).2.1 0 6 0 (1 / 4)
      (by decide) rfl rfl⟩

end McTunnel
