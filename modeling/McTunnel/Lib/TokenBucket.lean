import McTunnel.Lib.Run

/-!
# Token buckets

A bucket holds at most `capacity` tokens and gets `rate` tokens for each unit of
time.  A call at a time `now` fills it up to then and takes a token if there is
one; a clock that goes back counts as one that stands still.

    calls a … b at times that do not go back:  takes ≤ capacity + (b - a) * rate   (count_window_le)
    a token has come in since the last call → the call takes one                   (takes_of_wait)
-/

namespace TokenBucket

structure Bucket (K : Type) where
  tokens : K
  capacity : K
  rate : K
  last : K

section
variable {K : Type} [Field K] [LinearOrder K]

/-- The tokens of a bucket filled up to `now`. -/
def Bucket.filled (b : Bucket K) (now : K) : K :=
  min (b.tokens + max 0 (now - b.last) * b.rate) b.capacity

/-- Does a call at `now` take a token? -/
def Bucket.takes (b : Bucket K) (now : K) : Bool := decide (1 ≤ b.filled now)

/-- The bucket after a call. -/
def Bucket.call (b : Bucket K) (now : K) : Bucket K :=
  { b with
    tokens := if b.takes now then b.filled now - 1 else b.filled now
    last := now }

/-- What calls at these times get. -/
def results (b : Bucket K) (times : List K) : List Bool :=
  Run.trace Bucket.call Bucket.takes b times

/-- A bucket that is neither overdrawn nor overfull, and does not leak. -/
structure Bucket.Sound (b : Bucket K) : Prop where
  nonneg : 0 ≤ b.tokens
  le_capacity : b.tokens ≤ b.capacity
  rate_nonneg : 0 ≤ b.rate

theorem filled_le_capacity (b : Bucket K) (now : K) : b.filled now ≤ b.capacity := min_le_right _ _

/-! ## One call -/

variable [IsStrictOrderedRing K]

theorem filled_nonneg (b : Bucket K) (now : K) (h : b.Sound) : 0 ≤ b.filled now := by
  have hr := mul_nonneg (le_max_left 0 (now - b.last)) h.rate_nonneg
  have hc := h.nonneg.trans h.le_capacity
  exact le_min (add_nonneg h.nonneg hr) hc

theorem filled_le (b : Bucket K) (now : K) (h : b.last ≤ now) :
    b.filled now ≤ b.tokens + (now - b.last) * b.rate := by
  have hm : max 0 (now - b.last) = now - b.last := max_eq_right (sub_nonneg.mpr h)
  unfold Bucket.filled
  rw [hm]
  exact min_le_left _ _

/-- A call spends what it takes: the potential argument, for one step. -/
theorem takes_add_tokens (b : Bucket K) (now : K) :
    ((b.takes now).toNat : K) + (b.call now).tokens = b.filled now := by
  unfold Bucket.call
  cases h : b.takes now with
  | false => simp
  | true => simp

theorem call_sound (b : Bucket K) (now : K) (h : b.Sound) : (b.call now).Sound := by
  have h0 := filled_nonneg b now h
  have hc := filled_le_capacity b now
  refine ⟨?_, ?_, h.rate_nonneg⟩
  · show 0 ≤ if b.takes now then b.filled now - 1 else b.filled now
    split
    · next ht =>
      have ht : 1 ≤ b.filled now := of_decide_eq_true ht
      linarith
    · exact h0
  · show (if b.takes now then b.filled now - 1 else b.filled now) ≤ b.capacity
    split
    · linarith
    · exact hc

/-- When a whole token has come in, a call takes one. -/
theorem takes_of_wait (b : Bucket K) (now : K) (h : b.Sound) (hcap : 1 ≤ b.capacity)
    (hwait : 1 ≤ (now - b.last) * b.rate) : b.takes now = true := by
  have hm : (now - b.last) * b.rate ≤ max 0 (now - b.last) * b.rate :=
    mul_le_mul_of_nonneg_right (le_max_right _ _) h.rate_nonneg
  have ht := h.nonneg
  apply decide_eq_true
  exact le_min (by linarith) hcap

/-! ## Runs -/

theorem run_sound (b : Bucket K) (h : b.Sound) (times : List K) :
    (Run.run Bucket.call b times).Sound :=
  Run.run_invariant Bucket.call Bucket.Sound call_sound b h times

omit [IsStrictOrderedRing K]

@[simp] theorem run_capacity (b : Bucket K) (times : List K) :
    (Run.run Bucket.call b times).capacity = b.capacity :=
  Run.run_invariant Bucket.call (fun b' => b'.capacity = b.capacity) (fun _ _ h => h) b rfl times

@[simp] theorem run_rate (b : Bucket K) (times : List K) :
    (Run.run Bucket.call b times).rate = b.rate :=
  Run.run_invariant Bucket.call (fun b' => b'.rate = b.rate) (fun _ _ h => h) b rfl times

/-- The last call was at the last of the times. -/
theorem run_last (b : Bucket K) (times : List K) (e : K) (h : times.getLast? = some e) :
    (Run.run Bucket.call b times).last = e := by
  rcases List.eq_nil_or_concat times with rfl | ⟨l, t, rfl⟩
  · cases h
  · rw [List.concat_eq_append, List.getLast?_concat] at h
    cases h
    rw [List.concat_eq_append, Run.run_concat]
    rfl

end

section
variable {K : Type} [Field K] [LinearOrder K] [IsStrictOrderedRing K]

theorem count_results_cons (b : Bucket K) (t : K) (times : List K) :
    ((results b (t :: times)).count true : K) =
      (b.takes t).toNat + (results (b.call t) times).count true := by
  show ((List.count true (b.takes t :: results (b.call t) times) : Nat) : K) = _
  cases b.takes t with
  | false => simp
  | true => simp [add_comm]

/-- What is taken was there or has come in: the potential argument, for a run. -/
theorem count_add_tokens_le (b : Bucket K) (times : List K)
    (hmono : (b.last :: times).IsChain (· ≤ ·)) :
    ((results b times).count true : K) + (Run.run Bucket.call b times).tokens ≤
      b.tokens + ((Run.run Bucket.call b times).last - b.last) * b.rate := by
  induction times generalizing b with
  | nil =>
    show ((0 : Nat) : K) + b.tokens ≤ b.tokens + (b.last - b.last) * b.rate
    simp
  | cons t times ih =>
    obtain ⟨hle, hmono⟩ := List.isChain_cons_cons.mp hmono
    have ih := ih (b.call t) hmono
    have hstep := takes_add_tokens b t
    have hfill := filled_le b t hle
    have hlast : (b.call t).last = t := rfl
    have hrate : (b.call t).rate = b.rate := rfl
    rw [hlast, hrate] at ih
    rw [Run.run_cons, count_results_cons]
    linarith

/-- The same from a call on: a call finds no more than a full bucket. -/
theorem count_cons_le (b : Bucket K) (h : b.Sound) (a : K) (times : List K)
    (hmono : (a :: times).IsChain (· ≤ ·)) :
    ((results b (a :: times)).count true : K) ≤
      b.capacity + ((Run.run Bucket.call b (a :: times)).last - a) * b.rate := by
  have hrest := count_add_tokens_le (b.call a) times hmono
  have hnonneg := (run_sound (b.call a) (call_sound b a h) times).nonneg
  have hstep := takes_add_tokens b a
  have hfill := filled_le_capacity b a
  have hlast : (b.call a).last = a := rfl
  have hrate : (b.call a).rate = b.rate := rfl
  rw [hlast, hrate] at hrest
  rw [Run.run_cons, count_results_cons]
  linarith

/-! ## Windows of a run -/

/-- **From the `i`-th call to the `j`-th**, at `a` and `e`, no more is taken than
a full bucket and what comes in between. -/
theorem count_window_le (b : Bucket K) (h : b.Sound) (times : List K) (hmono : times.IsChain (· ≤ ·))
    (i j : Nat) (hij : i ≤ j) (a e : K) (ha : times[i]? = some a) (he : times[j]? = some e) :
    ((((results b times).drop i).take (j - i + 1)).count true : K) ≤
      b.capacity + (e - a) * b.rate := by
  obtain ⟨hj, -⟩ := List.getElem?_eq_some_iff.mp he
  have hi : i < times.length := by omega
  have ha : times[i] = a := by
    rw [List.getElem?_eq_getElem hi] at ha
    exact Option.some.inj ha
  -- the window as the calls of a bucket at `a` and then
  have hwin : (times.drop i).take (j - i + 1) = a :: (times.drop (i + 1)).take (j - i) := by
    rw [List.drop_eq_getElem_cons hi, ha, List.take_succ_cons]
  have hlast : ((times.drop i).take (j - i + 1)).getLast? = some e := by
    have hlen : ((times.drop i).take (j - i + 1)).length = j - i + 1 := by
      rw [List.length_take, List.length_drop]
      omega
    rw [List.getLast?_eq_getElem?, hlen, List.getElem?_take, List.getElem?_drop,
      if_pos (by omega), ← he]
    congr 1
    omega
  have hchain : ((times.drop i).take (j - i + 1)).IsChain (· ≤ ·) :=
    (hmono.drop i).take (j - i + 1)
  unfold results
  rw [Run.drop_trace, Run.take_trace]
  have hs := run_sound b h (times.take i)
  have hend := run_last (Run.run Bucket.call b (times.take i)) _ e hlast
  rw [hwin] at hchain hend ⊢
  have hcount := count_cons_le _ hs a _ hchain
  rwa [hend, run_capacity, run_rate] at hcount

/-- A call takes a token if one has come in since the call before it. -/
theorem results_of_wait (b : Bucket K) (h : b.Sound) (hcap : 1 ≤ b.capacity) (times : List K)
    (i : Nat) (a e : K) (ha : times[i]? = some a) (he : times[i + 1]? = some e)
    (hwait : 1 ≤ (e - a) * b.rate) : (results b times)[i + 1]? = some true := by
  have hlast : (times.take (i + 1)).getLast? = some a := by
    obtain ⟨hi, -⟩ := List.getElem?_eq_some_iff.mp ha
    have hlen : (times.take (i + 1)).length = i + 1 := by
      rw [List.length_take]
      omega
    rw [List.getLast?_eq_getElem?, hlen, List.getElem?_take, if_pos (by omega), ← ha]
    rfl
  have hcons : times.drop (i + 1) = e :: times.drop (i + 2) := by
    obtain ⟨hi, hget⟩ := List.getElem?_eq_some_iff.mp he
    rw [List.drop_eq_getElem_cons hi, hget]
  have hs := run_sound b h (times.take (i + 1))
  have hend := run_last b _ a hlast
  have ht := takes_of_wait (Run.run Bucket.call b (times.take (i + 1))) e hs
    (by rwa [run_capacity]) (by rwa [hend, run_rate])
  have hhead : ((results b times).drop (i + 1))[0]? = some true := by
    unfold results
    rw [Run.drop_trace, hcons]
    exact congrArg some ht
  rwa [List.getElem?_drop] at hhead

end

end TokenBucket
