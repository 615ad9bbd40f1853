import Mathlib

/-!
# Clock readings

A reading is a `std::time::Duration` since the epoch: seconds as a `u64`, and
nanoseconds.  Here it is the count of nanoseconds, below 2^64 seconds.
-/

namespace Clock

def nanosPerSec : Nat := 1000000000

/-- The whole seconds of a count of nanoseconds, as a `u64`. -/
def secs (nanos : Nat) : UInt64 := UInt64.ofNat (nanos / nanosPerSec)

theorem toNat_secs (nanos : Nat) (h : nanos < 2 ^ 64 * nanosPerSec) :
    (secs nanos).toNat = nanos / nanosPerSec := by
  have hlt : nanos / nanosPerSec < 2 ^ 64 := by
    rw [Nat.div_lt_iff_lt_mul (by decide)]
    exact h
  exact UInt64.toNat_ofNat_of_lt' hlt

/-- A clock reading. -/
structure Time where
  nanos : Nat
  inRange : nanos < 2 ^ 64 * nanosPerSec

/-- `Duration::as_secs`. -/
def Time.asSecs (t : Time) : UInt64 := secs t.nanos

theorem Time.toNat_asSecs (t : Time) : t.asSecs.toNat = t.nanos / nanosPerSec :=
  toNat_secs t.nanos t.inRange

/-- The reading at the start of second `s`. -/
def Time.ofSecs (s : UInt64) : Time where
  nanos := s.toNat * nanosPerSec
  inRange := Nat.mul_lt_mul_of_pos_right s.toNat_lt (by decide)

@[simp] theorem Time.asSecs_ofSecs (s : UInt64) : (ofSecs s).asSecs = s := by
  apply UInt64.toNat_inj.mp
  rw [toNat_asSecs]
  exact Nat.mul_div_cancel _ (by decide)

/-- `u64::saturating_add`. -/
def saturatingAdd (a b : UInt64) : UInt64 := UInt64.ofNat (min (a.toNat + b.toNat) (2 ^ 64 - 1))

theorem lt_saturatingAdd_iff (a b ts : UInt64) :
    saturatingAdd a b < ts ↔ a.toNat + b.toNat < ts.toNat := by
  have hts := ts.toNat_lt
  have hs : (saturatingAdd a b).toNat = min (a.toNat + b.toNat) (2 ^ 64 - 1) :=
    UInt64.toNat_ofNat_of_lt' (show min (a.toNat + b.toNat) (2 ^ 64 - 1) < 2 ^ 64 by omega)
  rw [UInt64.lt_iff_toNat_lt, hs]
  omega

end Clock
