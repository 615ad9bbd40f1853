import Mathlib

/-!
# SHA-256 (FIPS 180-4)

Words are natural numbers below 2^32; the message schedule is a window of the
last 16 words.
-/

namespace Sha256

/-! ## Words -/

def rotr (n x : Nat) : Nat := (x >>> n) ||| ((x <<< (32 - n)) % 2 ^ 32)

def add (x y : Nat) : Nat := (x + y) % 2 ^ 32

def ch (x y z : Nat) : Nat := (x &&& y) ^^^ ((0xffffffff ^^^ x) &&& z)

def maj (x y z : Nat) : Nat := (x &&& y) ^^^ (x &&& z) ^^^ (y &&& z)

def bigSigma0 (x : Nat) : Nat := rotr 2 x ^^^ rotr 13 x ^^^ rotr 22 x

def bigSigma1 (x : Nat) : Nat := rotr 6 x ^^^ rotr 11 x ^^^ rotr 25 x

def sigma0 (x : Nat) : Nat := rotr 7 x ^^^ rotr 18 x ^^^ (x >>> 3)

def sigma1 (x : Nat) : Nat := rotr 17 x ^^^ rotr 19 x ^^^ (x >>> 10)

/-- The round constants. -/
def K : List Nat := [
  0x428a2f98, 0x71374491, 0xb5c0fbcf, 0xe9b5dba5, 0x3956c25b, 0x59f111f1, 0x923f82a4, 0xab1c5ed5,
  0xd807aa98, 0x12835b01, 0x243185be, 0x550c7dc3, 0x72be5d74, 0x80deb1fe, 0x9bdc06a7, 0xc19bf174,
  0xe49b69c1, 0xefbe4786, 0x0fc19dc6, 0x240ca1cc, 0x2de92c6f, 0x4a7484aa, 0x5cb0a9dc, 0x76f988da,
  0x983e5152, 0xa831c66d, 0xb00327c8, 0xbf597fc7, 0xc6e00bf3, 0xd5a79147, 0x06ca6351, 0x14292967,
  0x27b70a85, 0x2e1b2138, 0x4d2c6dfc, 0x53380d13, 0x650a7354, 0x766a0abb, 0x81c2c92e, 0x92722c85,
  0xa2bfe8a1, 0xa81a664b, 0xc24b8b70, 0xc76c51a3, 0xd192e819, 0xd6990624, 0xf40e3585, 0x106aa070,
  0x19a4c116, 0x1e376c08, 0x2748774c, 0x34b0bcb5, 0x391c0cb3, 0x4ed8aa4a, 0x5b9cca4f, 0x682e6ff3,
  0x748f82ee, 0x78a5636f, 0x84c87814, 0x8cc70208, 0x90befffa, 0xa4506ceb, 0xbef9a3f7, 0xc67178f2]

/-! ## Compression -/

/-- The eight working variables. -/
structure State where
  a : Nat
  b : Nat
  c : Nat
  d : Nat
  e : Nat
  f : Nat
  g : Nat
  h : Nat

def initial : State where
  a := 0x6a09e667
  b := 0xbb67ae85
  c := 0x3c6ef372
  d := 0xa54ff53a
  e := 0x510e527f
  f := 0x9b05688c
  g := 0x1f83d9ab
  h := 0x5be0cd19

def round (s : State) (k w : Nat) : State :=
  let t1 := add s.h (add (bigSigma1 s.e) (add (ch s.e s.f s.g) (add k w)))
  let t2 := add (bigSigma0 s.a) (maj s.a s.b s.c)
  ⟨add t1 t2, s.a, s.b, s.c, add s.d t1, s.e, s.f, s.g⟩

/-- The next word of the schedule. -/
def next (window : List Nat) : Nat :=
  add (sigma1 (window.getD 14 0)) (add (window.getD 9 0)
    (add (sigma0 (window.getD 1 0)) (window.getD 0 0)))

def rounds : List Nat → List Nat → State → State
  | k :: ks, w :: window, s => rounds ks (window ++ [next (w :: window)]) (round s k w)
  | _, _, s => s

/-- Bytes to big-endian words. -/
def words : List Nat → List Nat
  | a :: b :: c :: d :: rest => (((a * 256 + b) * 256 + c) * 256 + d) :: words rest
  | _ => []

def compress (s : State) (block : List Nat) : State :=
  let r := rounds K (words block) s
  ⟨add s.a r.a, add s.b r.b, add s.c r.c, add s.d r.d, add s.e r.e, add s.f r.f, add s.g r.g,
    add s.h r.h⟩

/-! ## Messages -/

/-- `n` in `k` bytes. -/
def be : Nat → Nat → List Nat
  | 0, _ => []
  | k + 1, n => n / 256 ^ k % 256 :: be k n

theorem length_be (k n : Nat) : (be k n).length = k := by
  induction k with
  | zero => rfl
  | succ k ih => rw [be, List.length_cons, ih]

def pad (m : List Nat) : List Nat :=
  m ++ 0x80 :: List.replicate ((119 - m.length % 64) % 64) 0 ++ be 8 (8 * m.length)

def blocks : Nat → List Nat → State → State
  | 0, _, s => s
  | n + 1, m, s => blocks n (m.drop 64) (compress s (m.take 64))

/-- The digest of a message. -/
def hash (m : List UInt8) : Vector UInt8 32 :=
  let p := pad (m.map UInt8.toNat)
  let s := blocks (p.length / 64) p initial
  ⟨((be 4 s.a ++ be 4 s.b ++ be 4 s.c ++ be 4 s.d ++ be 4 s.e ++ be 4 s.f ++ be 4 s.g
    ++ be 4 s.h).map UInt8.ofNat).toArray, by simp [length_be]⟩

/-- The digest of "abc". -/
example : (hash [97, 98, 99]).toList = [
    0xba, 0x78, 0x16, 0xbf, 0x8f, 0x01, 0xcf, 0xea, 0x41, 0x41, 0x40, 0xde, 0x5d, 0xae, 0x22, 0x23,
    0xb0, 0x03, 0x61, 0xa3, 0x96, 0x17, 0x7a, 0x9c, 0xb4, 0x10, 0xff, 0x61, 0xf2, 0x00, 0x15,
    0xad] := by
  decide +kernel

end Sha256
