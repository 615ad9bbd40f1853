import Mathlib

/-!
# The core crate's data

Constants (`lib.rs`), errors (`error.rs`), records (`record.rs`), and `Crates`:
the third-party functions the core crate calls, as parameters.

Lengths of Rust strings and vectors are `usize`s.  `Str` and `Vec` carry that
bound; a record's text fields have these types, so every length in a record can
be written in a CBOR head.
-/

namespace McTunnel

/-! ## Constants -/

/-- Default keyid length (130 bits). -/
def DEFAULT_KEYID_LEN : Nat := 26

/-- Minimum accepted keyid length (80 bits). -/
def MIN_KEYID_LEN : Nat := 16

/-- Maximum keyid length: the whole SHA-256 in base32. -/
def MAX_KEYID_LEN : Nat := 52

def SUFFIX : String := "minecraft"

/-- Domain separation of the DHT key. -/
def DHT_KEY_PREFIX : String := "mc-tunnel:v1:"

def RECORD_VERSION : UInt8 := 1

/-- Hard cap on a serialized record. -/
def MAX_RECORD_BYTES : Nat := 8 * 1024

/-! ## Errors -/

inductive CoreError
  | badSuffix (suffix : String)
  | tooManyLabels
  | keyidLen (len min max : Nat)
  | keyidCharset
  | vanityTooLong (len : Nat)
  | vanityCharset
  | emptyLabel
deriving DecidableEq, Repr

inductive VerifyError
  | tooLarge (max : Nat)
  | malformed (why : String)
  | unsupportedVersion (v : UInt8)
  | badSignature
  | keyidMismatch
  | staleTimestamp (ts now skew : UInt64)
deriving DecidableEq, Repr

/-! ## Records -/

/-- A Rust `String`. -/
abbrev Str := { s : String // s.utf8ByteSize < 2 ^ 64 }

/-- A Rust `Vec`. -/
abbrev Vec (α : Type) := { l : List α // l.length < 2 ^ 64 }

def Str.of (s : String) : Option Str := if h : s.utf8ByteSize < 2 ^ 64 then some ⟨s, h⟩ else none

def Vec.of {α : Type} (l : List α) : Option (Vec α) :=
  if h : l.length < 2 ^ 64 then some ⟨l, h⟩ else none

/-- `<[u8; N]>::try_from`. -/
def toVector (n : Nat) (b : List UInt8) : Option (Vector UInt8 n) :=
  if h : b.length = n then some ⟨b.toArray, h⟩ else none

@[simp] theorem toVector_toList {n : Nat} (v : Vector UInt8 n) : toVector n v.toList = some v := by
  have hl : v.toList.length = n := Vector.length_toList
  unfold toVector
  rw [dif_pos hl]
  exact congrArg some (Vector.toArray_inj.mp v.toArray.toArray_toList)

theorem toList_of_toVector {n : Nat} (b : List UInt8) (v : Vector UInt8 n)
    (h : toVector n b = some v) : b = v.toList := by
  unfold toVector at h
  split at h
  · cases h
    rfl
  · cases h

@[simp] theorem Str.of_val (s : Str) : Str.of s.val = some s := dif_pos s.property

@[simp] theorem Vec.of_val {α : Type} (l : Vec α) : Vec.of l.val = some l := dif_pos l.property

/-- The signed body.  Field order is the order of the signed bytes. -/
structure RecordBody where
  v : UInt8
  pubkey : Vector UInt8 32
  peerId : Str
  addrs : Vec Str
  vanity : Str
  ts : UInt64
  ttl : UInt32
deriving DecidableEq

/-- A body and its detached signature. -/
structure Record where
  body : RecordBody
  sig : Vector UInt8 64
deriving DecidableEq

/-! ## Third-party functions -/

/-- What the core crate takes from `sha2`, `ed25519_dalek` and `ciborium`. -/
class Crates where
  /-- `ed25519_dalek::VerifyingKey` -/
  VerifyingKey : Type
  /-- `Sha256::digest` -/
  sha256 : List UInt8 → Vector UInt8 32
  /-- `SigningKey::from_bytes(secret).verifying_key().to_bytes()` -/
  publicKey : Vector UInt8 32 → Vector UInt8 32
  /-- `Signer::sign` with the key of these secret bytes -/
  sign : Vector UInt8 32 → List UInt8 → Vector UInt8 64
  /-- `VerifyingKey::from_bytes(..).ok()` -/
  verifyingKey : Vector UInt8 32 → Option VerifyingKey
  /-- `vk.verify(msg, sig).is_ok()` -/
  verify : VerifyingKey → List UInt8 → Vector UInt8 64 → Bool
  /-- `ciborium::from_reader` at `Record`; the error is its text -/
  fromReader : List UInt8 → Except String Record

/-- A sequence of fallible steps succeeds when each does. -/
theorem bind_ok {ε α β : Type} {x : Except ε α} {f : α → Except ε β} {b : β}
    (h : x >>= f = .ok b) : ∃ a, x = .ok a ∧ f a = .ok b := by
  cases x with
  | error e => cases h
  | ok a => exact ⟨a, rfl, h⟩

end McTunnel
