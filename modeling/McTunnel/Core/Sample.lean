import McTunnel.Core.Record
import McTunnel.Lib.Sha256

/-!
# A sample key

`crates` is an instance of `Crates` to run the model on: SHA-256 and CBOR as
they are, and the ed25519 key pair of Alice with her signatures on the records
below.  On other keys and messages a keyed hash stands for the signature.
-/

namespace McTunnel.Sample

/-! ## Alice -/

def aliceSecret : Vector UInt8 32 := #v[
    0x9d, 0x61, 0xb1, 0x9d, 0xef, 0xfd, 0x5a, 0x60, 0xba, 0x84, 0x4a, 0xf4, 0x92, 0xec, 0x2c, 0xc4,
    0x44, 0x49, 0xc5, 0x69, 0x7b, 0x32, 0x69, 0x19, 0x70, 0x3b, 0xac, 0x03, 0x1c, 0xae, 0x7f, 0x60]

def alicePubkey : Vector UInt8 32 := #v[
    0xd7, 0x5a, 0x98, 0x01, 0x82, 0xb1, 0x0a, 0xb7, 0xd5, 0x4b, 0xfe, 0xd3, 0xc9, 0x64, 0x07, 0x3a,
    0x0e, 0xe1, 0x72, 0xf3, 0xda, 0xa6, 0x23, 0x25, 0xaf, 0x02, 0x1a, 0x68, 0xf7, 0x07, 0x51, 0x1a]

/-- Alice's record of time `ts`, to be signed. -/
def aliceBody (ts : UInt64) : RecordBody where
  v := RECORD_VERSION
  pubkey := alicePubkey
  peerId := ⟨"12D3KooWQK1wnefoLrcVHbbnf5tLzbopUd3K3bFAoJpA7YJgL5pV", by decide⟩
  addrs := ⟨[⟨"/ip4/192.0.2.7/tcp/40000", by decide⟩], by decide⟩
  vanity := ⟨"alice", by decide⟩
  ts := ts
  ttl := 600

/-- Alice's signatures, by the time of the record. -/
def aliceSigs : List (UInt64 × Vector UInt8 64) := [
  (1700000000, #v[
    0x7a, 0x60, 0xea, 0xb6, 0x49, 0xce, 0x49, 0xc1, 0xfd, 0x68, 0x8f, 0x45, 0x1b, 0xfe, 0x86, 0x50,
    0x16, 0xbc, 0x32, 0xba, 0xc7, 0x40, 0x3d, 0xc8, 0xe5, 0xe6, 0xf3, 0xcf, 0xb2, 0xc1, 0xcd, 0xa5,
    0x0a, 0xf8, 0x9f, 0x74, 0xa6, 0xdc, 0x54, 0x31, 0x53, 0x5c, 0x1f, 0x94, 0x40, 0x27, 0xfe, 0xeb,
    0x23, 0x34, 0x6c, 0x4c, 0x63, 0x2c, 0xb1, 0x19, 0x0e, 0xd7, 0x68, 0x39, 0x6e, 0x5c, 0x02, 0x06]),
  (1700000600, #v[
    0xb0, 0x77, 0xd0, 0x1f, 0x84, 0x4c, 0x8b, 0xa8, 0x19, 0xf0, 0xdb, 0x93, 0x11, 0x08, 0x20, 0x31,
    0x49, 0x78, 0x94, 0x78, 0x63, 0x82, 0x09, 0xea, 0xd9, 0xb2, 0x46, 0x70, 0xfb, 0xb1, 0x4c, 0x70,
    0xee, 0xe2, 0x0b, 0xa4, 0xc9, 0xc9, 0x30, 0x02, 0x95, 0x9f, 0x0e, 0x97, 0x67, 0x18, 0x2b, 0xdb,
    0x71, 0x13, 0x05, 0xc9, 0xda, 0xc3, 0xd8, 0x44, 0xe0, 0x36, 0xe0, 0x7f, 0xd9, 0x5f, 0x27, 0x03])]

/-! ## The instance -/

def publicKey (secret : Vector UInt8 32) : Vector UInt8 32 :=
  if secret = aliceSecret then alicePubkey else secret

def signature (pubkey : Vector UInt8 32) (msg : List UInt8) : Vector UInt8 64 :=
  match aliceSigs.find? fun s => pubkey == alicePubkey && msg == (aliceBody s.1).canonicalBytes with
  | some s => s.2
  | none => Sha256.hash (pubkey.toList ++ msg) ++ Sha256.hash (msg ++ pubkey.toList)

@[reducible] def crates : Crates where
  VerifyingKey := Vector UInt8 32
  sha256 := Sha256.hash
  publicKey := publicKey
  sign secret msg := signature (publicKey secret) msg
  verifyingKey := some
  verify pubkey msg sig := sig == signature pubkey msg
  fromReader := rfcReader

theorem readsCbor : @ReadsCbor crates := rfcReader_encode

theorem verifiesSigned : @VerifiesSigned crates := by
  intro secret msg
  exact ⟨publicKey secret, rfl, beq_self_eq_true (signature (publicKey secret) msg)⟩

theorem publicKey_alice : publicKey aliceSecret = alicePubkey := if_pos rfl

def aliceKeyid : String := "eh7ddx5bksrgcytl"

def aliceKeyidFull : String := "eh7ddx5bksrgcytl7bkai36se4nxx3klnk7elksyq57pi74xeg4q"

def aliceAddress : String := "alice.eh7ddx5bksrgcytl.minecraft"

theorem keyidFull_alice : @keyidFullFromPubkey crates alicePubkey = aliceKeyidFull := by
  decide +kernel

theorem parse_aliceAddress : Name.parse aliceAddress = .ok ⟨"alice", aliceKeyid⟩ := by
  decide +kernel

theorem owns_alice : @Owns crates alicePubkey aliceKeyid := by
  show (Text.truncate (@keyidFullFromPubkey crates alicePubkey) aliceKeyid.utf8ByteSize ==
    aliceKeyid) = true
  rw [keyidFull_alice]
  decide +kernel

theorem keyidOk_alice : KeyidOk aliceKeyid := (parse_valid _ _ parse_aliceAddress).keyid

/-- Alice's signed record of time `ts`. -/
def aliceRecord (ts : UInt64) : Record := @Record.sign crates (aliceBody ts) aliceSecret

theorem sigOk_alice (ts : UInt64) : @Record.SigOk crates (aliceRecord ts) :=
  @sigOk_sign crates verifiesSigned (aliceBody ts) aliceSecret rfl publicKey_alice.symm

theorem verify_alice (ts now skew : UInt64) (h : Fresh ts now skew) :
    @Record.verify crates (aliceRecord ts) aliceKeyid now skew = .ok () :=
  (@verify_ok_iff crates _ _ _ _).mpr ⟨sigOk_alice ts, owns_alice, h⟩

theorem fromBytes_alice (ts : UInt64) :
    @Record.fromBytes crates (aliceRecord ts).toBytes = .ok (aliceRecord ts) := by
  apply @fromBytes_toBytes crates readsCbor
  have hh : Cbor.headSize ts.toNat ≤ 9 := Cbor.headSize_le _
  show 76 + (72 + 1 + 54 + (1 + 26) + 6 + Cbor.headSize ts.toNat + 3) ≤ 8192
  omega

end McTunnel.Sample
