import McTunnel.Core.Sample
import McTunnel.Net.Store

/-!
# A sample network

`libp2p` is an instance of `Libp2p` to run the model on: a peer id is the
multihash of the encoded key, shown in base58.
-/

namespace McTunnel.Sample

/-! ## Base58 -/

def base58Alphabet : List Char :=
  "123456789ABCDEFGHJKLMNPQRSTUVWXYZabcdefghijkmnopqrstuvwxyz".toList

/-- The digits of `n`, most significant first; `fuel` bounds their number. -/
def base58Digits : Nat → Nat → List Char → List Char
  | 0, _, acc => acc
  | fuel + 1, n, acc =>
    if n = 0 then acc
    else base58Digits fuel (n / 58) (base58Alphabet.getD (n % 58) '1' :: acc)

/-- A leading zero byte is a leading one. -/
def base58 (b : List UInt8) : String :=
  String.ofList ((b.takeWhile fun x => x == 0).map (fun _ => '1') ++
    base58Digits (2 * b.length) (b.foldl (fun n x => n * 256 + x.toNat) 0) [])

/-! ## The instance -/

/-- The identity multihash of an ed25519 public key. -/
def multihash (pubkey : Vector UInt8 32) : List UInt8 :=
  [0x00, 0x24, 0x08, 0x01, 0x12, 0x20] ++ pubkey.toList

/-- Components of a name and a value each. -/
def components : List String → List (Protocol (List UInt8))
  | name :: value :: rest => .other ("/" ++ name ++ "/" ++ value) :: components rest
  | _ => []

def showProtocol : Protocol (List UInt8) → String
  | .p2p id => "/p2p/" ++ base58 id
  | .p2pCircuit => "/p2p-circuit"
  | .other text => text

@[reducible] def libp2p : Libp2p where
  PeerId := List UInt8
  decEq := inferInstance
  showPeer := base58
  toPeerId pubkey := .ok (multihash pubkey)
  parseMultiaddr s :=
    match Text.split '/' s with
    | "" :: parts => some (components parts)
    | _ => none
  showMultiaddr addr := String.join (addr.map showProtocol)

/-- Alice's records name the peer of her key. -/
theorem showPeer_alice (ts : UInt64) :
    base58 (multihash alicePubkey) = (aliceBody ts).peerId.val := by
  have h : base58 (multihash alicePubkey) =
      "12D3KooWQK1wnefoLrcVHbbnf5tLzbopUd3K3bFAoJpA7YJgL5pV" := by decide +kernel
  exact h

/-- A node of the sample network, just started. -/
def node : @Node libp2p := @Node.new libp2p []

/-- Alice's record of time `ts` as a request under her name's key. -/
def aliceRequest (ts : UInt64) : @KadRecord libp2p :=
  @KadRecord.mk libp2p (@dhtKey crates aliceKeyid).toList (aliceRecord ts).toBytes none none

theorem validate_alice (ts : UInt64) :
    @validateInboundRecord libp2p crates (aliceRequest ts) = some (aliceRecord ts) :=
  (@validate_iff libp2p crates _ _).mpr ⟨fromBytes_alice ts, sigOk_alice ts,
    @boundTo_of_owns crates (aliceRecord ts) aliceKeyid keyidOk_alice owns_alice⟩

section
attribute [local instance] crates libp2p

theorem admitted_alice (t : Clock.Time) (ts : UInt64) (h : ts.toNat ≤ t.asSecs.toNat + 600) :
    admitted (t, aliceRequest ts) = some (aliceRecord ts) :=
  (admitted_iff (t, aliceRequest ts) _).mpr ⟨validate_alice ts, h⟩

/-- The entry of Alice's request at a node that holds nothing. -/
theorem entry_alice (t : Clock.Time) (ts : UInt64) (h : ts.toNat ≤ t.asSecs.toNat + 600) :
    (inbound node (t, aliceRequest ts)).store (aliceRequest ts).key =
      some { aliceRequest ts with expires := some (expiresAt t 600) } :=
  entry_inbound node (t, aliceRequest ts) (aliceRecord ts) (admitted_alice t ts h) rfl

/-- The record of a later request of Alice's takes its place. -/
theorem value_later (t t' : Clock.Time) (ts ts' : UInt64) (h : ts.toNat ≤ t.asSecs.toNat + 600)
    (h' : ts'.toNat ≤ t'.asSecs.toNat + 600) (hlt : ts < ts') :
    ((inbound (inbound node (t, aliceRequest ts)) (t', aliceRequest ts')).store
      (aliceRequest ts).key).map KadRecord.value = some (aliceRecord ts').toBytes := by
  have hnewer : isNewerThanStored (inbound node (t, aliceRequest ts)).store (aliceRequest ts').key
      ts' = true := by
    have hentry : (inbound node (t, aliceRequest ts)).store (aliceRequest ts').key = _ :=
      entry_alice t ts h
    unfold isNewerThanStored
    rw [hentry]
    dsimp only
    rw [show (aliceRequest ts).value = (aliceRecord ts).toBytes from rfl, fromBytes_alice]
    exact decide_eq_true hlt
  have hentry := entry_inbound _ (t', aliceRequest ts') (aliceRecord ts') (admitted_alice t' ts' h')
    hnewer
  exact congrArg (Option.map KadRecord.value) hentry

end

end McTunnel.Sample
