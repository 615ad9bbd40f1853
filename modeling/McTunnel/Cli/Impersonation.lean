import McTunnel.Cli.Tunnel
import McTunnel.Cli.Reachable
import McTunnel.Net.Sample

/-!
# Nobody but the owner is resolved

The adversary chooses every byte of every candidate of every round: junk, other
keys' records, anything ever signed.  What stands between is the holder of the
owner's key, who signs record bodies and, with the same key, libp2p's own
messages, none of which begins as a record body does.

    establish = ok peer → peer is the owner's, of a fresh record the owner signed
                                                          (establish_genuine)
-/

namespace McTunnel

/-! ## What the holder of a key has signed -/

/-- The first byte of a signed body: a map of seven entries. -/
def bodyHead : UInt8 := 0xa7

/-- What the holder of a key signs: bodies with `Record::sign`, and other
messages, which do not begin as bodies do. -/
structure Holder where
  bodies : RecordBody → Prop
  others : List UInt8 → Prop
  others_head : ∀ msg, others msg → msg.head? ≠ some bodyHead

def Holder.Signed (holder : Holder) (msg : List UInt8) : Prop :=
  (∃ body, holder.bodies body ∧ msg = body.canonicalBytes) ∨ holder.others msg

theorem head_canonicalBytes (b : RecordBody) : b.canonicalBytes.head? = some bodyHead := by
  have hl : (Cbor.entries (b.fieldsWith (Cbor.array b.addrItems))).length = 14 :=
    Cbor.length_entries _
  unfold RecordBody.canonicalBytes RecordBody.toWire Cbor.struct
  rw [Cbor.Wire.encode, hl]
  rfl

/-- A signed message that is a body's is a body the holder signed: the bytes
determine the body. -/
theorem signed_body (holder : Holder) (b : RecordBody) (h : holder.Signed b.canonicalBytes) :
    holder.bodies b := by
  rcases h with ⟨b', hb, he⟩ | ho
  · rw [RecordBody.canonicalBytes_inj b b' he]
    exact hb
  · exact absurd (head_canonicalBytes b) (holder.others_head _ ho)

section
variable [Crates]

/-- The record is among what the DHT answers in this round. -/
def Presented (n : Name) (round : Round) (r : Record) : Prop :=
  ∃ candidates, round.getRecord (dhtKey n.keyid).toList = .ok candidates ∧
    ∃ bytes ∈ candidates, Record.fromBytes bytes = .ok r

/-- A record of this round that the owner signed, every field of it, and that is
fresh by the clock of the round. -/
def OwnersRecord (n : Name) (owner : Vector UInt8 32) (holder : Holder) (round : Round)
    (r : Record) : Prop :=
  Presented n round r ∧ r.body.pubkey = owner ∧ holder.bodies r.body ∧
    Fresh r.body.ts round.now MAX_SKEW

/-! ## Lemmas -/

variable (n : Name) (owner : Vector UInt8 32) (holder : Holder) (rounds : List Round)
  (hkeys : ∀ round ∈ rounds, ∀ r, Presented n round r → Owns r.body.pubkey n.keyid →
    r.body.pubkey = owner)
  (hsig : ∀ round ∈ rounds, ∀ r, Presented n round r → r.body.pubkey = owner → r.SigOk →
    holder.Signed r.body.canonicalBytes)
include hkeys hsig

/-- What is resolved is the owner's record. -/
theorem resolve_owners (deadline : Nat) (r : Record)
    (h : resolve n deadline rounds = some (.ok r)) :
    ∃ round ∈ rounds, OwnersRecord n owner holder round r := by
  obtain ⟨round, hm, candidates, hc, hr⟩ := resolve_ok n deadline rounds r h
  obtain ⟨bytes, hb, hp, hv⟩ := select_mem n.keyid round.now MAX_SKEW candidates r hr
  obtain ⟨hs, ho, hf⟩ := (verify_ok_iff r n.keyid round.now MAX_SKEW).mp hv
  have hpres : Presented n round r := ⟨candidates, hc, bytes, hb, hp⟩
  have hk := hkeys round hm r hpres ho
  exact ⟨round, hm, hpres, hk, signed_body holder r.body (hsig round hm r hpres hk hs), hf⟩

/-! ## Top theorem -/

variable [Libp2p]

/-- **Nobody but the owner is resolved.**  Of the keys presented only the owner's
begins with the keyid, and a signature under it verifies only on what its holder
signed: then who is established is the peer of the owner's key, through a fresh
record the owner signed; without such a record nobody is. -/
theorem establish_genuine (start : Nat) :
    (∀ peer dials, establish n start rounds = some (.ok (peer, dials)) →
      peerIdFromEd25519 owner = .ok peer ∧ ∃ round ∈ rounds, ∃ r,
        OwnersRecord n owner holder round r ∧ Libp2p.showPeer peer = r.body.peerId.val ∧
        dials = r.body.addrs.val.filterMap fun a => Libp2p.parseMultiaddr a.val) ∧
    ((∀ round ∈ rounds, ∀ r, ¬ OwnersRecord n owner holder round r) →
      ∀ result, establish n start rounds ≠ some (.ok result)) := by
  have key : ∀ peer dials, establish n start rounds = some (.ok (peer, dials)) →
      peerIdFromEd25519 owner = .ok peer ∧ ∃ round ∈ rounds, ∃ r,
        OwnersRecord n owner holder round r ∧ Libp2p.showPeer peer = r.body.peerId.val ∧
        dials = r.body.addrs.val.filterMap fun a => Libp2p.parseMultiaddr a.val := by
    intro peer dials h
    obtain ⟨r, hr, hpeer, hshow, hdials⟩ := establish_ok n start rounds peer dials h
    obtain ⟨round, hm, ho⟩ := resolve_owners n owner holder rounds hkeys hsig _ r hr
    rw [ho.2.1] at hpeer
    exact ⟨hpeer, round, hm, r, ho, hshow, hdials⟩
  refine ⟨key, ?_⟩
  rintro hno ⟨peer, dials⟩ h
  obtain ⟨-, round, hm, r, ho, -⟩ := key peer dials h
  exact hno round hm r ho

end

/-! ## Alice is looked up -/

section
attribute [local instance] Sample.crates Sample.libp2p

/-- Alice signs her records, and messages that begin with text. -/
def Sample.aliceHolder : Holder where
  bodies body := ∃ ts, body = aliceBody ts
  others msg := msg.head? = some 0x6e
  others_head := by
    intro msg h
    rw [h]
    decide

/-- A round in which the DHT answers with junk and a record of Alice. -/
def Sample.aliceRound : Round where
  getRecord _ := .ok [[0x00], (aliceRecord 1700000000).toBytes]
  now := 1700000300
  instant := 0

/-- What is presented in the round is Alice's record. -/
theorem Sample.presented_alice (n : Name) (r : Record) (h : Presented n aliceRound r) :
    r = aliceRecord 1700000000 := by
  obtain ⟨candidates, hc, bytes, hb, hr⟩ := h
  cases hc
  rcases List.mem_cons.mp hb with rfl | hb
  · cases hr
  · rw [List.mem_singleton.mp hb, fromBytes_alice] at hr
    exact (Except.ok.inj hr).symm

theorem Sample.select_alice (ts now : UInt64) (h : Fresh ts now MAX_SKEW) :
    selectVerified [[0x00], (aliceRecord ts).toBytes] aliceKeyid now MAX_SKEW =
      some (aliceRecord ts) := by
  apply select_only aliceKeyid now MAX_SKEW _ (aliceRecord ts).toBytes
  · exact List.mem_cons_of_mem _ List.mem_cons_self
  · exact ⟨fromBytes_alice _, verify_alice _ _ _ h⟩
  · exact junk_alice ts _ _ _

theorem Sample.establish_alice : ∃ dials,
    establish ⟨"alice", aliceKeyid⟩ 0 [aliceRound] = some (.ok (multihash alicePubkey, dials)) := by
  have hr : resolve ⟨"alice", aliceKeyid⟩ (0 + RESOLVE_TIMEOUT) [aliceRound] =
      some (.ok (aliceRecord 1700000000)) := by
    unfold resolve aliceRound
    dsimp only
    rw [select_alice 1700000000 1700000300 (by decide)]
  have hp : peerIdFromEd25519 (aliceRecord 1700000000).body.pubkey = .ok (multihash alicePubkey) :=
    rfl
  have hshow : Libp2p.showPeer (multihash alicePubkey) =
      (aliceRecord 1700000000).body.peerId.val := showPeer_alice 1700000000
  unfold establish
  rw [hr]
  dsimp only
  rw [hp]
  dsimp only
  rw [if_neg (not_not.mpr hshow)]
  exact ⟨_, rfl⟩

theorem establish_genuine_alice : ∃ r,
    OwnersRecord ⟨"alice", Sample.aliceKeyid⟩ Sample.alicePubkey Sample.aliceHolder
      Sample.aliceRound r := by
  obtain ⟨dials, h⟩ := Sample.establish_alice
  obtain ⟨-, round, hm, r, ho, -⟩ := (establish_genuine ⟨"alice", Sample.aliceKeyid⟩
    Sample.alicePubkey Sample.aliceHolder [Sample.aliceRound]
    (by
      intro round hm r hr _
      rw [List.mem_singleton.mp hm] at hr
      rw [Sample.presented_alice _ r hr]
      rfl)
    (by
      intro round hm r hr _ _
      rw [List.mem_singleton.mp hm] at hr
      rw [Sample.presented_alice _ r hr]
      exact Or.inl ⟨_, ⟨1700000000, rfl⟩, rfl⟩) 0).1 _ dials h
  rw [List.mem_singleton.mp hm] at ho
  exact ⟨r, ho⟩

end

end McTunnel
