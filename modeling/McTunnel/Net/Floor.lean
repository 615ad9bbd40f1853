import McTunnel.Core.Address
import McTunnel.Core.Commitment
import McTunnel.Core.Ownership
import McTunnel.Net.Sample

/-!
# Names below the floor (`record.rs`, `node.rs`)

`MIN_KEYID_LEN` keeps keyids of less than 16 letters out of addresses.  The
check of a storage node tries the prefixes of a signer's keyid of every length,
from one letter on.  A record that it accepts is stored under a name that can
exist exactly when it is not one of the short prefixes that has been matched:

    record accepted → (Named ↔ not BelowFloor)                      (accepted_named_iff)
-/

namespace McTunnel

section
variable [Crates]

/-- The key is that of a keyid of the signer to which an address resolves. -/
def Named (key : List UInt8) (r : Record) : Prop :=
  ∃ k, KeyidOk k ∧ k.toList <+: (keyidFullFromPubkey r.body.pubkey).toList ∧
    key = (dhtKey k).toList ∧ ∃ s n, Name.parse s = .ok n ∧ n.keyid = k

/-- The key is that of a prefix too short for a keyid. -/
def BelowFloor (key : List UInt8) (r : Record) : Prop :=
  ∃ l, 1 ≤ l ∧ l < MIN_KEYID_LEN ∧ key = (dhtKey (keyidFromPubkey r.body.pubkey l)).toList

/-- What is assumed of SHA-256: the prefixes of the signer's keyid have different
DHT keys. -/
def PrefixesApart (pubkey : Vector UInt8 32) : Prop :=
  ∀ l m, 1 ≤ l → l ≤ MAX_KEYID_LEN → 1 ≤ m → m ≤ MAX_KEYID_LEN →
    dhtKey (keyidFromPubkey pubkey l) = dhtKey (keyidFromPubkey pubkey m) → l = m

omit [Crates] in
/-- Every keyid is that of an address. -/
theorem address_of_keyid (k : String) (h : KeyidOk k) : ∃ s n, Name.parse s = .ok n ∧ n.keyid = k :=
  ⟨_, ⟨"", k⟩, parse_toString ⟨"", k⟩ ⟨vanityOk_empty, h⟩, rfl⟩

theorem keyidOk_of_length (pubkey : Vector UInt8 32) (l : Nat) (hmin : MIN_KEYID_LEN ≤ l)
    (hmax : l ≤ MAX_KEYID_LEN) : KeyidOk (keyidFromPubkey pubkey l) := by
  have hlen := length_keyidFromPubkey pubkey l hmax
  refine ⟨?_, ?_, keyidFromPubkey_chars pubkey l⟩
  · rw [hlen]
    exact hmin
  · rw [hlen]
    exact hmax

/-- A prefix of 16 letters or more is a name. -/
theorem named_of_length (key : List UInt8) (r : Record) (l : Nat) (hmin : MIN_KEYID_LEN ≤ l)
    (hmax : l ≤ MAX_KEYID_LEN) (hkey : key = (dhtKey (keyidFromPubkey r.body.pubkey l)).toList) :
    Named key r := by
  have hk := keyidOk_of_length r.body.pubkey l hmin hmax
  refine ⟨_, hk, ?_, hkey, address_of_keyid _ hk⟩
  rw [toList_keyidFromPubkey]
  exact List.take_prefix _ _

/-- A name's keyid is a prefix of 16 letters or more. -/
theorem length_of_named (key : List UInt8) (r : Record) (h : Named key r) :
    ∃ l, MIN_KEYID_LEN ≤ l ∧ l ≤ MAX_KEYID_LEN ∧
      key = (dhtKey (keyidFromPubkey r.body.pubkey l)).toList := by
  obtain ⟨k, hk, hpre, hkey, -⟩ := h
  have howns := (keyidMatches_iff_begins r.body.pubkey k).mpr hpre
  rw [← (owns_iff r.body.pubkey k hk).mp howns] at hkey
  exact ⟨k.toList.length, hk.min, hk.max, hkey⟩

end

section
variable [Libp2p] [Crates]

/-- **Of the records a node accepts, those under a short prefix are under no
name, and all others are.** -/
theorem accepted_named_iff (record : KadRecord) (r : Record)
    (h : validateInboundRecord record = some r) (hc : PrefixesApart r.body.pubkey) :
    Named record.key r ↔ ¬ BelowFloor record.key r := by
  have hmin : MIN_KEYID_LEN = 16 := rfl
  have hmax : MAX_KEYID_LEN = 52 := rfl
  constructor
  · intro hn
    obtain ⟨m, hm1, hm2, hm⟩ := length_of_named record.key r hn
    rintro ⟨l, hl1, hl2, hl⟩
    rw [hl, Vector.toList_inj] at hm
    have hlm := hc l m hl1 (by omega) (by omega) hm2 hm
    omega
  · intro hs
    obtain ⟨-, -, l, h1, h2, hl⟩ := (validate_iff record r).mp h
    by_cases hshort : l < MIN_KEYID_LEN
    · exact absurd ⟨l, h1, hshort, hl⟩ hs
    · exact named_of_length record.key r l (by omega) h2 hl

end

/-! ## Alice below the floor -/

namespace Sample

theorem prefixesApart_alice : @PrefixesApart crates alicePubkey := by
  have hmax : MAX_KEYID_LEN = 52 := rfl
  intro l m _ hl _ hm h
  unfold keyidFromPubkey at h
  rw [keyidFull_alice] at h
  exact dhtKey_alice_inj l m (by omega) (by omega) h

section
attribute [local instance] crates libp2p

theorem named_alice (ts : UInt64) : Named (aliceRequest ts).key (aliceRecord ts) :=
  ⟨aliceKeyid, keyidOk_alice, (keyidMatches_iff_begins alicePubkey aliceKeyid).mp owns_alice, rfl,
    aliceAddress, ⟨"alice", aliceKeyid⟩, parse_aliceAddress, rfl⟩

/-- Alice's record of time `ts` under the first 15 letters of her keyid. -/
def shortRequest (ts : UInt64) : KadRecord where
  key := (dhtKey (keyidFromPubkey alicePubkey 15)).toList
  value := (aliceRecord ts).toBytes
  publisher := none
  expires := none

theorem validate_short (ts : UInt64) :
    validateInboundRecord (shortRequest ts) = some (aliceRecord ts) :=
  (validate_iff _ _).mpr ⟨fromBytes_alice ts, sigOk_alice ts, 15, by decide, by decide, rfl⟩

theorem entry_short (t : Clock.Time) (ts : UInt64) (h : ts.toNat ≤ t.asSecs.toNat + 600) :
    (inbound node (t, shortRequest ts)).store (shortRequest ts).key =
      some { shortRequest ts with expires := some (expiresAt t 600) } :=
  entry_inbound node (t, shortRequest ts) (aliceRecord ts)
    ((admitted_iff _ _).mpr ⟨validate_short ts, h⟩) rfl

/-- No name resolves to the key of 15 letters. -/
theorem not_named_short (ts : UInt64) : ¬ Named (shortRequest ts).key (aliceRecord ts) := by
  have hmin : MIN_KEYID_LEN = 16 := rfl
  intro h
  obtain ⟨m, hm1, hm2, hm⟩ := length_of_named _ _ h
  have := prefixesApart_alice 15 m (by decide) (by decide) (by omega) hm2 (Vector.toList_inj.mp hm)
  omega

end

end Sample

section
attribute [local instance] Sample.crates Sample.libp2p

/-- A node stores Alice's record under 15 letters, which no address resolves to. -/
theorem short_prefix_stored :
    (inbound Sample.node (Clock.Time.ofSecs 1700000000, Sample.shortRequest 1700000000)).store
        (Sample.shortRequest 1700000000).key =
      some { Sample.shortRequest 1700000000 with
        expires := some (expiresAt (Clock.Time.ofSecs 1700000000) 600) } ∧
    ¬ Named (Sample.shortRequest 1700000000).key (Sample.aliceRecord 1700000000) :=
  ⟨Sample.entry_short _ _ (by rw [Clock.Time.asSecs_ofSecs]; omega), Sample.not_named_short _⟩

/-- Alice's record under her name. -/
theorem accepted_named_alice :
    ¬ BelowFloor (Sample.aliceRequest 1700000000).key (Sample.aliceRecord 1700000000) :=
  (accepted_named_iff (Sample.aliceRequest 1700000000) (Sample.aliceRecord 1700000000)
    (Sample.validate_alice 1700000000) Sample.prefixesApart_alice).mp (Sample.named_alice 1700000000)

end

end McTunnel
