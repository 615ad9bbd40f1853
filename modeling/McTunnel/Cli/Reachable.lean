import McTunnel.Cli.Tunnel
import McTunnel.Core.Sample
import McTunnel.Core.Select

/-!
# An honest publisher can be resolved

Deriving the name, displaying it, parsing what a user types, the DHT key, the
storage node's check and the resolver's check are written separately; they agree
for every identity, vanity, length of keyid and record that fits.

    a spelling of the name parses to the name                        (parse_publisher)
    a storage node takes the record under the publisher's key        (authorizes_publisher)
    a resolver within MAX_SKEW chooses the record               (honest_publisher_resolvable)
-/

namespace McTunnel

section
variable [Crates] (p : Publisher) (n : Name)

/-! ## Lemmas -/

theorem name_publisher (hn : p.name = .ok n) : n.Valid ∧ n.keyid = p.keyid :=
  have h := fromPubkey_valid _ _ _ n hn
  ⟨h.1, h.2.1⟩

theorem parse_publisher (hn : p.name = .ok n) (s : String) (hs : Spelling s n.toString) :
    Name.parse s = .ok n :=
  parse_spelling n (name_publisher p n hn).1 s hs

/-- The publisher owns the name it publishes under. -/
theorem owns_publisher (hn : p.name = .ok n) : Owns p.identity.publicBytes n.keyid := by
  obtain ⟨-, hk, -, hmax⟩ := fromPubkey_valid _ _ _ n hn
  unfold Owns
  rw [hk]
  exact keyidMatches_keyidFromPubkey _ _ hmax

theorem sigOk_buildRecord (hs : VerifiesSigned) (addrs : Vec Str) (now : UInt64) :
    (buildRecord p.identity p.vanity p.peerId addrs now).SigOk :=
  sigOk_sign hs _ p.identity.secret rfl rfl

/-- A record verifies under the publisher's name while it is fresh. -/
theorem verify_buildRecord (hs : VerifiesSigned) (hn : p.name = .ok n) (addrs : Vec Str)
    (ts now skew : UInt64) (hf : Fresh ts now skew) :
    (buildRecord p.identity p.vanity p.peerId addrs ts).verify n.keyid now skew = .ok () :=
  (verify_ok_iff _ _ _ _).mpr ⟨sigOk_buildRecord p hs addrs ts, owns_publisher p n hn, hf⟩

theorem authorizes_publisher (hs : VerifiesSigned) (hn : p.name = .ok n) (addrs : Vec Str)
    (now : UInt64) :
    authorizesStorageKey (buildRecord p.identity p.vanity p.peerId addrs now) p.dk = true := by
  obtain ⟨-, -, hmin, hmax⟩ := fromPubkey_valid _ _ _ n hn
  have h16 : MIN_KEYID_LEN = 16 := rfl
  exact (authorizes_iff _ _).mpr
    ⟨sigOk_buildRecord p hs addrs now, p.keyidLen, by omega, hmax, rfl⟩

/-! ## Top theorem -/

/-- **An honest publisher is resolvable**: whatever spelling of its name is
typed, the key it puts under is the one looked up, storage nodes take its
record, and a resolver with a clock within `MAX_SKEW` chooses it among any
candidates none of which verifies. -/
theorem honest_publisher_resolvable (hc : ReadsCbor) (hs : VerifiesSigned) (hn : p.name = .ok n)
    (addrs : Vec Str) (now : UInt64)
    (hsize : (buildRecord p.identity p.vanity p.peerId addrs now).toBytes.length ≤ MAX_RECORD_BYTES)
    (s : String) (hsp : Spelling s n.toString) :
    ∃ n', Name.parse s = .ok n' ∧ dhtKey n'.keyid = p.dk ∧
      ∃ r, Record.fromBytes (buildRecord p.identity p.vanity p.peerId addrs now).toBytes = .ok r ∧
        r = buildRecord p.identity p.vanity p.peerId addrs now ∧
        authorizesStorageKey r p.dk = true ∧
        ∀ (candidates : List (List UInt8)) (clock : UInt64), r.toBytes ∈ candidates →
          (∀ other ∈ candidates, other ≠ r.toBytes → Junk n'.keyid clock MAX_SKEW other) →
          Fresh now clock MAX_SKEW →
          selectVerified candidates n'.keyid clock MAX_SKEW = some r := by
  have hk := (name_publisher p n hn).2
  have hr : Record.fromBytes (buildRecord p.identity p.vanity p.peerId addrs now).toBytes =
      .ok (buildRecord p.identity p.vanity p.peerId addrs now) := by
    apply fromBytes_toBytes hc
    rw [← Record.length_toBytes]
    exact hsize
  refine ⟨n, parse_publisher p n hn s hsp, ?_, _, hr, rfl, authorizes_publisher p n hs hn addrs now,
    ?_⟩
  · unfold Publisher.dk
    rw [hk]
  · intro candidates clock hmem hjunk hfresh
    apply select_only n.keyid clock MAX_SKEW candidates _ _ hmem _ hjunk
    exact ⟨hr, verify_buildRecord p n hs hn addrs now clock MAX_SKEW hfresh⟩

end

/-! ## Alice publishes -/

namespace Sample

section
attribute [local instance] crates

/-- Alice publishes under 16 letters. -/
def publisher : Publisher where
  identity := ⟨aliceSecret⟩
  keyidLen := 16
  vanity := (aliceBody 0).vanity
  peerId := (aliceBody 0).peerId

theorem publicBytes_alice : publisher.identity.publicBytes = alicePubkey := publicKey_alice

theorem keyid_publisher : publisher.keyid = aliceKeyid := by
  have h : Text.truncate aliceKeyidFull 16 = aliceKeyid := by decide +kernel
  show Text.truncate (keyidFullFromPubkey publisher.identity.publicBytes) 16 = aliceKeyid
  rw [publicBytes_alice, keyidFull_alice, h]

theorem name_alice : publisher.name = .ok ⟨"alice", aliceKeyid⟩ := by
  have h : publisher.name = .ok ⟨"alice", publisher.keyid⟩ := rfl
  rw [h, keyid_publisher]

theorem buildRecord_alice (ts : UInt64) :
    buildRecord publisher.identity publisher.vanity publisher.peerId (aliceBody 0).addrs ts =
      aliceRecord ts := by
  unfold buildRecord aliceRecord
  rw [publicBytes_alice]
  rfl

/-- The address in other letters and between blanks. -/
theorem spelling_alice : Spelling "  ALICE.Eh7ddx5bksrgcytl.Minecraft "
    (Name.toString ⟨"alice", aliceKeyid⟩) := by
  refine ⟨"ALICE.Eh7ddx5bksrgcytl.Minecraft", ⟨[' ', ' '], [' '], ?_, ?_, ?_⟩, ?_⟩
  · decide +kernel
  · decide
  · decide
  · decide +kernel

/-- Beside Alice's record there is only a byte that does not parse. -/
theorem junk_alice (ts : UInt64) (keyid : String) (now maxSkew : UInt64) :
    ∀ other ∈ [[0x00], (aliceRecord ts).toBytes], other ≠ (aliceRecord ts).toBytes →
      Junk keyid now maxSkew other := by
  intro other hm hne
  rcases List.mem_cons.mp hm with rfl | hm
  · rintro r ⟨hr, -⟩
    cases hr
  · exact absurd (List.mem_singleton.mp hm) hne

end

end Sample

section
attribute [local instance] Sample.crates

theorem alice_resolvable :
    selectVerified [[0x00], (Sample.aliceRecord 1700000000).toBytes] Sample.aliceKeyid 1700000300
      MAX_SKEW = some (Sample.aliceRecord 1700000000) := by
  have hsize : (buildRecord Sample.publisher.identity Sample.publisher.vanity
      Sample.publisher.peerId (Sample.aliceBody 0).addrs 1700000000).toBytes.length ≤
      MAX_RECORD_BYTES := by
    rw [Sample.buildRecord_alice]
    exact length_le_of_fromBytes _ _ (Sample.fromBytes_alice 1700000000)
  obtain ⟨n', hp, -, r, -, hr, -, hsel⟩ := honest_publisher_resolvable Sample.publisher _
    Sample.readsCbor Sample.verifiesSigned Sample.name_alice (Sample.aliceBody 0).addrs 1700000000
    hsize _ Sample.spelling_alice
  rw [parse_publisher Sample.publisher _ Sample.name_alice _ Sample.spelling_alice] at hp
  rw [Sample.buildRecord_alice] at hr
  cases hp
  cases hr
  apply hsel
  · exact List.mem_cons_of_mem _ List.mem_cons_self
  · exact Sample.junk_alice 1700000000 _ _ _
  · decide

end

end McTunnel
