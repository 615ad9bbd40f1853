import McTunnel.Core.Record
import McTunnel.Core.Sample

/-!
# Storage nodes and resolvers agree on who owns a name

The resolver compares the typed keyid with the beginning of the key's own; a
storage node searches the prefixes of the key's own keyid for one whose DHT key
is the storage key.

    verify k now skew = ok → authorizesStorageKey (dhtKey k)          (authorizes_of_verify)
    authorizesStorageKey (dhtKey k) → verify k ts 0 = ok              (ownership_agreement)
-/

namespace McTunnel

section
variable [Crates]

/-- No prefix of the key's own keyid but `keyid` itself has `keyid`'s DHT key. -/
def NoCollision (pubkey : Vector UInt8 32) (keyid : String) : Prop :=
  ∀ l, 1 ≤ l → l ≤ MAX_KEYID_LEN → dhtKey (keyidFromPubkey pubkey l) = dhtKey keyid →
    keyidFromPubkey pubkey l = keyid

/-! ## Lemmas -/

/-- Version, signature and key being right, only freshness is left to check. -/
theorem verify_of_owner (r : Record) (k : String) (now skew : UInt64) (hs : r.SigOk)
    (ho : Owns r.body.pubkey k) : r.verify k now skew = .ok () ∨
      r.verify k now skew = .error (.staleTimestamp r.body.ts now skew) := by
  obtain ⟨hv, vk, hvk, hsig⟩ := hs
  unfold Owns at ho
  unfold Record.verify
  rw [if_neg (by simp [hv]), hvk]
  dsimp only
  rw [hsig, ho]
  simp only [Bool.true_eq_false, if_false]
  split
  · exact Or.inr rfl
  · exact Or.inl rfl

theorem authorizes_of_verify (r : Record) (k : String) (now skew : UInt64) (hk : KeyidOk k)
    (h : r.verify k now skew = .ok ()) : authorizesStorageKey r (dhtKey k) = true := by
  obtain ⟨hs, ho, -⟩ := (verify_ok_iff r k now skew).mp h
  rw [owns_iff _ k hk] at ho
  have hmin : MIN_KEYID_LEN = 16 := rfl
  have := hk.min
  refine (authorizes_iff r _).mpr ⟨hs, k.toList.length, by omega, hk.max, ?_⟩
  rw [ho]

theorem owner_of_authorizes (r : Record) (k : String) (hk : KeyidOk k)
    (hc : NoCollision r.body.pubkey k) (h : authorizesStorageKey r (dhtKey k) = true) :
    r.SigOk ∧ Owns r.body.pubkey k := by
  obtain ⟨hs, l, h1, h2, hl⟩ := (authorizes_iff r _).mp h
  have hkl := hc l h1 h2 hl
  refine ⟨hs, (owns_iff _ k hk).mpr ?_⟩
  have hlen := length_keyidFromPubkey r.body.pubkey l h2
  rw [hkl] at hlen
  rw [hlen, hkl]

/-! ## Top theorem -/

/-- **Storage nodes and resolvers agree**: what a resolver accepts under a name
a storage node stores there, and what is stored there is refused by a resolver
for its time only. -/
theorem ownership_agreement (r : Record) (s : String) (n : Name) (hn : Name.parse s = .ok n)
    (hc : NoCollision r.body.pubkey n.keyid) :
    (∀ now skew, r.verify n.keyid now skew = .ok () →
      authorizesStorageKey r (dhtKey n.keyid) = true) ∧
    (authorizesStorageKey r (dhtKey n.keyid) = true →
      r.verify n.keyid r.body.ts 0 = .ok () ∧
      ∀ now skew, r.verify n.keyid now skew = .ok () ∨
        r.verify n.keyid now skew = .error (.staleTimestamp r.body.ts now skew)) := by
  have hk := (parse_valid s n hn).keyid
  constructor
  · intro now skew h
    exact authorizes_of_verify r n.keyid now skew hk h
  · intro h
    obtain ⟨hs, ho⟩ := owner_of_authorizes r n.keyid hk hc h
    constructor
    · exact (verify_ok_iff _ _ _ _).mpr ⟨hs, ho, fresh_self _ 0⟩
    · intro now skew
      exact verify_of_owner r n.keyid now skew hs ho

end

/-! ## Alice's name -/

/-- The first two bytes of the DHT keys of the prefixes of Alice's keyid, from
none to all of its letters. -/
def Sample.dhtKeyHeads : List Nat := [
  10019, 49737, 3214, 59591, 3147, 33747, 3993, 58099, 2561, 44010, 47369, 16392, 21179, 20669,
  11813, 606, 63574, 19272, 51468, 1502, 40461, 30884, 49055, 24945, 13705, 26338, 18899, 59356,
  22398, 27180, 56022, 8251, 39797, 58760, 22621, 50252, 56226, 61792, 35338, 18603, 17439, 5520,
  38317, 41719, 65190, 61689, 9252, 32298, 31244, 48745, 41595, 13126, 57758]

def Sample.keyHead (key : Vector UInt8 32) : Nat := key[0].toNat * 256 + key[1].toNat

theorem Sample.keyHead_alice : ∀ l < 53,
    keyHead (@dhtKey crates (Text.truncate aliceKeyidFull l)) = dhtKeyHeads.getD l 0 := by
  decide +kernel

/-- The prefixes of Alice's keyid have different DHT keys. -/
theorem Sample.dhtKey_alice_inj (l m : Nat) (hl : l < 53) (hm : m < 53)
    (h : @dhtKey crates (Text.truncate aliceKeyidFull l) =
      @dhtKey crates (Text.truncate aliceKeyidFull m)) : l = m := by
  have hnodup : dhtKeyHeads.Nodup := by decide
  have hlen : dhtKeyHeads.length = 53 := rfl
  have hhead := congrArg keyHead h
  rw [keyHead_alice l hl, keyHead_alice m hm, List.getD_eq_getElem _ _ (by omega),
    List.getD_eq_getElem _ _ (by omega)] at hhead
  exact (List.Nodup.getElem_inj_iff hnodup).mp hhead

/-- Of the prefixes of Alice's keyid only her own 16 letters have their DHT key. -/
theorem Sample.noCollision_alice : @NoCollision crates alicePubkey aliceKeyid := by
  have h16 : Text.truncate aliceKeyidFull 16 = aliceKeyid := by decide +kernel
  intro l h1 h2 h
  have hmax : MAX_KEYID_LEN = 52 := rfl
  unfold keyidFromPubkey at h ⊢
  rw [keyidFull_alice] at h ⊢
  rw [← h16] at h ⊢
  rw [dhtKey_alice_inj l 16 (by omega) (by decide) h]

theorem ownership_agreement_alice : @authorizesStorageKey Sample.crates
    (Sample.aliceRecord 1700000000) (@dhtKey Sample.crates Sample.aliceKeyid) = true :=
  (@ownership_agreement Sample.crates (Sample.aliceRecord 1700000000) Sample.aliceAddress
    ⟨"alice", Sample.aliceKeyid⟩ Sample.parse_aliceAddress Sample.noCollision_alice).1
    1700000000 300 (Sample.verify_alice _ _ _ (fresh_self _ _))

end McTunnel
