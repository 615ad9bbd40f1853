import McTunnel.Core.Name

/-!
# What a keyid commits to (`name.rs`)

A keyid of L letters is the beginning of a key's full keyid, five bits of the
key's hash a letter; the 52nd letter has the last bit.  The hash is any function
to 32 bytes.

    keyids of L letters agree ↔ the hashes agree on min (5L) 256 bits    (keyid_commits)
    keyid_matches_pubkey k p ↔ k is a beginning of p's full keyid         (keyidMatches_iff_begins)
-/

namespace McTunnel

/-- Lowercasing keeps the letters of the alphabet apart. -/
theorem lower_letter_injective : Function.Injective fun n => Text.lower (Base32.letter n) := by
  intro a b
  revert a b
  decide +kernel

section
variable [Crates]

/-- The bits of the hash of a key, most significant first. -/
def hashBits (pubkey : Vector UInt8 32) : List Bool :=
  Base32.toBits (Crates.sha256 pubkey.toList).toList

theorem length_hashBits (pubkey : Vector UInt8 32) : (hashBits pubkey).length = 256 := by
  unfold hashBits
  rw [Base32.length_toBits, Vector.length_toList]

theorem keyidFromPubkey_eq_iff (p q : Vector UInt8 32) (len : Nat) :
    keyidFromPubkey p len = keyidFromPubkey q len ↔
      (hashBits p).take (5 * len) = (hashBits q).take (5 * len) := by
  have hmap : ∀ pubkey : Vector UInt8 32, (keyidFromPubkey pubkey len).toList =
      ((Base32.quintets (hashBits pubkey)).take len).map fun n => Text.lower (Base32.letter n) := by
    intro pubkey
    rw [toList_keyidFromPubkey, toList_keyidFull, Base32.encode, List.map_map, ← List.map_take]
    rfl
  have hlen : (hashBits p).length = (hashBits q).length := by
    rw [length_hashBits, length_hashBits]
  rw [← String.toList_inj, hmap, hmap, (List.map_injective_iff.mpr lower_letter_injective).eq_iff,
    Base32.take_quintets_iff len _ _ hlen]

/-- A shorter keyid is the beginning of a longer one. -/
theorem keyidFromPubkey_begins (pubkey : Vector UInt8 32) (len len' : Nat) (h : len ≤ len') :
    (keyidFromPubkey pubkey len).toList <+: (keyidFromPubkey pubkey len').toList := by
  rw [toList_keyidFromPubkey, toList_keyidFromPubkey]
  exact List.take_prefix_take_left h

/-- A keyid matches a key exactly when it is a beginning of the key's full keyid. -/
theorem keyidMatches_iff_begins (pubkey : Vector UInt8 32) (keyid : String) :
    keyidMatchesPubkey keyid pubkey = true ↔
      keyid.toList <+: (keyidFullFromPubkey pubkey).toList := by
  rw [keyidMatches_iff, ← String.toList_inj, toList_keyidFromPubkey]
  constructor
  · intro h
    rw [← h]
    exact List.take_prefix _ _
  · intro h
    -- a beginning of the full keyid is ASCII, one byte a letter
    have hchars : keyid.toList.all isBase32Lower = true := by
      have hfull := List.all_eq_true.mp (keyidFull_chars pubkey)
      rw [List.all_eq_true]
      intro c hc
      exact hfull c (h.subset hc)
    rw [utf8ByteSize_base32 keyid hchars]
    exact (List.prefix_iff_eq_take.mp h).symm

/-- **What a keyid of `len` letters commits to**, for any two keys: it has `len`
letters of base32 (no key has more than 52), it begins every longer keyid of its
key, and it is another key's as well exactly when the hashes agree on the first
min (5 len) 256 bits. -/
theorem keyid_commits (p q : Vector UInt8 32) (len : Nat) :
    (len ≤ MAX_KEYID_LEN → (keyidFromPubkey p len).toList.length = len) ∧
    (keyidFromPubkey p len).toList.all isBase32Lower = true ∧
    (∀ len', len ≤ len' → (keyidFromPubkey p len).toList <+: (keyidFromPubkey p len').toList) ∧
    (keyidFromPubkey p len = keyidFromPubkey q len ↔
      (hashBits p).take (min (5 * len) 256) = (hashBits q).take (min (5 * len) 256)) ∧
    ∀ keyid : String,
      (keyidMatchesPubkey keyid p = true ↔ keyid.toList <+: (keyidFullFromPubkey p).toList) ∧
      (MAX_KEYID_LEN < keyid.toList.length → keyidMatchesPubkey keyid p = false) := by
  refine ⟨length_keyidFromPubkey p len, keyidFromPubkey_chars p len,
    keyidFromPubkey_begins p len, ?_, ?_⟩
  · have hmin : ∀ pubkey : Vector UInt8 32,
        (hashBits pubkey).take (min (5 * len) 256) = (hashBits pubkey).take (5 * len) := by
      intro pubkey
      rw [← length_hashBits pubkey]
      exact List.take_eq_take_min.symm
    rw [hmin, hmin]
    exact keyidFromPubkey_eq_iff p q len
  · intro keyid
    refine ⟨keyidMatches_iff_begins p keyid, ?_⟩
    intro hlong
    rw [← Bool.not_eq_true, keyidMatches_iff_begins]
    intro hpre
    have hlen := hpre.length_le
    rw [length_keyidFull] at hlen
    omega

end

end McTunnel
