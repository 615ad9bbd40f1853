import McTunnel.Core.Encoding
import McTunnel.Core.Name
import McTunnel.Lib.Newest

/-!
# Signed records (`record.rs`)

Signing, the resolver's check (`verify`), the storage node's check
(`authorizesStorageKey`), and the choice among candidates (`selectVerified`).

    verify k now skew = ok ↔ SigOk ∧ the keyid is the key's ∧ |now - ts| ≤ skew   (verify_ok_iff)
    authorizesStorageKey key ↔ SigOk ∧ key is the DHT key of a prefix of the keyid (authorizes_iff)
    verified k now skew b = some r ↔ fromBytes b = ok r ∧ verify k now skew = ok    (verified_eq_some_iff)
-/

namespace McTunnel

/-! ## Code -/

/-- `u64::abs_diff`. -/
def absDiff (a b : UInt64) : UInt64 := if a < b then b - a else a - b

section
variable [Crates]

/-- `SHA-256("mc-tunnel:v1:" || keyid)`. -/
def dhtKey (keyid : String) : Vector UInt8 32 :=
  Crates.sha256 (Text.asBytes DHT_KEY_PREFIX ++ Text.asBytes keyid)

namespace Record

def sign (body : RecordBody) (signingKey : Vector UInt8 32) : Record where
  body := body
  sig := Crates.sign signingKey body.canonicalBytes

/-- The resolver's check: version, signature, keyid, freshness. -/
def verify (r : Record) (expectedKeyid : String) (now maxSkew : UInt64) : Except VerifyError Unit :=
  if r.body.v ≠ RECORD_VERSION then .error (.unsupportedVersion r.body.v)
  else
    match Crates.verifyingKey r.body.pubkey with
    | none => .error .badSignature
    | some vk =>
      if Crates.verify vk r.body.canonicalBytes r.sig = false then .error .badSignature
      else if keyidMatchesPubkey expectedKeyid r.body.pubkey = false then .error .keyidMismatch
      else
        let skew := absDiff now r.body.ts
        if maxSkew < skew then .error (.staleTimestamp r.body.ts now maxSkew) else .ok ()

/-- Version and signature only. -/
def signatureValid (r : Record) : Bool :=
  if r.body.v ≠ RECORD_VERSION then false
  else
    match Crates.verifyingKey r.body.pubkey with
    | none => false
    | some vk => Crates.verify vk r.body.canonicalBytes r.sig

end Record

/-- Should a DHT node store `record` under `storageKey`? -/
def authorizesStorageKey (record : Record) (storageKey : Vector UInt8 32) : Bool :=
  if record.signatureValid = false then false
  else
    let full := keyidFullFromPubkey record.body.pubkey
    (List.range' 1 full.utf8ByteSize).any fun l => dhtKey (Text.truncate full l) == storageKey

/-- One candidate of a lookup, parsed and verified. -/
def verified (expectedKeyid : String) (now maxSkew : UInt64) (bytes : List UInt8) : Option Record :=
  match Record.fromBytes bytes with
  | .error _ => none
  | .ok record =>
    match record.verify expectedKeyid now maxSkew with
    | .error _ => none
    | .ok () => some record

def selectVerified (candidates : List (List UInt8)) (expectedKeyid : String)
    (now maxSkew : UInt64) : Option Record :=
  Newest.maxByKey (fun record => record.body.ts.toNat)
    (candidates.filterMap (verified expectedKeyid now maxSkew))

end

/-! ## Lemmas -/

theorem absDiff_le_iff (a b skew : UInt64) : absDiff a b ≤ skew ↔
    a.toNat ≤ b.toNat + skew.toNat ∧ b.toNat ≤ a.toNat + skew.toNat := by
  have ha := a.toNat_lt
  have hb := b.toNat_lt
  unfold absDiff
  split
  · next h =>
    rw [UInt64.lt_iff_toNat_lt] at h
    rw [UInt64.le_iff_toNat_le, UInt64.toNat_sub_of_le _ _ (UInt64.le_iff_toNat_le.mpr (by omega))]
    omega
  · next h =>
    rw [UInt64.lt_iff_toNat_lt] at h
    rw [UInt64.le_iff_toNat_le, UInt64.toNat_sub_of_le _ _ (UInt64.le_iff_toNat_le.mpr (by omega))]
    omega

/-- `ts` is within `skew` seconds of `now`. -/
def Fresh (ts now skew : UInt64) : Prop :=
  now.toNat ≤ ts.toNat + skew.toNat ∧ ts.toNat ≤ now.toNat + skew.toNat

instance (ts now skew : UInt64) : Decidable (Fresh ts now skew) := by
  unfold Fresh
  infer_instance

theorem fresh_self (ts skew : UInt64) : Fresh ts ts skew := by
  unfold Fresh
  omega

section
variable [Crates]

/-- The record has the current version and a signature of its own key on its body. -/
def Record.SigOk (r : Record) : Prop :=
  r.body.v = RECORD_VERSION ∧ ∃ vk, Crates.verifyingKey r.body.pubkey = some vk ∧
    Crates.verify vk r.body.canonicalBytes r.sig = true

/-- What is assumed of `ed25519_dalek`: it accepts what it signed. -/
def VerifiesSigned : Prop :=
  ∀ sk msg, ∃ vk, Crates.verifyingKey (Crates.publicKey sk) = some vk ∧
    Crates.verify vk msg (Crates.sign sk msg) = true

/-- The keyid is the beginning of the key's own. -/
def Owns (pubkey : Vector UInt8 32) (keyid : String) : Prop :=
  keyidMatchesPubkey keyid pubkey = true

/-- The lengths a key owns a keyid at are those of its own keyid. -/
theorem owns_iff (pubkey : Vector UInt8 32) (k : String) (h : KeyidOk k) :
    Owns pubkey k ↔ keyidFromPubkey pubkey k.toList.length = k := by
  unfold Owns
  rw [keyidMatches_iff, utf8ByteSize_base32 k h.chars]

/-- **What the resolver accepts.** -/
theorem verify_ok_iff (r : Record) (k : String) (now skew : UInt64) :
    r.verify k now skew = .ok () ↔ r.SigOk ∧ Owns r.body.pubkey k ∧ Fresh r.body.ts now skew := by
  unfold Record.verify Record.SigOk Owns Fresh
  rw [← absDiff_le_iff]
  split
  · next hv => simp [hv]
  · next hv =>
    rw [not_not] at hv
    cases hk : Crates.verifyingKey r.body.pubkey with
    | none => simp
    | some vk =>
      by_cases hs : Crates.verify vk r.body.canonicalBytes r.sig = true
      · by_cases hm : keyidMatchesPubkey k r.body.pubkey = true
        · simp [hv, hs, hm]
        · simp [hs, hm]
      · simp [hs]

theorem signatureValid_iff (r : Record) : r.signatureValid = true ↔ r.SigOk := by
  unfold Record.signatureValid Record.SigOk
  split
  · next hv => simp [hv]
  · next hv =>
    rw [not_not] at hv
    cases hk : Crates.verifyingKey r.body.pubkey with
    | none => simp
    | some vk => simp [hv]

/-- **What a storage node accepts.** -/
theorem authorizes_iff (r : Record) (key : Vector UInt8 32) : authorizesStorageKey r key = true ↔
    r.SigOk ∧ ∃ l, 1 ≤ l ∧ l ≤ MAX_KEYID_LEN ∧ dhtKey (keyidFromPubkey r.body.pubkey l) = key := by
  unfold authorizesStorageKey
  rw [← signatureValid_iff]
  split
  · next h => simp [h]
  · next h =>
    rw [Bool.not_eq_false] at h
    simp only [h, true_and, List.any_eq_true, List.mem_range'_1, beq_iff_eq]
    rw [utf8ByteSize_keyidFull]
    constructor
    · rintro ⟨l, hl, hk⟩
      exact ⟨l, hl.1, by omega, hk⟩
    · rintro ⟨l, h1, h2, hk⟩
      exact ⟨l, ⟨h1, by omega⟩, hk⟩

theorem verified_eq_some_iff (k : String) (now skew : UInt64) (bytes : List UInt8) (r : Record) :
    verified k now skew bytes = some r ↔
      Record.fromBytes bytes = .ok r ∧ r.verify k now skew = .ok () := by
  unfold verified
  split
  · next h => simp [h]
  · next r' h =>
    rw [h, Except.ok.injEq]
    split
    · next hv =>
      constructor
      · intro hn
        cases hn
      · rintro ⟨rfl, hok⟩
        rw [hok] at hv
        cases hv
    · next hv =>
      constructor
      · intro hr
        cases hr
        exact ⟨rfl, hv⟩
      · rintro ⟨rfl, -⟩
        rfl

/-- A record signed with its own key carries a good signature. -/
theorem sigOk_sign (hs : VerifiesSigned) (body : RecordBody) (sk : Vector UInt8 32)
    (hv : body.v = RECORD_VERSION) (hk : body.pubkey = Crates.publicKey sk) :
    (Record.sign body sk).SigOk := by
  refine ⟨hv, ?_⟩
  show ∃ vk, Crates.verifyingKey body.pubkey = some vk ∧ _
  rw [hk]
  exact hs sk body.canonicalBytes

end

end McTunnel
