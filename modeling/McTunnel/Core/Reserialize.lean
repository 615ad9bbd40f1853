import McTunnel.Core.Sample

/-!
# Parsing what was parsed

The size cap is on the bytes received.  Every head of the shortest form is as
short as it gets, but an array of 256 addresses or more takes a byte less with
an indefinite length, so a record can be accepted at the cap and refused in its
own serialization.

    ReadsCbor → fromBytes b = ok r →
      (fromBytes r.toBytes = ok r ↔ r.size ≤ MAX_RECORD_BYTES)        (reserialize_iff)
    r.size = MAX_RECORD_BYTES + 1 → 256 addresses or more →
      r.openBytes is accepted, r.toBytes is not                        (openBytes_not_reserialized)

Up to the cap nothing is lost, and no two bodies have the same signed bytes
(format_lossless).
-/

namespace McTunnel

open Cbor (Wire)

/-! ## The addresses as an array of indefinite length -/

/-- The addresses between an opening byte and a break. -/
def RecordBody.openAddrs (b : RecordBody) : Wire := .seq .array none b.addrItems

def Record.openWire (r : Record) : Wire :=
  Cbor.struct (r.fieldsWith (Cbor.struct (r.body.fieldsWith r.body.openAddrs)))

def Record.openBytes (r : Record) : List UInt8 := r.openWire.encode

theorem Record.ofWire_openWire (r : Record) : Record.ofWire r.openWire = some r :=
  r.ofWire_fieldsWith _ rfl (r.body.ofWire_fieldsWith _ rfl (strsOfWire_seq none r.body))

theorem Record.openWire_wellFormed (r : Record) : r.openWire.WellFormed := by
  apply r.fieldsWith_wellFormed
  apply r.body.fieldsWith_wellFormed
  refine ⟨?_, rfl, (Cbor.allWellFormed_iff _).mpr r.body.addrItems_wellFormed⟩
  rintro v ⟨⟩

/-- From 256 addresses on, the open form is a byte shorter. -/
theorem Record.length_openBytes (r : Record) (h1 : 256 ≤ r.body.addrs.val.length)
    (h2 : r.body.addrs.val.length < 65536) : r.openBytes.length + 1 = r.size := by
  have hhead : Cbor.headSize r.body.addrs.val.length = 3 := by
    unfold Cbor.headSize
    rw [if_neg (by omega), if_neg (by omega), if_pos h2]
  have hopen : r.body.openAddrs.encode.length = 2 + r.body.addrsSize := by
    rw [RecordBody.openAddrs, Wire.encode, List.length_append, List.length_cons,
      Cbor.length_encodeAll, RecordBody.sum_addrItems, List.length_singleton]
    omega
  unfold openBytes openWire size
  rw [length_fieldsWith, RecordBody.length_fieldsWith, hopen, hhead]
  unfold RecordBody.sizeWith
  omega

/-! ## Top theorems -/

section
variable [Crates]

theorem fromBytes_openBytes (hc : ReadsCbor) (r : Record)
    (h : r.openBytes.length ≤ MAX_RECORD_BYTES) : Record.fromBytes r.openBytes = .ok r := by
  have hr := fromBytes_of_ofWire hc r.openWire [] r r.openWire_wellFormed r.ofWire_openWire
  rw [List.append_nil] at hr
  exact hr h

/-- A record one byte over the cap is accepted in its open form only. -/
theorem openBytes_not_reserialized (hc : ReadsCbor) (r : Record) (h : r.size = MAX_RECORD_BYTES + 1)
    (h1 : 256 ≤ r.body.addrs.val.length) (h2 : r.body.addrs.val.length < 65536) :
    Record.fromBytes r.openBytes = .ok r ∧
      Record.fromBytes r.toBytes = .error (.tooLarge MAX_RECORD_BYTES) := by
  have hl := r.length_openBytes h1 h2
  constructor
  · apply fromBytes_openBytes hc
    omega
  · apply fromBytes_tooLarge
    rw [Record.length_toBytes]
    omega

theorem fromBytes_toBytes_iff (hc : ReadsCbor) (r : Record) :
    Record.fromBytes r.toBytes = .ok r ↔ r.size ≤ MAX_RECORD_BYTES := by
  constructor
  · intro h
    rw [← Record.length_toBytes]
    exact length_le_of_fromBytes _ _ h
  · exact fromBytes_toBytes hc r

/-- **What parses survives its own serialization exactly when its shortest form
is within the cap**, as any record does; that the bytes it came in were does not
give that. -/
theorem reserialize_iff (hc : ReadsCbor) (b : List UInt8) (r : Record)
    (_hb : Record.fromBytes b = .ok r) :
    Record.fromBytes r.toBytes = .ok r ↔ r.size ≤ MAX_RECORD_BYTES :=
  fromBytes_toBytes_iff hc r

/-- **The record format is lossless up to the cap and unambiguous**: a record is
read back as it was written, or refused for its length, and bodies that differ
anywhere are signed as different bytes. -/
theorem format_lossless (hc : ReadsCbor) :
    (∀ r : Record, (r.toBytes.length ≤ MAX_RECORD_BYTES → Record.fromBytes r.toBytes = .ok r) ∧
      (MAX_RECORD_BYTES < r.toBytes.length →
        Record.fromBytes r.toBytes = .error (.tooLarge MAX_RECORD_BYTES))) ∧
    ∀ b1 b2 : RecordBody, b1.canonicalBytes = b2.canonicalBytes → b1 = b2 := by
  refine ⟨fun r => ⟨?_, ?_⟩, RecordBody.canonicalBytes_inj⟩
  · intro hl
    rw [Record.length_toBytes] at hl
    exact fromBytes_toBytes hc r hl
  · exact fromBytes_tooLarge r.toBytes

end

/-! ## A record at the cap -/

namespace Sample

/-- Alice's record with `n` empty addresses, unsigned. -/
def wideRecord (n : Nat) (h : n < 2 ^ 64) : Record where
  body := { aliceBody 1700000000 with
    addrs := ⟨List.replicate n ⟨"", by decide⟩, by rw [List.length_replicate]; exact h⟩ }
  sig := Vector.replicate 64 0

theorem length_wideAddrs (n : Nat) (h : n < 2 ^ 64) :
    (wideRecord n h).body.addrs.val.length = n := List.length_replicate

theorem size_wideRecord (n : Nat) (h : n < 2 ^ 64) :
    (wideRecord n h).size = 217 + Cbor.headSize n + n := by
  have hs : (wideRecord n h).body.addrsSize = n := by
    unfold RecordBody.addrsSize wideRecord
    rw [List.map_replicate, List.sum_replicate]
    exact Nat.mul_one n
  have hw : ∀ k, (wideRecord n h).body.sizeWith k = 141 + k := by
    intro k
    show 72 + 1 + 54 + k + 6 + 5 + 3 = 141 + k
    omega
  unfold Record.size
  rw [length_wideAddrs, hs, hw]
  omega

end Sample

/-- Sent in 8192 bytes, the record is accepted; its own 8193 bytes are not. -/
theorem reserialize_fails : @ReadsCbor Sample.crates ∧ ∃ b r,
    b = (Sample.wideRecord 7973 (by decide)).openBytes ∧ b.length = MAX_RECORD_BYTES ∧
    @Record.fromBytes Sample.crates b = .ok r ∧
    @Record.fromBytes Sample.crates r.toBytes = .error (.tooLarge MAX_RECORD_BYTES) := by
  have hn : 7973 < 2 ^ 64 := by decide
  have ha := Sample.length_wideAddrs 7973 hn
  have hs : (Sample.wideRecord 7973 hn).size = MAX_RECORD_BYTES + 1 :=
    Sample.size_wideRecord 7973 hn
  have hl := Record.length_openBytes (Sample.wideRecord 7973 hn) (by omega) (by omega)
  rw [hs] at hl
  exact ⟨Sample.readsCbor, _, _, rfl, Nat.succ.inj hl,
    @openBytes_not_reserialized Sample.crates Sample.readsCbor _ hs (by omega) (by omega)⟩

/-- Alice's record is read back, one of 7974 empty addresses is too large, and
her bodies of two times are signed as different bytes. -/
theorem format_lossless_alice :
    @Record.fromBytes Sample.crates (Sample.aliceRecord 1700000000).toBytes =
      .ok (Sample.aliceRecord 1700000000) ∧
    @Record.fromBytes Sample.crates (Sample.wideRecord 7974 (by decide)).toBytes =
      .error (.tooLarge MAX_RECORD_BYTES) ∧
    (Sample.aliceBody 1700000000).canonicalBytes ≠ (Sample.aliceBody 1700000600).canonicalBytes := by
  obtain ⟨hread, hinj⟩ := @format_lossless Sample.crates Sample.readsCbor
  refine ⟨(hread _).1 ?_, (hread _).2 ?_, fun h => ?_⟩
  · exact @length_le_of_fromBytes Sample.crates _ _ (Sample.fromBytes_alice 1700000000)
  · rw [Record.length_toBytes, Sample.size_wideRecord]
    decide
  · have ht := congrArg RecordBody.ts (hinj _ _ h)
    exact absurd ht (by decide)

/-- With 300 addresses there is room: the open form and the own form are the
same record. -/
theorem reserialize_iff_wide :
    @Record.fromBytes Sample.crates (Sample.wideRecord 300 (by decide)).openBytes =
      .ok (Sample.wideRecord 300 (by decide)) ∧
    @Record.fromBytes Sample.crates (Sample.wideRecord 300 (by decide)).toBytes =
      .ok (Sample.wideRecord 300 (by decide)) := by
  have hn : 300 < 2 ^ 64 := by decide
  have ha := Sample.length_wideAddrs 300 hn
  have hs : (Sample.wideRecord 300 hn).size = 520 := Sample.size_wideRecord 300 hn
  have hl := Record.length_openBytes (Sample.wideRecord 300 hn) (by omega) (by omega)
  rw [hs] at hl
  have hb : @Record.fromBytes Sample.crates (Sample.wideRecord 300 hn).openBytes =
      .ok (Sample.wideRecord 300 hn) := by
    apply @fromBytes_openBytes Sample.crates Sample.readsCbor
    show _ ≤ 8192
    omega
  refine ⟨hb, (@reserialize_iff Sample.crates Sample.readsCbor _ _ hb).mpr ?_⟩
  rw [hs]
  decide

end McTunnel
