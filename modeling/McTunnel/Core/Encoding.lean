import McTunnel.Core.Types
import McTunnel.Lib.Serde

/-!
# Records as bytes (`record.rs`)

`canonicalBytes` are the bytes that are signed, `toBytes` what is stored in the
DHT, `fromBytes` the parser of untrusted bytes.  `ciborium` writes the shortest
form and reads RFC 8949; `Record.ofWire` says which record an item is read as.

    a.canonicalBytes = b.canonicalBytes → a = b                      (canonicalBytes_inj)
    ReadsCbor → size r ≤ MAX_RECORD_BYTES → fromBytes r.toBytes = ok r  (fromBytes_toBytes)
-/

namespace McTunnel

open Cbor (Wire)

/-! ## Code -/

namespace RecordBody

def names : List String := ["v", "pubkey", "peer_id", "addrs", "vanity", "ts", "ttl"]

/-- The fields in declaration order, `addrs` being the item of the addresses. -/
def fieldsWith (b : RecordBody) (addrs : Wire) : List (String × Wire) :=
  [("v", Cbor.uint b.v.toNat),
   ("pubkey", Cbor.bytes b.pubkey.toList),
   ("peer_id", Cbor.text b.peerId.val),
   ("addrs", addrs),
   ("vanity", Cbor.text b.vanity.val),
   ("ts", Cbor.uint b.ts.toNat),
   ("ttl", Cbor.uint b.ttl.toNat)]

/-- The addresses as text. -/
def addrItems (b : RecordBody) : List Wire := b.addrs.val.map fun a => Cbor.text a.val

def toWire (b : RecordBody) : Wire := Cbor.struct (b.fieldsWith (Cbor.array b.addrItems))

/-- The bytes that are signed; never the signature. -/
def canonicalBytes (b : RecordBody) : List UInt8 := b.toWire.encode

end RecordBody

namespace Record

def names : List String := ["body", "sig"]

def fieldsWith (r : Record) (body : Wire) : List (String × Wire) :=
  [("body", body), ("sig", Cbor.bytes r.sig.toList)]

def toWire (r : Record) : Wire := Cbor.struct (r.fieldsWith r.body.toWire)

/-- Serialized for the DHT. -/
def toBytes (r : Record) : List UInt8 := r.toWire.encode

/-- Parse untrusted bytes; the size cap comes first. -/
def fromBytes [Crates] (bytes : List UInt8) : Except VerifyError Record :=
  if MAX_RECORD_BYTES < bytes.length then .error (.tooLarge MAX_RECORD_BYTES)
  else
    match Crates.fromReader bytes with
    | .ok r => .ok r
    | .error e => .error (.malformed e)

end Record

/-! ## How a record is read

`serde`'s derived reader over `ciborium`.  `Record.ofWire` covers definite and
indefinite lengths, heads of any width, tags and extra fields; it says nothing
of byte fields written as arrays or of big-number integers. -/

/-- An unsigned integer of `bits` bits. -/
def uintOfWire (bits : Nat) (item : Wire) : Option Nat := do
  let n ← Cbor.asUint item
  if n < 2 ^ bits then some n else none

def vectorOfWire (n : Nat) (item : Wire) : Option (Vector UInt8 n) := do
  let b ← Cbor.asBytes item
  toVector n b

def strOfWire (item : Wire) : Option Str := do
  let s ← Cbor.asText item
  Str.of s

def strsOfWire (item : Wire) : Option (Vec Str) := do
  let items ← Cbor.asArray item
  let l ← items.mapM fun a => strOfWire (Cbor.untag a)
  Vec.of l

def RecordBody.ofWire (item : Wire) : Option RecordBody := do
  match ← Cbor.asStruct names item with
  | [v, pubkey, peerId, addrs, vanity, ts, ttl] =>
    let v ← uintOfWire 8 v
    let pubkey ← vectorOfWire 32 pubkey
    let peerId ← strOfWire peerId
    let addrs ← strsOfWire addrs
    let vanity ← strOfWire vanity
    let ts ← uintOfWire 64 ts
    let ttl ← uintOfWire 32 ttl
    some ⟨UInt8.ofNat v, pubkey, peerId, addrs, vanity, UInt64.ofNat ts, UInt32.ofNat ttl⟩
  | _ => none

def Record.ofWire (item : Wire) : Option Record := do
  match ← Cbor.asStruct names item with
  | [body, sig] =>
    let body ← RecordBody.ofWire body
    let sig ← vectorOfWire 64 sig
    some ⟨body, sig⟩
  | _ => none

/-- What is assumed of `ciborium::from_reader`: an encoded record is read, and
bytes after it are ignored. -/
def ReadsCbor [Crates] : Prop :=
  ∀ (item : Wire) (rest : List UInt8) (r : Record), item.WellFormed → Record.ofWire item = some r →
    Crates.fromReader (item.encode ++ rest) = .ok r

/-- A reader as RFC 8949 has it. -/
def rfcReader (bytes : List UInt8) : Except String Record :=
  match Cbor.decode bytes with
  | none => .error "Syntax"
  | some (item, _) =>
    match Record.ofWire item with
    | none => .error "Semantic"
    | some r => .ok r

theorem rfcReader_encode (item : Wire) (rest : List UInt8) (r : Record) (hw : item.WellFormed)
    (hr : Record.ofWire item = some r) : rfcReader (item.encode ++ rest) = .ok r := by
  simp only [rfcReader, Cbor.decode_encode item rest hw, hr]

/-! ## Round trip -/

theorem uintOfWire_uint (bits n : Nat) (h : n < 2 ^ bits) : uintOfWire bits (Cbor.uint n) = some n := by
  simp [uintOfWire, h]

theorem vectorOfWire_bytes {n : Nat} (v : Vector UInt8 n) :
    vectorOfWire n (Cbor.bytes v.toList) = some v := by
  simp [vectorOfWire]

theorem strOfWire_text (s : Str) : strOfWire (Cbor.text s.val) = some s := by
  simp [strOfWire]

/-- The addresses are read from an array of any width, or of indefinite length. -/
theorem strsOfWire_seq (w : Option Cbor.Width) (b : RecordBody) :
    strsOfWire (.seq .array w b.addrItems) = some b.addrs := by
  have hl : ∀ l : List Str, (l.map fun a => Cbor.text a.val).mapM
      (fun a => strOfWire (Cbor.untag a)) = some l := by
    intro l
    induction l with
    | nil => rfl
    | cons s l ih =>
      have hs : strOfWire (Cbor.untag (Cbor.text s.val)) = some s := strOfWire_text s
      rw [List.map_cons, List.mapM_cons, hs, ih]
      rfl
  simp only [strsOfWire, Cbor.asArray, RecordBody.addrItems, Option.bind_eq_bind, Option.bind_some,
    hl, Vec.of_val]

namespace RecordBody

theorem names_nodup : names.Nodup := by decide

theorem names_short : ∀ name ∈ names, name.utf8ByteSize ≤ 7 := by decide

theorem name_short (b : RecordBody) (addrs : Wire) :
    ∀ f ∈ b.fieldsWith addrs, f.1.utf8ByteSize ≤ 7 := by
  intro f hf
  exact names_short f.1 (List.mem_map_of_mem (f := Prod.fst) hf)

theorem ofWire_fieldsWith (b : RecordBody) (addrs : Wire) (hu : Cbor.untag addrs = addrs)
    (ha : strsOfWire addrs = some b.addrs) :
    RecordBody.ofWire (Cbor.struct (b.fieldsWith addrs)) = some b := by
  have hs : Cbor.asStruct names (Cbor.struct (b.fieldsWith addrs)) =
      some ((b.fieldsWith addrs).map Prod.snd) := by
    apply Cbor.asStruct_struct (b.fieldsWith addrs) names_nodup
    · intro f hf
      exact (b.name_short addrs f hf).trans (by decide)
    · simp [fieldsWith, Cbor.untag, Cbor.uint, Cbor.bytes, Cbor.text, hu]
  have hv := uintOfWire_uint 8 b.v.toNat b.v.toNat_lt
  have hts := uintOfWire_uint 64 b.ts.toNat b.ts.toNat_lt
  have httl := uintOfWire_uint 32 b.ttl.toNat b.ttl.toNat_lt
  unfold RecordBody.ofWire
  rw [hs]
  simp only [fieldsWith, List.map_cons, List.map_nil, Option.bind_eq_bind, Option.bind_some, hv,
    hts, httl, ha, vectorOfWire_bytes, strOfWire_text, UInt8.ofNat_toNat, UInt64.ofNat_toNat,
    UInt32.ofNat_toNat]

theorem ofWire_toWire (b : RecordBody) : RecordBody.ofWire b.toWire = some b :=
  b.ofWire_fieldsWith _ rfl (strsOfWire_seq _ b)

end RecordBody

namespace Record

theorem names_nodup : names.Nodup := by decide

theorem names_short : ∀ name ∈ names, name.utf8ByteSize ≤ 4 := by decide

theorem name_short (r : Record) (body : Wire) :
    ∀ f ∈ r.fieldsWith body, f.1.utf8ByteSize ≤ 4 := by
  intro f hf
  exact names_short f.1 (List.mem_map_of_mem (f := Prod.fst) hf)

theorem ofWire_fieldsWith (r : Record) (body : Wire) (hu : Cbor.untag body = body)
    (hb : RecordBody.ofWire body = some r.body) :
    Record.ofWire (Cbor.struct (r.fieldsWith body)) = some r := by
  have hs : Cbor.asStruct names (Cbor.struct (r.fieldsWith body)) =
      some ((r.fieldsWith body).map Prod.snd) := by
    apply Cbor.asStruct_struct (r.fieldsWith body) names_nodup
    · intro f hf
      exact (r.name_short body f hf).trans (by decide)
    · simp [fieldsWith, Cbor.untag, Cbor.bytes, hu]
  unfold Record.ofWire
  rw [hs]
  simp only [fieldsWith, List.map_cons, List.map_nil, Option.bind_eq_bind, Option.bind_some, hb,
    vectorOfWire_bytes]

theorem ofWire_toWire (r : Record) : Record.ofWire r.toWire = some r :=
  r.ofWire_fieldsWith _ rfl r.body.ofWire_toWire

end Record

/-! ## Well-formedness -/

theorem RecordBody.addrItems_wellFormed (b : RecordBody) :
    ∀ item ∈ b.addrItems, item.WellFormed := by
  intro item hi
  obtain ⟨a, -, rfl⟩ := List.mem_map.mp hi
  exact Cbor.text_wellFormed _ a.property

theorem RecordBody.length_addrItems (b : RecordBody) : b.addrItems.length = b.addrs.val.length :=
  List.length_map _

theorem RecordBody.fieldsWith_wellFormed (b : RecordBody) (addrs : Wire) (h : addrs.WellFormed) :
    (Cbor.struct (b.fieldsWith addrs)).WellFormed := by
  have hv := b.v.toNat_lt
  have hts := b.ts.toNat_lt
  have httl := b.ttl.toNat_lt
  apply Cbor.struct_wellFormed
  · show 7 < 2 ^ 64
    omega
  · intro f hf
    have := b.name_short addrs f hf
    omega
  · intro f hf
    simp only [fieldsWith, List.mem_cons, List.not_mem_nil, or_false] at hf
    rcases hf with rfl | rfl | rfl | rfl | rfl | rfl | rfl
    · exact Cbor.uint_wellFormed _ (by omega)
    · exact Cbor.bytes_wellFormed _ (by simp)
    · exact Cbor.text_wellFormed _ b.peerId.property
    · exact h
    · exact Cbor.text_wellFormed _ b.vanity.property
    · exact Cbor.uint_wellFormed _ (by omega)
    · exact Cbor.uint_wellFormed _ (by omega)

theorem RecordBody.toWire_wellFormed (b : RecordBody) : b.toWire.WellFormed := by
  apply b.fieldsWith_wellFormed
  apply Cbor.array_wellFormed _ _ b.addrItems_wellFormed
  rw [length_addrItems]
  exact b.addrs.property

theorem Record.fieldsWith_wellFormed (r : Record) (body : Wire) (h : body.WellFormed) :
    (Cbor.struct (r.fieldsWith body)).WellFormed := by
  apply Cbor.struct_wellFormed
  · show 2 < 2 ^ 64
    omega
  · intro f hf
    have := r.name_short body f hf
    omega
  · intro f hf
    simp only [fieldsWith, List.mem_cons, List.not_mem_nil, or_false] at hf
    rcases hf with rfl | rfl
    · exact h
    · exact Cbor.bytes_wellFormed _ (by simp)

theorem Record.toWire_wellFormed (r : Record) : r.toWire.WellFormed :=
  r.fieldsWith_wellFormed _ r.body.toWire_wellFormed

/-! ## Sizes -/

/-- Bytes of a text item. -/
def textSize (s : Str) : Nat := Cbor.headSize s.val.utf8ByteSize + s.val.utf8ByteSize

/-- Bytes of a body whose addresses take `addrs` bytes. -/
def RecordBody.sizeWith (b : RecordBody) (addrs : Nat) : Nat :=
  72 + Cbor.headSize b.v.toNat + textSize b.peerId + addrs + textSize b.vanity
    + Cbor.headSize b.ts.toNat + Cbor.headSize b.ttl.toNat

/-- Bytes of the addresses, without the array's head. -/
def RecordBody.addrsSize (b : RecordBody) : Nat := (b.addrs.val.map textSize).sum

/-- Bytes of a stored record: names, key and signature are 148 bytes with
their heads, the rest is what depends on the values. -/
def Record.size (r : Record) : Nat :=
  76 + r.body.sizeWith (Cbor.headSize r.body.addrs.val.length + r.body.addrsSize)

theorem RecordBody.sum_addrItems (b : RecordBody) :
    (b.addrItems.map fun item => item.encode.length).sum = b.addrsSize := by
  unfold addrItems addrsSize
  rw [List.map_map]
  congr 1
  apply List.map_congr_left
  intro a _
  exact Cbor.length_text a.val

theorem RecordBody.length_fieldsWith (b : RecordBody) (addrs : Wire) :
    (Cbor.struct (b.fieldsWith addrs)).encode.length = b.sizeWith addrs.encode.length := by
  have hnames : names.map String.utf8ByteSize = [1, 6, 7, 5, 6, 2, 3] := by decide
  simp only [names, List.map_cons, List.map_nil, List.cons.injEq, and_true] at hnames
  obtain ⟨h1, h2, h3, h4, h5, h6, h7⟩ := hnames
  rw [Cbor.length_struct]
  simp only [fieldsWith, List.map_cons, List.map_nil, List.sum_cons, List.sum_nil, List.length_cons,
    List.length_nil, Cbor.length_uint, Cbor.length_text, Cbor.length_bytes, Vector.length_toList,
    h1, h2, h3, h4, h5, h6, h7]
  simp (disch := omega) only [Cbor.headSize_small, Cbor.headSize_byte, sizeWith, textSize]
  omega

theorem Record.length_fieldsWith (r : Record) (body : Wire) :
    (Cbor.struct (r.fieldsWith body)).encode.length = 76 + body.encode.length := by
  have hnames : names.map String.utf8ByteSize = [4, 3] := by decide
  simp only [names, List.map_cons, List.map_nil, List.cons.injEq, and_true] at hnames
  obtain ⟨h1, h2⟩ := hnames
  rw [Cbor.length_struct]
  simp only [fieldsWith, List.map_cons, List.map_nil, List.sum_cons, List.sum_nil, List.length_cons,
    List.length_nil, Cbor.length_bytes, Vector.length_toList, h1, h2]
  simp (disch := omega) only [Cbor.headSize_small, Cbor.headSize_byte]
  omega

theorem Record.length_toBytes (r : Record) : r.toBytes.length = r.size := by
  unfold toBytes toWire RecordBody.toWire size
  rw [length_fieldsWith, RecordBody.length_fieldsWith, Cbor.length_array,
    RecordBody.length_addrItems, RecordBody.sum_addrItems]

/-! ## Top theorems -/

/-- **The signed bytes determine the body**, in every field. -/
theorem RecordBody.canonicalBytes_inj (a b : RecordBody) (h : a.canonicalBytes = b.canonicalBytes) :
    a = b := by
  have hw := Cbor.encode_inj _ _ a.toWire_wellFormed b.toWire_wellFormed h
  have ha := a.ofWire_toWire
  rw [hw, b.ofWire_toWire] at ha
  exact (Option.some.inj ha).symm

section
variable [Crates]

theorem fromBytes_of_ofWire (hc : ReadsCbor) (item : Wire) (rest : List UInt8) (r : Record)
    (hw : item.WellFormed) (hr : Record.ofWire item = some r)
    (hl : (item.encode ++ rest).length ≤ MAX_RECORD_BYTES) :
    Record.fromBytes (item.encode ++ rest) = .ok r := by
  unfold Record.fromBytes
  rw [if_neg (by omega), hc item rest r hw hr]

/-- A record that fits the cap is read back. -/
theorem fromBytes_toBytes (hc : ReadsCbor) (r : Record) (h : r.size ≤ MAX_RECORD_BYTES) :
    Record.fromBytes r.toBytes = .ok r := by
  have hr := fromBytes_of_ofWire hc r.toWire [] r r.toWire_wellFormed r.ofWire_toWire
  rw [List.append_nil] at hr
  apply hr
  rw [← Record.toBytes, Record.length_toBytes]
  exact h

theorem fromBytes_tooLarge (bytes : List UInt8) (h : MAX_RECORD_BYTES < bytes.length) :
    Record.fromBytes bytes = .error (.tooLarge MAX_RECORD_BYTES) := by
  unfold Record.fromBytes
  rw [if_pos h]

/-- What parses is within the cap. -/
theorem length_le_of_fromBytes (bytes : List UInt8) (r : Record) (h : Record.fromBytes bytes = .ok r) :
    bytes.length ≤ MAX_RECORD_BYTES := by
  by_contra hl
  rw [fromBytes_tooLarge bytes (by omega)] at h
  cases h

end

end McTunnel
