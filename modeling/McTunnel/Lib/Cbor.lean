import Mathlib

/-!
# CBOR (RFC 8949) on the wire

`Wire` is a CBOR data item together with how it is written: the width of every
head, definite or indefinite length, chunks, tags.  `Wire.encode` writes it,
`decode` reads one item off the front of a byte string and leaves the rest.

    WellFormed w → decode (encode w ++ rest) = some (w, rest)        (decode_encode)

so an item's bytes determine the item and where it ends (`encode_inj`).
-/

namespace Cbor

/-! ## Heads -/

/-- Where the argument of a head is: in the initial byte, or in the next 1, 2, 4, 8 bytes. -/
inductive Width
  | imm | one | two | four | eight
deriving DecidableEq, Repr

namespace Width

/-- Bytes after the initial byte. -/
def size : Width → Nat
  | imm => 0
  | one => 1
  | two => 2
  | four => 4
  | eight => 8

/-- The low five bits of the initial byte. -/
def info : Width → Nat → Nat
  | imm, n => n
  | one, _ => 24
  | two, _ => 25
  | four, _ => 26
  | eight, _ => 27

/-- `n` can be written at this width. -/
def Fits : Width → Nat → Prop
  | imm, n => n < 24
  | w, n => n < 256 ^ w.size

instance (w : Width) (n : Nat) : Decidable (w.Fits n) := by
  cases w <;> (unfold Fits; infer_instance)

/-- The narrowest width for `n`. -/
def least (n : Nat) : Width :=
  if n < 24 then imm
  else if n < 256 then one
  else if n < 65536 then two
  else if n < 4294967296 then four
  else eight

theorem least_fits (n : Nat) (h : n < 2 ^ 64) : (least n).Fits n := by
  unfold least
  split
  · assumption
  · split
    · simpa [Fits, size] using by assumption
    · split
      · simpa [Fits, size] using by assumption
      · split
        · simpa [Fits, size] using by assumption
        · simpa [Fits, size] using h

theorem info_lt (w : Width) (n : Nat) (h : w.Fits n) : w.info n < 28 := by
  cases w <;> simp only [info, Fits] at * <;> omega

end Width

/-- `n` in `k` bytes, most significant first. -/
def be : Nat → Nat → List UInt8
  | 0, _ => []
  | k + 1, n => UInt8.ofNat (n / 256 ^ k) :: be k n

theorem length_be (k n : Nat) : (be k n).length = k := by
  induction k with
  | zero => rfl
  | succ k ih => simp [be, ih]

/-- `k` bytes off the front, as a number. -/
def readBe : Nat → Nat → List UInt8 → Option (Nat × List UInt8)
  | 0, acc, bs => some (acc, bs)
  | _ + 1, _, [] => none
  | k + 1, acc, b :: bs => readBe k (acc * 256 + b.toNat) bs

theorem readBe_be (k : Nat) : ∀ (acc n : Nat) (rest : List UInt8),
    readBe k acc (be k n ++ rest) = some (acc * 256 ^ k + n % 256 ^ k, rest) := by
  induction k with
  | zero => intro acc n rest; simp [be, readBe, Nat.mod_one]
  | succ k ih =>
    intro acc n rest
    simp only [be, List.cons_append, readBe, ih]
    have hd : (UInt8.ofNat (n / 256 ^ k)).toNat = n / 256 ^ k % 256 := by simp
    have hm : n % 256 ^ (k + 1) = n % 256 ^ k + 256 ^ k * (n / 256 ^ k % 256) := Nat.mod_pow_succ
    rw [hd, hm, Nat.pow_succ]
    congr 2
    ring

/-- A head: major type, argument and its width. -/
def head (major : Nat) (w : Width) (n : Nat) : List UInt8 :=
  UInt8.ofNat (major * 32 + w.info n) :: be w.size n

theorem length_head (major : Nat) (w : Width) (n : Nat) : (head major w n).length = 1 + w.size := by
  simp [head, length_be, Nat.add_comm]

/-- The width the low five bits announce. -/
def widthOf (info : Nat) : Option Width :=
  if info < 24 then some .imm
  else if info = 24 then some .one
  else if info = 25 then some .two
  else if info = 26 then some .four
  else if info = 27 then some .eight
  else none

/-- The argument of a head whose low five bits are `info`. -/
def readArg (info : Nat) (bs : List UInt8) : Option (Width × Nat × List UInt8) :=
  match widthOf info with
  | none => none
  | some .imm => some (.imm, info, bs)
  | some w => (readBe w.size 0 bs).map fun p => (w, p.1, p.2)

theorem readArg_info (w : Width) (n : Nat) (rest : List UInt8) (h : w.Fits n) :
    readArg (w.info n) (be w.size n ++ rest) = some (w, n, rest) := by
  cases w with
  | imm =>
    have hi : widthOf n = some .imm := if_pos h
    simp only [readArg, Width.info, hi]
    rfl
  | _ =>
    simp only [Width.Fits] at h
    simp [readArg, Width.info, widthOf, readBe_be, Nat.mod_eq_of_lt h]

/-- A head read back: the major type, then width and argument, or nothing for
an indefinite length (for major type 7: the break byte). -/
def readHead : List UInt8 → Option (Nat × Option (Width × Nat) × List UInt8)
  | [] => none
  | b :: bs =>
    if b.toNat % 32 = 31 then some (b.toNat / 32, none, bs)
    else (readArg (b.toNat % 32) bs).map fun p => (b.toNat / 32, some (p.1, p.2.1), p.2.2)

theorem toNat_initial (major info : Nat) (hm : major < 8) (hi : info < 32) :
    (UInt8.ofNat (major * 32 + info)).toNat = major * 32 + info := by
  rw [UInt8.toNat_ofNat']
  omega

theorem readHead_head (major : Nat) (w : Width) (n : Nat) (rest : List UInt8) (hm : major < 8)
    (h : w.Fits n) : readHead (head major w n ++ rest) = some (major, some (w, n), rest) := by
  have hi := w.info_lt n h
  have hb := toNat_initial major (w.info n) hm (by omega)
  have hmod : (major * 32 + w.info n) % 32 = w.info n := by omega
  have hdiv : (major * 32 + w.info n) / 32 = major := by omega
  simp only [head, List.cons_append, readHead, hb, hmod, hdiv]
  rw [if_neg (by omega), readArg_info w n rest h]
  rfl

/-- The initial byte of an indefinite length. -/
def openByte (major : Nat) : UInt8 := UInt8.ofNat (major * 32 + 31)

theorem readHead_openByte (major : Nat) (rest : List UInt8) (hm : major < 8) :
    readHead (openByte major :: rest) = some (major, none, rest) := by
  have hb := toNat_initial major 31 hm (by omega)
  have hmod : (major * 32 + 31) % 32 = 31 := by omega
  have hdiv : (major * 32 + 31) / 32 = major := by omega
  simp only [openByte, readHead, hb, hmod, hdiv, if_true]

/-- The break byte is no initial byte of a definite head. -/
theorem head_ne_break (major : Nat) (w : Width) (n : Nat) (hm : major < 8) (h : w.Fits n) :
    UInt8.ofNat (major * 32 + w.info n) ≠ 0xff := by
  intro he
  have hi := w.info_lt n h
  have hb := toNat_initial major (w.info n) hm (by omega)
  rw [he] at hb
  have : (0xff : UInt8).toNat = 255 := rfl
  omega

theorem openByte_ne_break (major : Nat) (hm : major < 7) : openByte major ≠ 0xff := by
  intro he
  have hb := toNat_initial major 31 (by omega) (by omega)
  rw [← openByte, he] at hb
  have : (0xff : UInt8).toNat = 255 := rfl
  omega

/-! ## Items -/

/-- Items that are a head and nothing else. -/
inductive Atom
  /-- the number `n` -/
  | uint
  /-- the number `-1 - n` -/
  | nint
  /-- false, true, null, undefined and floats -/
  | other
deriving DecidableEq, Repr

inductive Str
  | bytes | text
deriving DecidableEq, Repr

inductive Seq
  | array | map
deriving DecidableEq, Repr

def Atom.major : Atom → Nat
  | uint => 0
  | nint => 1
  | other => 7

def Str.major : Str → Nat
  | bytes => 2
  | text => 3

def Seq.major : Seq → Nat
  | array => 4
  | map => 5

/-- How many items a definite head with argument `n` announces. -/
def Seq.items : Seq → Nat → Nat
  | array, n => n
  | map, n => 2 * n

/-- A data item as written.  A map lists keys and values in turn; a `seq` with
no width has indefinite length. -/
inductive Wire
  | atom (kind : Atom) (w : Width) (n : Nat)
  | str (kind : Str) (w : Width) (b : List UInt8)
  | chunks (kind : Str) (cs : List (Width × List UInt8))
  | seq (kind : Seq) (w : Option Width) (items : List Wire)
  | tag (w : Width) (n : Nat) (item : Wire)

/-- The argument of the head of a definite sequence of `len` items. -/
def Seq.count : Seq → Nat → Nat
  | array, len => len
  | map, len => len / 2

def encodeChunk (kind : Str) (c : Width × List UInt8) : List UInt8 :=
  head kind.major c.1 c.2.length ++ c.2

mutual
def Wire.encode : Wire → List UInt8
  | .atom kind w n => head kind.major w n
  | .str kind w b => encodeChunk kind (w, b)
  | .chunks kind cs => openByte kind.major :: cs.flatMap (encodeChunk kind) ++ [0xff]
  | .seq kind (some w) items => head kind.major w (kind.count items.length) ++ encodeAll items
  | .seq kind none items => openByte kind.major :: encodeAll items ++ [0xff]
  | .tag w n item => head 6 w n ++ item.encode

def encodeAll : List Wire → List UInt8
  | [] => []
  | item :: items => item.encode ++ encodeAll items
end

mutual
/-- Every argument fits its width, a map has as many values as keys, and a
one-byte `other` is one of false, true, null, undefined. -/
def Wire.WellFormed : Wire → Prop
  | .atom .other w n => w.Fits n ∧ w ≠ .one ∧ (w = .imm → 20 ≤ n)
  | .atom _ w n => w.Fits n
  | .str _ w b => w.Fits b.length
  | .chunks _ cs => ∀ c ∈ cs, c.1.Fits c.2.length
  | .seq kind w items =>
    (∀ v ∈ w, v.Fits (kind.count items.length)) ∧ kind.items (kind.count items.length) = items.length ∧
      AllWellFormed items
  | .tag w n item => w.Fits n ∧ item.WellFormed

def AllWellFormed : List Wire → Prop
  | [] => True
  | item :: items => item.WellFormed ∧ AllWellFormed items
end

/-! ## Decoder -/

/-- The first `n` bytes and the rest. -/
def takeExact (n : Nat) (bs : List UInt8) : Option (List UInt8 × List UInt8) :=
  if n ≤ bs.length then some (bs.take n, bs.drop n) else none

theorem takeExact_append (b rest : List UInt8) : takeExact b.length (b ++ rest) = some (b, rest) := by
  simp [takeExact]

/-- Chunks up to the break byte. -/
def readChunks (kind : Str) : Nat → List UInt8 → Option (List (Width × List UInt8) × List UInt8)
  | 0, _ => none
  | fuel + 1, bs =>
    match readHead bs with
    | some (7, none, bs) => some ([], bs)
    | some (major, some (w, n), bs) =>
      if major = kind.major then do
        let (c, bs) ← takeExact n bs
        let (cs, bs) ← readChunks kind fuel bs
        some ((w, c) :: cs, bs)
      else none
    | _ => none

mutual
/-- One item off the front; `fuel` bounds the recursion. -/
def read : Nat → List UInt8 → Option (Wire × List UInt8)
  | 0, _ => none
  | fuel + 1, bs =>
    match readHead bs with
    | some (0, some (w, n), bs) => some (.atom .uint w n, bs)
    | some (1, some (w, n), bs) => some (.atom .nint w n, bs)
    | some (2, some (w, n), bs) => (takeExact n bs).map fun p => (.str .bytes w p.1, p.2)
    | some (2, none, bs) => (readChunks .bytes fuel bs).map fun p => (.chunks .bytes p.1, p.2)
    | some (3, some (w, n), bs) => (takeExact n bs).map fun p => (.str .text w p.1, p.2)
    | some (3, none, bs) => (readChunks .text fuel bs).map fun p => (.chunks .text p.1, p.2)
    | some (4, some (w, n), bs) => (readMany fuel n bs).map fun p => (.seq .array (some w) p.1, p.2)
    | some (4, none, bs) => (readBreak fuel bs).map fun p => (.seq .array none p.1, p.2)
    | some (5, some (w, n), bs) =>
      (readMany fuel (2 * n) bs).map fun p => (.seq .map (some w) p.1, p.2)
    | some (5, none, bs) => (readBreak fuel bs).bind fun p =>
      if p.1.length % 2 = 0 then some (.seq .map none p.1, p.2) else none
    | some (6, some (w, n), bs) => (read fuel bs).map fun p => (.tag w n p.1, p.2)
    | some (7, some (w, n), bs) =>
      if w ≠ .one ∧ (w = .imm → 20 ≤ n) then some (.atom .other w n, bs) else none
    | _ => none

/-- `count` items. -/
def readMany : Nat → Nat → List UInt8 → Option (List Wire × List UInt8)
  | _, 0, bs => some ([], bs)
  | 0, _ + 1, _ => none
  | fuel + 1, count + 1, bs => do
    let (item, bs) ← read fuel bs
    let (items, bs) ← readMany fuel count bs
    some (item :: items, bs)

/-- Items up to the break byte. -/
def readBreak : Nat → List UInt8 → Option (List Wire × List UInt8)
  | 0, _ => none
  | _ + 1, [] => none
  | fuel + 1, b :: bs =>
    if b = 0xff then some ([], bs)
    else do
      let (item, bs) ← read fuel (b :: bs)
      let (items, bs) ← readBreak fuel bs
      some (item :: items, bs)
end

/-- One item off the front of a byte string. -/
def decode (bs : List UInt8) : Option (Wire × List UInt8) := read (3 * bs.length) bs

/-! ## What was written is read back -/

theorem encode_cons (item : Wire) (h : item.WellFormed) :
    ∃ b bs, item.encode = b :: bs ∧ b ≠ 0xff := by
  cases item with
  | atom kind w n =>
    have hf : w.Fits n := by cases kind <;> first | exact h | exact h.1
    exact ⟨_, _, rfl, head_ne_break _ w n (by cases kind <;> decide) hf⟩
  | str kind w b => exact ⟨_, _, rfl, head_ne_break _ w _ (by cases kind <;> decide) h⟩
  | chunks kind cs => exact ⟨_, _, rfl, openByte_ne_break _ (by cases kind <;> decide)⟩
  | seq kind w items =>
    cases w with
    | some w => exact ⟨_, _, rfl, head_ne_break _ w _ (by cases kind <;> decide) (h.1 w rfl)⟩
    | none => exact ⟨_, _, rfl, openByte_ne_break _ (by cases kind <;> decide)⟩
  | tag w n item => exact ⟨_, _, rfl, head_ne_break 6 w n (by decide) h.1⟩

theorem readChunks_encode (kind : Str) : ∀ (cs : List (Width × List UInt8)) (fuel : Nat)
    (rest : List UInt8), (∀ c ∈ cs, c.1.Fits c.2.length) → cs.length < fuel →
    readChunks kind fuel (cs.flatMap (encodeChunk kind) ++ 0xff :: rest) = some (cs, rest) := by
  intro cs
  induction cs with
  | nil =>
    intro fuel rest _ hf
    obtain ⟨fuel, rfl⟩ : ∃ f, fuel = f + 1 := ⟨fuel - 1, by simp at hf; omega⟩
    have hb : readHead (0xff :: rest) = some (7, none, rest) := rfl
    simp only [List.flatMap_nil, List.nil_append, readChunks, hb]
  | cons c cs ih =>
    intro fuel rest h hf
    obtain ⟨fuel, rfl⟩ : ∃ f, fuel = f + 1 := ⟨fuel - 1, by simp at hf; omega⟩
    have hm : kind.major < 7 := by cases kind <;> decide
    have hh := fun r => readHead_head kind.major c.1 c.2.length r (by omega)
      (h c List.mem_cons_self)
    have ih := ih fuel rest (fun c' hc => h c' (List.mem_cons_of_mem c hc)) (by simp at hf; omega)
    simp only [List.flatMap_cons, encodeChunk, List.append_assoc, readChunks, hh]
    simp only [if_true, takeExact_append, Option.bind_eq_bind, Option.bind_some]
    rw [ih]
    rfl

theorem length_encode_pos (item : Wire) (h : item.WellFormed) : 0 < item.encode.length := by
  obtain ⟨b, bs, he, -⟩ := encode_cons item h
  rw [he]
  exact Nat.succ_pos _

theorem length_le_flatMap_encodeChunk (kind : Str) (cs : List (Width × List UInt8)) :
    cs.length ≤ (cs.flatMap (encodeChunk kind)).length := by
  induction cs with
  | nil => simp
  | cons c cs ih =>
    simp only [List.flatMap_cons, List.length_append, List.length_cons, encodeChunk, length_head]
    omega

mutual
theorem read_encode : ∀ (item : Wire) (fuel : Nat) (rest : List UInt8), item.WellFormed →
    3 * item.encode.length ≤ fuel + 1 → read fuel (item.encode ++ rest) = some (item, rest)
  | item, 0, rest, h, hf => by
    have := length_encode_pos item h
    omega
  | .atom kind w n, fuel + 1, rest, h, hf => by
    cases kind with
    | uint => simp only [Wire.encode, Atom.major, read, readHead_head 0 w n rest (by decide) h]
    | nint => simp only [Wire.encode, Atom.major, read, readHead_head 1 w n rest (by decide) h]
    | other =>
      simp only [Wire.encode, Atom.major, read, readHead_head 7 w n rest (by decide) h.1]
      rw [if_pos h.2]
  | .str kind w b, fuel + 1, rest, h, hf => by
    cases kind <;>
    · simp only [Wire.encode, encodeChunk, Str.major, List.append_assoc, read]
      rw [readHead_head _ w _ _ (by decide) h]
      simp only [takeExact_append, Option.map_some]
  | .chunks kind cs, fuel + 1, rest, h, hf => by
    have hl := length_le_flatMap_encodeChunk kind cs
    simp only [Wire.encode, List.length_append, List.length_cons] at hf
    have hc := readChunks_encode kind cs fuel rest h (by omega)
    cases kind <;>
    · simp only [Wire.encode, Str.major, List.cons_append, List.append_assoc, List.nil_append, read]
      rw [readHead_openByte _ _ (by decide)]
      simp only [hc, Option.map_some]
  | .seq kind (some w) items, fuel + 1, rest, h, hf => by
    obtain ⟨hw, hn, hall⟩ := h
    simp only [Wire.encode, List.length_append, length_head] at hf
    have hm := readMany_encode items fuel rest hall (by omega)
    rw [← hn] at hm
    have hh := readHead_head kind.major w (kind.count items.length) (encodeAll items ++ rest)
      (by cases kind <;> decide) (hw w rfl)
    simp only [Wire.encode, List.append_assoc, read, hh]
    cases kind <;> simp only [Seq.major, Seq.items] at hm ⊢ <;> simp only [hm, Option.map_some]
  | .seq kind none items, fuel + 1, rest, h, hf => by
    obtain ⟨-, hn, hall⟩ := h
    simp only [Wire.encode, List.length_append, List.length_cons] at hf
    have hb := readBreak_encode items fuel rest hall (by omega)
    have hh := readHead_openByte kind.major (encodeAll items ++ 0xff :: rest)
      (by cases kind <;> decide)
    simp only [Wire.encode, List.cons_append, List.append_assoc, List.nil_append, read, hh]
    cases kind with
    | array => simp only [Seq.major, hb, Option.map_some]
    | map =>
      have he : items.length % 2 = 0 := by simp only [Seq.items] at hn; omega
      simp only [Seq.major, hb, Option.bind_some, he, if_true]
  | .tag w n item, fuel + 1, rest, h, hf => by
    simp only [Wire.encode, List.length_append, length_head] at hf
    simp only [Wire.encode, List.append_assoc, read, readHead_head 6 w n _ (by decide) h.1]
    rw [read_encode item fuel rest h.2 (by omega)]
    rfl

theorem readMany_encode : ∀ (items : List Wire) (fuel : Nat) (rest : List UInt8),
    AllWellFormed items → 3 * (encodeAll items).length ≤ fuel →
    readMany fuel items.length (encodeAll items ++ rest) = some (items, rest)
  | [], fuel, rest, _, _ => by simp [encodeAll, readMany]
  | item :: items, 0, rest, h, hf => by
    have := length_encode_pos item h.1
    simp only [encodeAll, List.length_append] at hf
    omega
  | item :: items, fuel + 1, rest, h, hf => by
    have := length_encode_pos item h.1
    simp only [encodeAll, List.length_append] at hf
    simp only [encodeAll, List.length_cons, List.append_assoc, readMany]
    rw [read_encode item fuel _ h.1 (by omega)]
    simp only [Option.bind_eq_bind, Option.bind_some]
    rw [readMany_encode items fuel rest h.2 (by omega)]
    rfl

theorem readBreak_encode : ∀ (items : List Wire) (fuel : Nat) (rest : List UInt8),
    AllWellFormed items → 3 * (encodeAll items).length + 1 ≤ fuel →
    readBreak fuel (encodeAll items ++ 0xff :: rest) = some (items, rest)
  | _, 0, _, _, hf => by omega
  | [], fuel + 1, rest, _, _ => by simp [encodeAll, readBreak]
  | item :: items, fuel + 1, rest, h, hf => by
    have hp := length_encode_pos item h.1
    obtain ⟨b, bs, he, hb⟩ := encode_cons item h.1
    simp only [encodeAll, List.length_append] at hf
    have hr := read_encode item fuel (encodeAll items ++ 0xff :: rest) h.1 (by omega)
    simp only [encodeAll, List.append_assoc]
    rw [he, List.cons_append] at hr ⊢
    simp only [readBreak, if_neg hb, hr, Option.bind_eq_bind, Option.bind_some]
    rw [readBreak_encode items fuel rest h.2 (by omega)]
    rfl
end

/-- **A written item is read back**, whatever follows it. -/
theorem decode_encode (item : Wire) (rest : List UInt8) (h : item.WellFormed) :
    decode (item.encode ++ rest) = some (item, rest) := by
  apply read_encode item _ rest h
  simp only [List.length_append]
  omega

/-- The bytes of an item determine it. -/
theorem encode_inj (a b : Wire) (ha : a.WellFormed) (hb : b.WellFormed) (h : a.encode = b.encode) :
    a = b := by
  have h1 := decode_encode a [] ha
  have h2 := decode_encode b [] hb
  rw [h] at h1
  simpa using h1.symm.trans h2

end Cbor
