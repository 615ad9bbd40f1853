import McTunnel.Lib.Cbor
import McTunnel.Lib.Text

/-!
# Rust structs as CBOR

`serde` writes a struct as a map from field names to values, every head at its
narrowest.  Reading is wider: any well-formed map with each field once, in any
order, heads at any width, lengths definite or not, tags on values, and fields
the struct does not have.

    the names differ → asStruct names (struct fs) = some (values of fs)  (asStruct_struct)
-/

namespace Cbor

open Text

/-! ## Writer -/

def uint (n : Nat) : Wire := .atom .uint (.least n) n

def text (s : String) : Wire := .str .text (.least s.utf8ByteSize) (Text.asBytes s)

def bytes (b : List UInt8) : Wire := .str .bytes (.least b.length) b

def array (items : List Wire) : Wire := .seq .array (some (.least items.length)) items

/-- Names and values in turn. -/
def entries (fs : List (String × Wire)) : List Wire := fs.flatMap fun f => [text f.1, f.2]

def struct (fs : List (String × Wire)) : Wire := .seq .map (some (.least fs.length)) (entries fs)

/-! ## Reader -/

/-- The item under its tags.  The tags of big numbers (2 and 3) stay: what is
under them is read differently. -/
def untag : Wire → Wire
  | .tag w n item => if n = 2 ∨ n = 3 then .tag w n item else untag item
  | item => item

def asUint : Wire → Option Nat
  | .atom .uint _ n => some n
  | _ => none

/-- UTF-8. -/
def asUtf8 (b : List UInt8) : Option String := String.fromUTF8? ⟨b.toArray⟩

def asText : Wire → Option String
  | .str .text _ b => asUtf8 b
  | .chunks .text cs => (cs.mapM fun c => asUtf8 c.2).map String.join
  | _ => none

def asBytes : Wire → Option (List UInt8)
  | .str .bytes _ b => some b
  | _ => none

def asArray : Wire → Option (List Wire)
  | .seq .array _ items => some items
  | _ => none

mutual
/-- A value that can be skipped over, nested at most `depth` deep. -/
def skippable (depth : Nat) : Wire → Bool
  | .atom _ w _ => w ≠ .one
  | .str .bytes _ _ => true
  | .str .text _ b => (asUtf8 b).isSome
  | .chunks .bytes _ => true
  | .chunks .text cs => cs.all fun c => (asUtf8 c.2).isSome
  | .seq _ _ items =>
    match depth with
    | 0 => false
    | depth + 1 => allSkippable depth items
  | .tag _ _ _ => false

def allSkippable (depth : Nat) : List Wire → Bool
  | [] => true
  | item :: items => skippable depth item && allSkippable depth items
end

/-- Longest field name that is read. -/
def maxName : Nat := 4096

/-- How deep a skipped value may be. -/
def maxDepth : Nat := 128

/-- The entries of a map whose keys are names. -/
def asEntries : List Wire → Option (List (String × Wire))
  | [] => some []
  | .str .text _ k :: value :: items => do
    let name ← asUtf8 k
    let fs ← asEntries items
    if k.length ≤ maxName then some ((name, value) :: fs) else none
  | _ => none

/-- The value of a field, which is there once. -/
def field (fs : List (String × Wire)) (name : String) : Option Wire :=
  match fs.filter fun f => f.1 == name with
  | [(_, value)] => some (untag value)
  | _ => none

/-- The values of the named fields of a struct. -/
def asStruct (names : List String) (item : Wire) : Option (List Wire) :=
  match untag item with
  | .seq .map _ items => do
    let fs ← asEntries items
    if fs.all fun f => names.contains f.1 || skippable maxDepth f.2 then names.mapM (field fs)
    else none
  | _ => none

/-! ## What is written is well-formed -/

theorem allWellFormed_iff (items : List Wire) :
    AllWellFormed items ↔ ∀ item ∈ items, item.WellFormed := by
  induction items with
  | nil => simp [AllWellFormed]
  | cons item items ih => simp [AllWellFormed, ih]

theorem uint_wellFormed (n : Nat) (h : n < 2 ^ 64) : (uint n).WellFormed :=
  Width.least_fits n h

theorem text_wellFormed (s : String) (h : s.utf8ByteSize < 2 ^ 64) : (text s).WellFormed := by
  show (Width.least s.utf8ByteSize).Fits (Text.asBytes s).length
  rw [length_asBytes]
  exact Width.least_fits _ h

theorem bytes_wellFormed (b : List UInt8) (h : b.length < 2 ^ 64) : (bytes b).WellFormed :=
  Width.least_fits _ h

theorem array_wellFormed (items : List Wire) (h : items.length < 2 ^ 64)
    (hi : ∀ item ∈ items, item.WellFormed) : (array items).WellFormed := by
  refine ⟨?_, rfl, (allWellFormed_iff items).mpr hi⟩
  rintro v ⟨⟩
  exact Width.least_fits _ h

theorem length_entries (fs : List (String × Wire)) : (entries fs).length = 2 * fs.length := by
  induction fs with
  | nil => rfl
  | cons f fs ih =>
    simp only [entries, List.flatMap_cons, List.length_append, List.length_cons,
      List.length_nil] at ih ⊢
    omega

theorem struct_wellFormed (fs : List (String × Wire)) (h : fs.length < 2 ^ 64)
    (hn : ∀ f ∈ fs, f.1.utf8ByteSize < 2 ^ 64) (hv : ∀ f ∈ fs, f.2.WellFormed) :
    (struct fs).WellFormed := by
  have hc : Seq.map.count (entries fs).length = fs.length := by
    rw [length_entries]
    show 2 * fs.length / 2 = fs.length
    omega
  refine ⟨?_, ?_, (allWellFormed_iff _).mpr ?_⟩
  · rintro v ⟨⟩
    rw [hc]
    exact Width.least_fits _ h
  · rw [hc, length_entries]
    rfl
  · intro item hi
    obtain ⟨f, hf, hi⟩ := List.mem_flatMap.mp hi
    rcases List.mem_cons.mp hi with rfl | hi
    · exact text_wellFormed _ (hn f hf)
    · rw [List.mem_singleton.mp hi]
      exact hv f hf

/-! ## What is written is read back -/

theorem asUtf8_asBytes (s : String) : asUtf8 (Text.asBytes s) = some s := Text.fromUtf8_asBytes s

@[simp] theorem asUint_uint (n : Nat) : asUint (uint n) = some n := rfl

@[simp] theorem asText_text (s : String) : asText (text s) = some s := asUtf8_asBytes s

@[simp] theorem asBytes_bytes (b : List UInt8) : asBytes (bytes b) = some b := rfl

@[simp] theorem asArray_array (items : List Wire) : asArray (array items) = some items := rfl

theorem asEntries_entries (fs : List (String × Wire)) (h : ∀ f ∈ fs, f.1.utf8ByteSize ≤ maxName) :
    asEntries (entries fs) = some fs := by
  induction fs with
  | nil => rfl
  | cons f fs ih =>
    have ih := ih fun g hg => h g (List.mem_cons_of_mem f hg)
    show asEntries (text f.1 :: f.2 :: entries fs) = _
    simp only [text, asEntries, asUtf8_asBytes, ih, length_asBytes, Option.bind_eq_bind,
      Option.bind_some]
    rw [if_pos (h f List.mem_cons_self)]

theorem filter_absent (fs : List (String × Wire)) (name : String) (h : name ∉ fs.map Prod.fst) :
    fs.filter (fun f => f.1 == name) = [] := by
  rw [List.filter_eq_nil_iff]
  intro f hf he
  exact h (List.mem_map.mpr ⟨f, hf, eq_of_beq he⟩)

theorem filter_present (fs : List (String × Wire)) (hn : (fs.map Prod.fst).Nodup)
    (f : String × Wire) (hf : f ∈ fs) : fs.filter (fun g => g.1 == f.1) = [f] := by
  induction fs with
  | nil => cases hf
  | cons g fs ih =>
    rw [List.map_cons, List.nodup_cons] at hn
    rcases List.mem_cons.mp hf with rfl | hf
    · rw [List.filter_cons_of_pos (by simp), filter_absent fs f.1 hn.1]
    · have hne : g.1 ≠ f.1 := by
        intro he
        exact hn.1 (List.mem_map.mpr ⟨f, hf, he.symm⟩)
      rw [List.filter_cons_of_neg (by simpa using hne)]
      exact ih hn.2 hf

theorem mapM_field (fs : List (String × Wire)) (hn : (fs.map Prod.fst).Nodup)
    (hu : ∀ f ∈ fs, untag f.2 = f.2) :
    (fs.map Prod.fst).mapM (field fs) = some (fs.map Prod.snd) := by
  have key : ∀ gs : List (String × Wire), (∀ g ∈ gs, g ∈ fs) →
      (gs.map Prod.fst).mapM (field fs) = some (gs.map Prod.snd) := by
    intro gs
    induction gs with
    | nil => intro _; rfl
    | cons g gs ih =>
      intro hg
      have hgf := hg g List.mem_cons_self
      have hf : field fs g.1 = some g.2 := by
        unfold field
        rw [filter_present fs hn g hgf]
        exact congrArg some (hu g hgf)
      rw [List.map_cons, List.mapM_cons, hf, ih fun g' h => hg g' (List.mem_cons_of_mem g h)]
      rfl
  exact key fs fun _ h => h

/-- **A written struct is read back**, field by field. -/
theorem asStruct_struct (fs : List (String × Wire)) (hn : (fs.map Prod.fst).Nodup)
    (hs : ∀ f ∈ fs, f.1.utf8ByteSize ≤ maxName) (hu : ∀ f ∈ fs, untag f.2 = f.2) :
    asStruct (fs.map Prod.fst) (struct fs) = some (fs.map Prod.snd) := by
  have hall : (fs.all fun f => (fs.map Prod.fst).contains f.1 || skippable maxDepth f.2) = true := by
    rw [List.all_eq_true]
    intro f hf
    rw [Bool.or_eq_true]
    left
    rw [List.contains_iff_mem]
    exact List.mem_map_of_mem hf
  show (asEntries (entries fs)).bind _ = _
  rw [asEntries_entries fs hs, Option.bind_some, if_pos hall]
  exact mapM_field fs hn hu

/-! ## Sizes -/

/-- Bytes of the narrowest head with argument `n`. -/
def headSize (n : Nat) : Nat :=
  if n < 24 then 1 else if n < 256 then 2 else if n < 65536 then 3 else if n < 4294967296 then 5 else 9

theorem headSize_small (n : Nat) (h : n < 24) : headSize n = 1 := if_pos h

theorem headSize_byte (n : Nat) (h1 : 24 ≤ n) (h2 : n < 256) : headSize n = 2 := by
  unfold headSize
  rw [if_neg (by omega), if_pos h2]

theorem headSize_le (n : Nat) : headSize n ≤ 9 := by
  unfold headSize
  repeat' split
  all_goals omega

theorem size_least (n : Nat) : 1 + (Width.least n).size = headSize n := by
  unfold headSize Width.least
  repeat' split
  all_goals rfl

theorem length_uint (n : Nat) : (uint n).encode.length = headSize n := by
  rw [uint, Wire.encode, length_head, size_least]

theorem length_text (s : String) :
    (text s).encode.length = headSize s.utf8ByteSize + s.utf8ByteSize := by
  rw [text, Wire.encode, encodeChunk, List.length_append, length_head, size_least, length_asBytes]

theorem length_bytes (b : List UInt8) : (bytes b).encode.length = headSize b.length + b.length := by
  rw [bytes, Wire.encode, encodeChunk, List.length_append, length_head, size_least]

theorem length_encodeAll (items : List Wire) :
    (encodeAll items).length = (items.map fun item => item.encode.length).sum := by
  induction items with
  | nil => rfl
  | cons item items ih => rw [encodeAll, List.length_append, ih, List.map_cons, List.sum_cons]

theorem length_array (items : List Wire) : (array items).encode.length =
    headSize items.length + (items.map fun item => item.encode.length).sum := by
  rw [array, Wire.encode, List.length_append, length_head, length_encodeAll]
  show 1 + (Width.least items.length).size + _ = _
  rw [size_least]

theorem length_struct (fs : List (String × Wire)) : (struct fs).encode.length =
    headSize fs.length +
      (fs.map fun f => headSize f.1.utf8ByteSize + f.1.utf8ByteSize + f.2.encode.length).sum := by
  have hs : ∀ fs : List (String × Wire), ((entries fs).map fun item => item.encode.length).sum =
      (fs.map fun f => headSize f.1.utf8ByteSize + f.1.utf8ByteSize + f.2.encode.length).sum := by
    intro fs
    induction fs with
    | nil => rfl
    | cons f fs ih =>
      show ((text f.1 :: f.2 :: entries fs).map _).sum = _
      simp only [List.map_cons, List.sum_cons, ih, length_text]
      omega
  rw [struct, Wire.encode, List.length_append, length_head, size_least, length_encodeAll, hs]

end Cbor
