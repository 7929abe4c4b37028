import Columnar.Heap
import Columnar.LogicalType.Basic
import Columnar.Slots

/-!
# Chunks

What the engine hands out: vectors, each with its type, data buffer, bitmap and children, some of
which are the columns, and a heap with the bytes of long strings. A chunk is untrusted, so every
access says what it does for a part that is not there. `bitmap` and `slots` are the two checked
accesses that all readers build on: they have a bit, and a slot, for every row that is asked for.
-/

namespace Columnar

/-- The buffers of one vector. -/
structure RawVector where
  type : LogicalType
  data : Array UInt8 := #[]
  validity : Bitmap := none
  /-- The element vector of a list or an array, or the fields of a struct in order. -/
  children : List Nat := []
  /-- The number of element rows of a list that are in use. -/
  childCount : Nat := 0
  /-- Whether a request for more bytes than there are is answered with what is there. -/
  shortReads : Bool := false
  deriving DecidableEq

/-- A chunk of vectors, which are known by their position. -/
structure Chunk where
  vectors : Array RawVector := #[]
  columns : List Nat := []
  rowCount : Nat := 0
  /-- The number of bytes of a boolean. -/
  booleanWidth : Nat := 1
  heap : Heap := #[]
  deriving DecidableEq

namespace Chunk

/-- One more than the largest number a buffer can be measured with. -/
def sizeLimit : Nat := UInt64.size

/-- The vector `id`. -/
def vector (c : Chunk) (id : Nat) : Outcome RawVector :=
  match c.vectors[id]? with
  | some v => .ok v
  | none => Outcome.refuse (.invalidArgument "vector" s!"no vector {id}")

/-- The vector of column `index`. -/
def column (c : Chunk) (index : Nat) : Outcome Nat :=
  match c.columns[index]? with
  | some id => .ok id
  | none => Outcome.refuse (.invalidArgument "index" s!"no column {index}")

/-- The type the engine reports for a vector. -/
def logicalType (c : Chunk) (id : Nat) : Outcome LogicalType := (·.type) <$> c.vector id

/-- The buffer of a vector, which is refused if it is shorter than `size` bytes, unless the vector
answers with less than it is asked for. -/
def data (c : Chunk) (id size : Nat) : Outcome (Array UInt8) := do
  let v ← c.vector id
  Outcome.require (size ≤ v.data.size ∨ v.shortReads) (.missing "vector data")
  return v.data

/-- The bitmap of a vector, and none for a vector that does not exist. -/
def validity (c : Chunk) (id : Nat) : Bitmap := (c.vectors[id]?).bind (·.validity)

/-- The element vector of a list, with the number of its rows. -/
def listChild (c : Chunk) (id : Nat) : Outcome (Nat × Nat) := do
  let v ← c.vector id
  match v.children with
  | child :: _ => return (child, v.childCount)
  | [] => Outcome.refuse (.missing "list child")

/-- The vector of field `index` of a struct. -/
def structChild (c : Chunk) (id index : Nat) : Outcome Nat := do
  let v ← c.vector id
  match v.children[index]? with
  | some child => return child
  | none => Outcome.refuse (.missing "struct child")

/-- The element vector of an array. -/
def arrayChild (c : Chunk) (id : Nat) : Outcome Nat := do
  let v ← c.vector id
  match v.children with
  | child :: _ => return child
  | [] => Outcome.refuse (.missing "array child")

/-! ### Checked accesses -/

/-- The bitmap for `count` rows of a vector. -/
def bitmap (c : Chunk) (id count : Nat) : Outcome Bitmap := do
  let words := c.validity id
  Outcome.require (words.covers count) (.data .bitmapLength)
  return words

/-- The buffer for `count` slots of `width` bytes of a vector. -/
def buffer (c : Chunk) (id count width : Nat) : Outcome (Array UInt8) := do
  Outcome.require (count * width < sizeLimit)
    (.invalidArgument "item_count" "byte length overflows usize")
  let data ← c.data id (count * width)
  Outcome.require (count * width ≤ data.size) (.data .bufferLength)
  return data

/-- The slots of `count` rows of a vector, whose values have `valueWidth` bytes. -/
def slots (c : Chunk) (id count width valueWidth : Nat) : Outcome SlotWindow := do
  Outcome.require (valueWidth ≤ width) (.argument .slotWidth)
  let data ← c.buffer id count width
  let words ← c.bitmap id count
  Slots.ofBuffer data width valueWidth words count

end Chunk

end Columnar
