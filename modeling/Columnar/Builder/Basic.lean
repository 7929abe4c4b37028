import Columnar.Builder.Leaf
import Columnar.Chunk

/-!
# Chunks under construction

A `Builder` is a chunk to which vectors, columns and payloads are only ever added. An `Encoder` is a
step that adds some and may fail; what it added before it failed stays, so that positions of vectors
and addresses of payloads that were handed out remain good.

Where a payload lies is up to an allocator (`Builder.place`), of which nothing is known here. Unless
another one is given, payloads are laid out one after the other with a gap behind each, so an address
that is a little off points to the same payload or to none.
-/

namespace Columnar

/-- The address behind the last payload, with `gap` bytes in between; `first` is that of the first
one. -/
def Heap.behindLast (first gap : Nat) (heap : Heap) (_size : Nat) : Nat :=
  match heap.back? with
  | none => first
  | some p => p.address + p.bytes.size + gap

/-- A chunk under construction. -/
structure Builder where
  vectors : Array RawVector := #[]
  columns : List Nat := []
  /-- The number of rows of every column, once there is one. -/
  rowCount? : Option Nat := none
  heap : Heap := #[]
  /-- The number of bytes of a boolean. -/
  booleanWidth : Nat := 1
  /-- The number of unused rows behind the elements of every list column. -/
  listPadding : Nat := 0
  /-- The address of the first payload. -/
  firstAddress : Nat := 0x400000000000
  /-- The number of bytes between two payloads. -/
  payloadGap : Nat := 0x10000
  /-- The allocator: the address of a payload of a size, given the two numbers above and the payloads
  that there are. -/
  place : Nat → Nat → Heap → Nat → Nat := Heap.behindLast
  booleanWidth_pos : 0 < booleanWidth := by decide

/-- A step of building a chunk. -/
abbrev Encoder := ExceptT EncodeFailure (StateM Builder)

namespace Builder

instance : Inhabited Builder := ⟨{}⟩

/-- An empty chunk whose booleans take `booleanWidth` bytes, of which there has to be one. -/
def empty? (booleanWidth listPadding : Nat) : Option Builder :=
  if h : 0 < booleanWidth then
    some { booleanWidth := booleanWidth, listPadding := listPadding, booleanWidth_pos := h }
  else none

/-- The chunk that is built. -/
def toChunk (b : Builder) : Chunk where
  vectors := b.vectors
  columns := b.columns
  rowCount := b.rowCount?.getD 0
  booleanWidth := b.booleanWidth
  heap := b.heap

/-- The chunk after a script has added to what there is. -/
def build (b : Builder) (script : Encoder Unit) : Encoding Chunk :=
  match script.run b with
  | (.ok (), built) => .ok built.toChunk
  | (.error failure, _) => .error failure

/-- The address at which a payload of a size is put on a heap. -/
def addressIn (b : Builder) : Heap → Nat → Nat := b.place b.firstAddress b.payloadGap

end Builder

namespace Encoder

/-- Adds a vector, and gives its position. -/
def push (v : RawVector) : Encoder Nat :=
  modifyGet fun b ↦ (b.vectors.size, { b with vectors := b.vectors.push v })

/-- Adds a payload, and gives its address. -/
def allocate (bytes : List UInt8) : Encoder Nat :=
  modifyGet fun b ↦
    let address := b.addressIn b.heap bytes.length
    (address, { b with heap := b.heap.push ⟨address, bytes.toArray⟩ })

/-- Adds a vector as a column. -/
def appendColumn (id : Nat) : Encoder Unit :=
  modify fun b ↦ { b with columns := b.columns ++ [id] }

/-- Refuses a column of `count` rows if the columns before it have a different number. -/
def expectRows (count : Nat) : Encoder Unit := do
  let b ← get
  match b.rowCount? with
  | none => set { b with rowCount? := some count }
  | some expected =>
    if expected = count then return () else throw (.error (.rowCount count expected))

end Encoder

end Columnar
