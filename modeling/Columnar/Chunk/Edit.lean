import Columnar.Chunk

/-!
# Editing chunks

Single changes to the buffers of a vector, for making chunks that no engine would write. Nothing
is checked: an edit may leave buffers too short, pointers astray or children missing. It is for
the reader of a chunk to find out.
-/

namespace Columnar

/-- A change to one vector. -/
inductive Edit where
  /-- Cuts the buffer to `size` bytes, or fills it up with zeros. -/
  | resize (size : Nat)
  /-- Writes `bytes` over those from `offset` on. -/
  | overwrite (offset : Nat) (bytes : List UInt8)
  /-- Moves the address in the string slot of a row. -/
  | shiftPointer (row : Nat) (delta : Int)
  | setValidity (words : Bitmap)
  | setChildren (ids : List Nat)
  | setChildCount (count : Nat)
  | setType (type : LogicalType)

namespace Edit

/-- The first `size` bytes, with zeros where there are fewer. -/
def resized (data : Array UInt8) (size : Nat) : Array UInt8 :=
  data.extract 0 size ++ Array.replicate (size - data.size) 0

/-- The buffer with `bytes` from `offset` on. -/
def overwritten (data : Array UInt8) (offset : Nat) (bytes : List UInt8) : Array UInt8 :=
  data.extract 0 offset ++ bytes.toArray ++ data.extract (offset + bytes.length) data.size

/-- The buffer with the address in the string slot of row `row` moved by `delta`. -/
def shifted (data : Array UInt8) (row : Nat) (delta : Int) : Array UInt8 :=
  let offset := row * StringSlot.width + 8
  let address := LittleEndian.toNat (data.extract offset (offset + 8)).toList
  overwritten data offset (LittleEndian.ofInt 8 (address + delta))

/-- The vector after an edit. -/
def apply (v : RawVector) : Edit → RawVector
  | .resize size => { v with data := resized v.data size }
  | .overwrite offset bytes => { v with data := overwritten v.data offset bytes }
  | .shiftPointer row delta => { v with data := shifted v.data row delta }
  | .setValidity words => { v with validity := words }
  | .setChildren ids => { v with children := ids }
  | .setChildCount count => { v with childCount := count }
  | .setType type => { v with type }

end Edit

/-- The chunk after edits to the vector `id`, one after the other; there may be no such vector. -/
def Chunk.edit (c : Chunk) (id : Nat) (edits : List Edit) : Chunk :=
  { c with vectors := c.vectors.modify id (edits.foldl Edit.apply) }

end Columnar
