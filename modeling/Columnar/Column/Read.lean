import Columnar.Column.Basic
import Columnar.LogicalType.Label

/-!
# Reading rows

`Layout.read` decodes one row, following the tree of buffers: slots for leaves, a run of child
rows for lists and arrays, the same row of every field for structs, the same row of one
alternative for unions. It is given the window it reads through, and row numbers in errors count
from the start of that window. Fields, alternatives, keys and values are read as a caller would read
them, with the check that the row is there.

Two readers stand on it. `Column.get` relies on the row being in the column and breaks off if it
is not; `Column.getItem` refuses such a row as a mistake of the caller. Both give the same answer
for all rows of the column (`getItem_of_lt`). A union checks the validity of a row before its
bounds, so `Column.get` has an answer for some rows past the end of a union.
-/

namespace Columnar

/-- The offset and the length in the slot of a list entry. -/
def entryOf (slot : List UInt8) : Nat × Nat :=
  (LittleEndian.toNat (slot.take 8), LittleEndian.toNat ((slot.drop 8).take 8))

/-- The run of rows that a list entry describes, which has to lie within the `rows` rows of the
child. -/
def entryRange (slot : List UInt8) (rows : Nat) : Outcome (Nat × Nat) := do
  let (offset, length) := entryOf slot
  Outcome.require (offset + length ≤ rows) (.data .listEntry)
  return (offset, length)

/-- The number of bytes of a list entry: an offset and a length. -/
def entryWidth : Nat := 16

/-- The tag in a slot, which is its first byte. -/
def tagOf (slot : List UInt8) : Nat := LittleEndian.toNat (slot.take 1)

/-- The dictionary entry that an index stands for. -/
def EnumType.decode (t : EnumType) (index : Nat) : Outcome Value :=
  match t.value? index with
  | some s => .ok (.enumeration s)
  | none => Outcome.refuse (.invalidEnumIndex index t.values.size)

namespace Layout

/-- The run of child rows of the list in row `i`, or `none` if the row is null. -/
def listRange (slots : Slots) (start len i rows : Nat) : Outcome (Option (Nat × Nat)) := do
  match ← slots.get start len i with
  | none => return none
  | some slot => return some (← entryRange slot rows)

mutual

/-- The value of row `i` of the window of `len` rows from `start` on. -/
def read (layout : Layout) (start len i : Nat) : Outcome Value :=
  match layout with
  | .fixed kind slots => do
    match ← slots.get start len i with
    | none => return .null
    | some slot => return kind.decode slot
  | .string kind slots heap => do
    match ← slots.get start len i with
    | none => return .null
    | some slot =>
      match StringSlot.payload? heap slot with
      | none => return .null
      | some bytes => kind.decode i bytes
  | .decimal t width slots => do
    match ← slots.get start len i with
    | none => return .null
    | some slot => return .decimal ⟨LittleEndian.toInt (slot.take width), t.width, t.scale⟩
  | .enumeration t width slots => do
    match ← slots.get start len i with
    | none => return .null
    | some slot => t.decode (LittleEndian.toNat (slot.take width))
  | .list slots ⟨child, childStart, childLen⟩ => do
    match ← listRange slots start len i childLen with
    | none => return .null
    | some (offset, count) =>
      Window.checkRange childLen offset count
      return .list child.type count fun j ↦ child.read (childStart + offset) count j
  | .struct words fields => do
    Outcome.assert (i < len)
    if words.isValid (start + i) then return .struct (← readFields fields start len i)
    else return .null
  | .map _ _ slots ⟨child, childStart, childLen⟩ => do
    match ← listRange slots start len i childLen with
    | none => return .null
    | some (offset, count) =>
      Window.checkRange childLen offset count
      match child with
      | .struct words [(_, ⟨key, keyStart, keyLen⟩), (_, ⟨value, valueStart, valueLen⟩)] =>
        Window.checkRange keyLen (childStart + offset) count
        Window.checkRange valueLen (childStart + offset) count
        return .map (← Outcome.collect count fun j ↦ do
          if words.isValid (childStart + offset + j) then
            Window.checkRow count j
            let key ← key.read (keyStart + (childStart + offset)) count j
            Window.checkRow count j
            return (key, ← value.read (valueStart + (childStart + offset)) count j)
          else Outcome.refuse (.nullMapEntry i j))
      | child => Outcome.refuse (.typeMismatch "STRUCT(key, value)" child.type.label)
  | .array length words ⟨child, childStart, childLen⟩ => do
    Outcome.assert (i < len)
    if words.isValid (start + i) then
      let offset := (start + i) * length.toNat
      Window.checkRange childLen offset length.toNat
      return .array child.type length.toNat fun j ↦
        child.read (childStart + offset) length.toNat j
    else return .null
  | .union words tags alternatives => do
    if words.isValid (start + i) then
      Window.checkRange tags.len start len
      match ← tags.content.get (tags.start + start) len i with
      | none => return .null
      | some slot =>
        let tag := tagOf slot
        readAlternative alternatives tag (.invalidDiscriminant tag alternatives.length) start len i
    else return .null

/-- The values of row `i` of all fields, each read through the window of the struct. -/
def readFields (fields : List (String × Window Layout)) (start len i : Nat) :
    Outcome (List (String × Value)) :=
  match fields with
  | [] => .ok []
  | (name, ⟨layout, fieldStart, fieldLen⟩) :: rest => do
    Window.checkRange fieldLen start len
    Window.checkRow len i
    let value ← layout.read (fieldStart + start) len i
    return (name, value) :: (← readFields rest start len i)

/-- The value of row `i` of the alternative at position `tag`, or `absent` if there is none. -/
def readAlternative (alternatives : List (String × Window Layout)) (tag : Nat)
    (absent : DecodeError) (start len i : Nat) : Outcome Value :=
  match alternatives with
  | [] => Outcome.refuse absent
  | (name, ⟨layout, memberStart, memberLen⟩) :: rest =>
    match tag with
    | 0 => do
      Window.checkRange memberLen start len
      Window.checkRow len i
      return .union name (← layout.read (memberStart + start) len i)
    | tag + 1 => readAlternative rest tag absent start len i

end

end Layout

namespace Column

/-- The value of row `i`, which has to be a row of the column. -/
def get (c : Column) (i : Nat) : Outcome Value := c.content.read c.start c.len i

/-- The value of row `i`; a row outside of the column is refused. -/
def getItem (c : Column) (i : Nat) : Outcome Value := do
  Window.checkRow c.len i
  c.get i

/-- The values of all rows. -/
def rows (c : Column) : List (Outcome Value) := (List.range c.len).map c.getItem

theorem getItem_of_lt {c : Column} {i : Nat} (h : i < c.len) : c.getItem i = c.get i := by
  simp [getItem, Window.checkRow, h, bind, Except.bind]

theorem getItem_of_le {c : Column} {i : Nat} (h : c.len ≤ i) :
    c.getItem i = Outcome.refuse (.argument .rowIndex) := by
  simp [getItem, Window.checkRow, Nat.not_lt.2 h, bind, Except.bind, Outcome.refuse]

/-- The elements of the list or array in row `i`, as a column, or `none` if the row is null.
Columns of other types have no elements. -/
def elements (c : Column) (i : Nat) : Outcome (Option Column) :=
  match c.content with
  | .list slots child => do
    match ← Layout.listRange slots c.start c.len i child.len with
    | none => return none
    | some (offset, count) => return some (← child.slice offset count)
  | .array length words child => do
    Outcome.assert (i < c.len)
    if words.isValid (c.start + i) then
      return some (← child.slice ((c.start + i) * length.toNat) length.toNat)
    else return none
  | _ => return none

/-- The dictionary index in row `i`, whether or not there is an entry at it, or `none` if the row is
null. Columns of other types have no indices. -/
def index (c : Column) (i : Nat) : Outcome (Option Nat) :=
  match c.content with
  | .enumeration _ width slots => do
    match ← slots.get c.start c.len i with
    | none => return none
    | some slot => return some (LittleEndian.toNat (slot.take width))
  | _ => return none

/-- The elements of the value in row `i`, if it is a list or an array. -/
def item (c : Column) (i : Nat) : Outcome (Option Column) :=
  match c.content with
  | .list .. | .array .. => do
    Window.checkRow c.len i
    c.elements i
  | _ => do
    let _ ← c.getItem i
    return none

end Column

end Columnar
