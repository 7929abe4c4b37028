import Columnar.Builder.Basic

/-!
# Encoding vectors

`Encoder.addVector` adds the vector of a type for given literals, after the vectors of its
children: the elements of all lists of a list column in a row, the values of every field of a
struct column. Rows of a child that belong to no row of the parent are null, and so are the
children of a null struct or of an alternative that is not selected.

The rows of a nested column are checked before any child is encoded, so an error in them comes
first. The elements of lists and arrays are copied before they are encoded, which needs memory for
all of them: for an array even before its rows are checked, for a list once its length is known.

A map is encoded as a list of structs, and a union as a struct that starts with the tag; either
vector is marked with the type that was asked for.
-/

namespace Columnar.Encoder

/-- The number of bytes that a literal takes while it is waiting to be encoded. -/
def literalSize : Nat := 32

/-- The bitmap of literals, which is left out if none is null. -/
def bitmapOf (values : List Literal) : Bitmap := Bitmap.ofFlags (values.map (!·.isNull))

/-- The slot of a string. A payload that is too long for it goes to the heap. -/
def stringSlot (kind : StringKind) : Literal → Encoder (List UInt8)
  | .null => return List.replicate StringSlot.width 0
  | .dangling length =>
    if StringSlot.inlineLength < length then return StringSlot.dangling length
    else throw (.error .shortDangling)
  | value => do
    let bytes ← kind.encode value
    if bytes.length ≤ StringSlot.inlineLength then return StringSlot.ofInline bytes
    else return StringSlot.ofPointer bytes (← allocate bytes)

/-- Adds a vector without children. -/
def addLeaf (type : LogicalType) (values : List Literal) (data : Encoding (Array UInt8)) :
    Encoder Nat := do
  push { type, data := ← data, validity := bitmapOf values }

/-- Adds a vector of fixed-width values. -/
def addFixed (kind : FixedKind) (values : List Literal) : Encoder Nat := do
  let b ← get
  let width := match kind with
    | .boolean => b.booleanWidth
    | kind => kind.width
  addLeaf (.fixed kind) values (encodeSlots width kind.encode values)

/-- Adds a vector of strings. -/
def addStrings (kind : StringKind) (values : List Literal) : Encoder Nat := do
  let slots ← values.mapM (stringSlot kind)
  addLeaf (.string kind) values (.ok slots.flatten.toArray)

/-- The entries of lists that follow each other in the child from row `offset` on; that of a null
list is empty and starts nowhere. -/
def entrySlots : Nat → List (Option (List Literal)) → List UInt8
  | _, [] => []
  | offset, none :: rest => List.replicate 16 0 ++ entrySlots offset rest
  | offset, some items :: rest =>
    LittleEndian.ofNat 8 offset ++ LittleEndian.ofNat 8 items.length ++
      entrySlots (offset + items.length) rest

/-- Adds a vector of lists with the given elements, which are added by `addElements`. -/
def addLists (type : LogicalType) (values : List Literal) (rows : List (Option (List Literal)))
    (addElements : List Literal → Encoder Nat) : Encoder Nat := do
  let listed := rows.flatMap (·.getD [])
  let padding := (← get).listPadding
  Encoding.reserve (listed.length + padding) literalSize
  let elements := listed ++ List.replicate padding .null
  let child ← addElements elements
  push {
    type
    data := (entrySlots 0 rows).toArray
    validity := bitmapOf values
    children := [child]
    childCount := elements.length }

/-- The values of field `index` of all rows. -/
def fieldOf (index : Nat) (rows : List (Option (List Literal))) : List Literal :=
  rows.map fun row ↦ (row.bind (·[index]?)).getD .null

/-- Adds the vectors of the fields from `index` on, each by its own encoder. -/
def addFields (rows : List (Option (List Literal))) :
    Nat → List (List Literal → Encoder Nat) → Encoder (List Nat)
  | _, [] => return []
  | index, addField :: rest => do
    let child ← addField (fieldOf index rows)
    return child :: (← addFields rows (index + 1) rest)

/-- Adds a vector of structs with the given fields. -/
def addStructs (type : LogicalType) (values : List Literal) (rows : List (Option (List Literal)))
    (addEach : List (List Literal → Encoder Nat)) : Encoder Nat := do
  let children ← addFields rows 0 addEach
  push { type, validity := bitmapOf values, children }

/-- What `row` makes of all literals, up to the first one that it refuses. -/
def checked {α : Type} (row : Literal → Encoding α) (values : List Literal) : Encoder (List α) :=
  ExceptT.mk (pure (values.mapM row))

mutual

/-- Adds a vector of type `type` that holds `values`, and gives its position. -/
def addVector (type : LogicalType) (values : List Literal) : Encoder Nat :=
  match type with
  | .fixed kind => addFixed kind values
  | .string kind => addStrings kind values
  | .decimal t => addLeaf (.decimal t) values (t.encodeSlots values)
  | .enumeration t => addLeaf (.enumeration t) values (t.encodeSlots values)
  | .list element => do
    let rows ← checked (listRow (.list element)) values
    addLists (.list element) values rows fun items ↦ addVector element items
  | .struct fields => do
    let rows ← checked (structRow (.struct fields) fields.length) values
    addStructs (.struct fields) values rows (fieldEncoders fields)
  | .map key value => do
    let entry := LogicalType.struct (LogicalType.mapEntry key value)
    let rows ← checked (mapRow (.map key value)) values
    addLists (.map key value) values rows fun items ↦ do
      let pairs ← checked (structRow entry 2) items
      addStructs entry items pairs
        [fun keys ↦ addVector key keys, fun values ↦ addVector value values]
  | .array element length => do
    Encoding.reserve (values.length * length.toNat) literalSize
    let rows ← checked (arrayRow (.array element length) length.toNat) values
    let child ← addVector element rows.flatten
    push { type := .array element length, validity := bitmapOf values, children := [child] }
  | .union alternatives => do
    let rows ← checked (unionRow (.union alternatives) alternatives.length) values
    addStructs (.union alternatives) values rows
      (addFixed (.integer .uTinyInt) :: fieldEncoders alternatives)
  | .other id => throw (.error (.noEncoder id))

/-- The encoders of named columns. -/
def fieldEncoders (fields : List (String × LogicalType)) : List (List Literal → Encoder Nat) :=
  match fields with
  | [] => []
  | (_, t) :: rest => (fun values ↦ addVector t values) :: fieldEncoders rest

end

/-- Adds a column of type `type` that holds `values`. -/
def addColumn (type : LogicalType) (values : List Literal) : Encoder Unit := do
  expectRows values.length
  let id ← (addVector type values).adapt (·.inColumn type)
  appendColumn id

/-- Adds a column of `rowCount` rows with the given buffers, whatever they hold. -/
def addRawColumn (v : RawVector) (rowCount : Nat) : Encoder Unit := do
  expectRows rowCount
  appendColumn (← push v)

end Columnar.Encoder
