import Columnar.Column.Make
import Columnar.DecodeConfig

/-!
# Decoding vectors

`Column.decode` opens a vector of a chunk as a column of a given type. It checks everything that
reading relies on (buffers and bitmaps are long enough, children exist) before it looks at a
single value, so no row of an opened column lies past a buffer. What the rows hold is checked when
they are read, except for the entries of lists, which can be checked here.

A map is opened as the list of structs it is stored as, and a union as its struct; both are
wrapped afterwards. The nesting limit counts those structs as levels of their own.
-/

namespace Columnar.Column

/-- Refuses a level below the nesting limit. -/
def checkDepth (config : DecodeConfig) (depth : Nat) : Outcome Unit :=
  Outcome.require (depth ≤ config.maxNestingDepth) (.nestingTooDeep config.maxNestingDepth)

/-- Opens the children of a struct from position `index` on, each with its own decoder. -/
def decodeChildren (chunk : Chunk) (id : Nat) :
    Nat → List (Nat → Outcome Column) → Outcome (List Column)
  | _, [] => .ok []
  | index, decoder :: rest => do
    let column ← decoder (← chunk.structChild id index)
    return column :: (← decodeChildren chunk id (index + 1) rest)

/-- Opens a struct whose fields are opened by `decoders`. -/
def decodeStruct (chunk : Chunk) (id count : Nat) (fields : List (String × LogicalType))
    (decoders : List (Nat → Outcome Column)) : Outcome Column := do
  let words ← chunk.bitmap id count
  ofFields fields words count (← decodeChildren chunk id 0 decoders)

/-- Opens a list whose elements are opened by `decoder`, which is given their vector and number. -/
def decodeList (chunk : Chunk) (config : DecodeConfig) (id count : Nat) (element : LogicalType)
    (decoder : Nat → Nat → Outcome Column) : Outcome Column := do
  let slots ← chunk.slots id count entryWidth entryWidth
  let (child, childCount) ← chunk.listChild id
  let list ← ofList element slots (← decoder child childCount)
  if config.eagerListValidation then list.validateEntries
  return list

/-- Opens an array whose elements are opened by `decoder`. -/
def decodeArray (chunk : Chunk) (id count : Nat) (element : LogicalType) (length : UInt64)
    (decoder : Nat → Nat → Outcome Column) : Outcome Column := do
  let words ← chunk.bitmap id count
  Outcome.require (count * length.toNat < Chunk.sizeLimit)
    (.invalidArgument "item_count" "array child count overflows usize")
  let child ← chunk.arrayChild id
  ofArray element length words count (← decoder child (count * length.toNat))

/-- Opens a decimal, whose scaled integers are as wide as its digits call for. -/
def decodeDecimal (chunk : Chunk) (id count : Nat) (t : DecimalType) : Outcome Column := do
  Outcome.require (t.scale ≤ t.width) (.data .decimalScale)
  match t.physicalWidth with
  | .error cause => Outcome.refuse cause
  | .ok width => return ofDecimals t width (← chunk.slots id count width width)

/-- The number of bytes of a slot of a kind: that of its values, except for booleans, whose slots
are as wide as the chunk says. -/
def slotWidth (chunk : Chunk) : FixedKind → Nat
  | .boolean => chunk.booleanWidth
  | kind => kind.width

mutual

/-- Opens `count` rows of the vector `id` as a column of type `type` at nesting level `depth`. -/
def decodeAt (chunk : Chunk) (config : DecodeConfig) (depth id count : Nat) (type : LogicalType) :
    Outcome Column := do
  checkDepth config depth
  match type with
  | .fixed kind => return ofFixed kind (← chunk.slots id count (slotWidth chunk kind) kind.width)
  | .string kind =>
    return ofStrings kind (← chunk.slots id count StringSlot.width StringSlot.width) chunk.heap
  | .decimal t => decodeDecimal chunk id count t
  | .enumeration t =>
    return ofIndices t t.indexWidth (← chunk.slots id count t.indexWidth t.indexWidth)
  | .list element =>
    decodeList chunk config id count element fun child childCount ↦
      decodeAt chunk config (depth + 1) child childCount element
  | .struct fields =>
    decodeStruct chunk id count fields (fieldDecoders chunk config (depth + 1) count fields)
  | .map key value => do
    let fields := LogicalType.mapEntry key value
    let entries ← decodeList chunk config id count (.struct fields) fun child childCount ↦ do
      checkDepth config (depth + 1)
      decodeStruct chunk child childCount fields
        [fun id ↦ decodeAt chunk config (depth + 2) id childCount key,
          fun id ↦ decodeAt chunk config (depth + 2) id childCount value]
    ofEntries key value entries
  | .array element length =>
    decodeArray chunk id count element length fun child childCount ↦
      decodeAt chunk config (depth + 1) child childCount element
  | .union alternatives => do
    let tagDecoder := fun id ↦ do
      checkDepth config (depth + 1)
      return ofFixed (.integer .uTinyInt) (← chunk.slots id count 1 1)
    let members ← decodeStruct chunk id count (LogicalType.unionMembers alternatives)
      (tagDecoder :: fieldDecoders chunk config (depth + 1) count alternatives)
    ofMembers alternatives members
  | .other id => Outcome.refuse (.unsupportedType id.name)

/-- The decoders of named columns of `count` rows. -/
def fieldDecoders (chunk : Chunk) (config : DecodeConfig) (depth count : Nat)
    (fields : List (String × LogicalType)) : List (Nat → Outcome Column) :=
  match fields with
  | [] => []
  | (_, t) :: rest =>
    (fun id ↦ decodeAt chunk config depth id count t) :: fieldDecoders chunk config depth count rest

end

/-- Opens `count` rows of the vector `id` of a chunk as a column of type `type`. -/
def decode (chunk : Chunk) (config : DecodeConfig) (id count : Nat) (type : LogicalType) :
    Outcome Column :=
  decodeAt chunk config 1 id count type

/-- Opens a vector with the type the engine reports for it. -/
def decodeReported (chunk : Chunk) (config : DecodeConfig) (id count : Nat) : Outcome Column := do
  decode chunk config id count (← chunk.logicalType id)

end Columnar.Column
