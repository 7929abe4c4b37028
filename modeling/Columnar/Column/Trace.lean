import Columnar.Column.Decode

/-!
# The log of decoding

What opening a vector reports on its way: every level it enters, types it has no decoder for, and
dictionaries whose reported index type does not fit their size. The log is a function of the same
inputs as `Column.decode` and follows its order, up to the step at which decoding fails.
-/

namespace Columnar

/-- How important an event is. -/
inductive Severity where
  | trace
  | debug
  | warn
  deriving DecidableEq, Repr

/-- The name of a severity, as it starts a line of the log. -/
def Severity.name : Severity → String
  | .trace => "TRACE"
  | .debug => "DEBUG"
  | .warn => "WARN"

/-- A step that is reported. Vectors are given by their position in the chunk. -/
inductive Event where
  | decoding (count : Nat) (type : LogicalType) (vector : Nat)
  | noDecoder (id : TypeId) (vector : Nat)
  | indexType (t : EnumType)
  | chunkOpened (columns rows : Nat)
  | columnDecoding (index vector : Nat)

namespace Event

/-- How important each step is. -/
def severity : Event → Severity
  | .decoding .. => .trace
  | .noDecoder .. | .chunkOpened .. | .columnDecoding .. => .debug
  | .indexType _ => .warn

/-- How a vector is called in the log. -/
def vectorName (id : Nat) : String := s!"VectorId({id})"

/-- The text of an event. -/
def message : Event → String
  | .decoding count type vector =>
    s!"decoding {count} rows of {type.label} from {vectorName vector}"
  | .noDecoder id vector => s!"no decoder for {id.name} vector {vectorName vector}"
  | .indexType t =>
    s!"ENUM of {t.values.size} values reports internal type {t.internalType.name}" ++
      s!", decoding indices as {t.derivedType.name}"
  | .chunkOpened columns rows => s!"chunk view over {columns} columns, {rows} rows"
  | .columnDecoding index vector => s!"decoding column {index} ({vectorName vector})"

/-- An event as a line of the log. -/
def line (e : Event) : String := e.severity.name ++ " " ++ e.message

end Event

namespace Column

/-- What is reported about the child that an outcome yields, and nothing if there is none. -/
def eventsOf {α : Type} (outcome : Outcome α) (events : α → List Event) : List Event :=
  match outcome with
  | .ok a => events a
  | .error _ => []

/-- The reports of opening the children of a struct from position `index` on. A child that cannot be
opened is the last one. -/
def childEvents (chunk : Chunk) (id : Nat) :
    Nat → List ((Nat → Outcome Column) × (Nat → List Event)) → List Event
  | _, [] => []
  | index, (decoder, events) :: rest =>
    eventsOf (chunk.structChild id index) fun child ↦
      events child ++ eventsOf (decoder child) fun _ ↦ childEvents chunk id (index + 1) rest

/-- The reports of opening a struct, where every field comes with its decoder and its reports. -/
def structEvents (chunk : Chunk) (id count : Nat)
    (fields : List ((Nat → Outcome Column) × (Nat → List Event))) : List Event :=
  eventsOf (chunk.bitmap id count) fun _ ↦ childEvents chunk id 0 fields

/-- The reports of opening a list. -/
def listEvents (chunk : Chunk) (id count : Nat) (events : Nat → Nat → List Event) : List Event :=
  eventsOf (chunk.slots id count entryWidth entryWidth) fun _ ↦
    eventsOf (chunk.listChild id) fun (child, childCount) ↦ events child childCount

/-- The reports of a level: none below the nesting limit. -/
def levelEvents (config : DecodeConfig) (depth id count : Nat) (type : LogicalType)
    (events : List Event) : List Event :=
  eventsOf (checkDepth config depth) fun _ ↦ .decoding count type id :: events

mutual

/-- The reports of `decodeAt`. -/
def eventsAt (chunk : Chunk) (config : DecodeConfig) (depth id count : Nat) (type : LogicalType) :
    List Event :=
  levelEvents config depth id count type <|
    match type with
    | .fixed _ | .string _ | .decimal _ => []
    | .enumeration t => if t.internalType = t.derivedType then [] else [.indexType t]
    | .list element =>
      listEvents chunk id count fun child childCount ↦
        eventsAt chunk config (depth + 1) child childCount element
    | .struct fields =>
      structEvents chunk id count (fieldEvents chunk config (depth + 1) count fields)
    | .map key value =>
      listEvents chunk id count fun child childCount ↦
        let entry := LogicalType.struct (LogicalType.mapEntry key value)
        levelEvents config (depth + 1) child childCount entry <|
          structEvents chunk child childCount
            [(fun id ↦ decodeAt chunk config (depth + 2) id childCount key,
              fun id ↦ eventsAt chunk config (depth + 2) id childCount key),
             (fun id ↦ decodeAt chunk config (depth + 2) id childCount value,
              fun id ↦ eventsAt chunk config (depth + 2) id childCount value)]
    | .array element length =>
      eventsOf (chunk.bitmap id count) fun _ ↦
        if count * length.toNat < Chunk.sizeLimit then
          eventsOf (chunk.arrayChild id) fun child ↦
            eventsAt chunk config (depth + 1) child (count * length.toNat) element
        else []
    | .union alternatives =>
      structEvents chunk id count <|
        (fun id ↦ decodeAt chunk config (depth + 1) id count LogicalType.tagType,
          fun id ↦ levelEvents config (depth + 1) id count LogicalType.tagType []) ::
            fieldEvents chunk config (depth + 1) count alternatives
    | .other typeId => [.noDecoder typeId id]

/-- The decoders of named columns of `count` rows, each with its reports. -/
def fieldEvents (chunk : Chunk) (config : DecodeConfig) (depth count : Nat)
    (fields : List (String × LogicalType)) :
    List ((Nat → Outcome Column) × (Nat → List Event)) :=
  match fields with
  | [] => []
  | (_, t) :: rest =>
    (fun id ↦ decodeAt chunk config depth id count t,
      fun id ↦ eventsAt chunk config depth id count t) :: fieldEvents chunk config depth count rest

end

/-- The reports of `decode`. -/
def events (chunk : Chunk) (config : DecodeConfig) (id count : Nat) (type : LogicalType) :
    List Event :=
  eventsAt chunk config 1 id count type

/-- The reports of `decodeReported`. -/
def reportedEvents (chunk : Chunk) (config : DecodeConfig) (id count : Nat) : List Event :=
  eventsOf (chunk.logicalType id) fun type ↦ events chunk config id count type

end Column

end Columnar
