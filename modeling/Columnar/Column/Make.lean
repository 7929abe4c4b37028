import Columnar.Column.Read

/-!
# Putting columns together

The checked ways to make a column out of buffers and of other columns. What is required of the
parts is required of callers: the types have to be the declared ones, and there have to be as many
rows as are needed.
-/

namespace Columnar.Column

/-- Fixed-width values in slots. -/
def ofFixed (kind : FixedKind) (w : SlotWindow) : Column := ⟨.fixed kind w.content, w.start, w.len⟩

/-- Byte strings in slots, the long ones on a heap. -/
def ofStrings (kind : StringKind) (w : SlotWindow) (heap : Heap) : Column :=
  ⟨.string kind w.content heap, w.start, w.len⟩

/-- Scaled integers of `width` bytes in slots. -/
def ofDecimals (t : DecimalType) (width : Nat) (w : SlotWindow) : Column :=
  ⟨.decimal t width w.content, w.start, w.len⟩

/-- Dictionary indices of `width` bytes in slots. -/
def ofIndices (t : EnumType) (width : Nat) (w : SlotWindow) : Column :=
  ⟨.enumeration t width w.content, w.start, w.len⟩

/-- Lists of the rows of `child`, which have to be of the element type. -/
def ofList (element : LogicalType) (entries : SlotWindow) (child : Column) : Outcome Column := do
  Outcome.require (child.type = element) (.argument .listElement)
  return ⟨.list entries.content child, entries.start, entries.len⟩

/-- Lists that lie where those of another column of lists do, but with the rows of `child`. -/
def withElements (c : Column) (element : LogicalType) (child : Column) : Outcome Column :=
  match c.content with
  | .list slots _ => ofList element ⟨slots, c.start, c.len⟩ child
  | _ => Outcome.refuse (.typeMismatch "LIST" c.type.label)

/-- Refuses columns that do not have the types of the fields, or not `len` rows. -/
def checkFields (len : Nat) : List (String × LogicalType) → List Column → Outcome Unit
  | (_, t) :: fields, c :: columns => do
    Outcome.require (c.len = len) (.argument .fieldLength)
    Outcome.require (c.type = t) (.argument .fieldType)
    checkFields len fields columns
  | _, _ => .ok ()

/-- Structs of `len` rows with one column for every field. -/
def ofFields (fields : List (String × LogicalType)) (words : Bitmap) (len : Nat)
    (columns : List Column) : Outcome Column := do
  Outcome.require (columns.length = fields.length) (.argument .fieldCount)
  checkFields len fields columns
  return .whole (.struct words ((fields.map (·.1)).zip columns)) len

/-- Arrays of `len` rows, each of which is a run of `length` rows of `child`. -/
def ofArray (element : LogicalType) (length : UInt64) (words : Bitmap) (len : Nat)
    (child : Column) : Outcome Column := do
  Outcome.require (child.type = element) (.argument .arrayElement)
  Outcome.require (len * length.toNat < Chunk.sizeLimit ∧ len * length.toNat ≤ child.len)
    (.argument .arrayCoverage)
  return .whole (.array length words child) len

/-- Maps, made of lists of structs of a key and a value. -/
def ofEntries (key value : LogicalType) (entries : Column) : Outcome Column :=
  match entries.content with
  | .list slots child => do
    Outcome.require (child.content.type = .struct (LogicalType.mapEntry key value))
      (.argument .mapEntries)
    return ⟨.map key value slots child, entries.start, entries.len⟩
  | _ => Outcome.refuse (.typeMismatch "LIST" entries.type.label)

/-- Unions, made of structs of a tag and the alternatives. -/
def ofMembers (alternatives : List (String × LogicalType)) (members : Column) : Outcome Column :=
  match members.content with
  | .struct words fields => do
    Outcome.require (Layout.fieldTypes fields = LogicalType.unionMembers alternatives)
      (.argument .unionMembers)
    match fields with
    | (_, ⟨.fixed (.integer .uTinyInt) slots, start, len⟩) :: rest =>
      return ⟨.union words ⟨slots, start, len⟩ rest, members.start, members.len⟩
    | (_, tags) :: _ => Outcome.refuse (.typeMismatch "UTINYINT" (type tags).label)
    | [] => Outcome.broken
  | _ => Outcome.refuse (.typeMismatch "STRUCT" members.type.label)

/-! ### Taking columns apart -/

/-- Refuses a column that is not of the class `name`. -/
def expectClass (c : Column) (name : String) : Outcome Unit :=
  Outcome.require (c.className == name) (.typeMismatch name c.type.label)

/-- Checks the entries of all rows of lists that are not null. -/
def validateEntries (c : Column) : Outcome Unit :=
  match c.content with
  | .list slots child =>
    (List.range c.len).forM fun i ↦ do
      let _ ← Layout.listRange slots c.start c.len i child.len
  | _ => Outcome.refuse (.typeMismatch "LIST" c.type.label)

/-- The rows that the elements of lists, arrays and maps are taken from. -/
def child (c : Column) : Outcome Column :=
  match c.content with
  | .list _ child | .map _ _ _ child | .array _ _ child => .ok child
  | _ => Outcome.refuse (.typeMismatch "LIST" c.type.label)

/-- The lists of key/value structs that maps are made of. -/
def entries (c : Column) : Outcome Column :=
  match c.content with
  | .map _ _ slots child => .ok ⟨.list slots child, c.start, c.len⟩
  | _ => Outcome.refuse (.typeMismatch "MAP" c.type.label)

/-- The structs of a tag and the alternatives that unions are made of. -/
def members (c : Column) : Outcome Column :=
  match c.content with
  | .union words tags alternatives =>
    .ok ⟨.struct words
      (("tag", ⟨.fixed (.integer .uTinyInt) tags.content, tags.start, tags.len⟩) :: alternatives),
      c.start, c.len⟩
  | _ => Outcome.refuse (.typeMismatch "UNION" c.type.label)

/-- The tags of unions. -/
def tags (c : Column) : Outcome SlotWindow :=
  match c.content with
  | .union _ tags _ => tags.slice c.start c.len
  | _ => Outcome.refuse (.typeMismatch "UNION" c.type.label)

/-- The column at position `index`, narrowed to the rows of `c`. -/
def narrowed (c : Column) (columns : List (String × Column)) (index : Nat) :
    Outcome (Option Column) :=
  match columns[index]? with
  | some (_, column) => some <$> column.slice c.start c.len
  | none => .ok none

/-- The position of the first column called `name`. -/
def position? (columns : List (String × Column)) (name : String) : Option Nat :=
  columns.findIdx? (·.1 == name)

/-- The column of the field at position `index` of a struct. -/
def field (c : Column) (index : Nat) : Outcome (Option Column) :=
  match c.content with
  | .struct _ fields => c.narrowed fields index
  | _ => Outcome.refuse (.typeMismatch "STRUCT" c.type.label)

/-- The column of the first field of a struct called `name`. -/
def fieldNamed (c : Column) (name : String) : Outcome (Option Column) :=
  match c.content with
  | .struct _ fields =>
    match position? fields name with
    | some index => c.narrowed fields index
    | none => .ok none
  | _ => Outcome.refuse (.typeMismatch "STRUCT" c.type.label)

/-- The column of the alternative at position `index` of a union. -/
def alternative (c : Column) (index : Nat) : Outcome (Option Column) :=
  match c.content with
  | .union _ _ alternatives => c.narrowed alternatives index
  | _ => Outcome.refuse (.typeMismatch "UNION" c.type.label)

/-- The column of the first alternative of a union called `tag`. -/
def alternativeTagged (c : Column) (tag : String) : Outcome (Option Column) :=
  match c.content with
  | .union _ _ alternatives =>
    match position? alternatives tag with
    | some index => c.narrowed alternatives index
    | none => .ok none
  | _ => Outcome.refuse (.typeMismatch "UNION" c.type.label)

end Columnar.Column
