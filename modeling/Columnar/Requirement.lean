/-!
# Requirements

Everything a reader checks before it trusts its input. A requirement is a subject together with
the condition that has to hold for it, worded for the message of the error that reports a breach:
`ArgumentRule` lists what is asked of callers, `DataRule` what is asked of the bytes of a chunk.
-/

namespace Columnar

/-- A condition with the thing it is a condition on, as an error message names them. -/
structure Requirement where
  subject : String
  condition : String
  deriving DecidableEq, Repr

/-- What a caller has to get right. -/
inductive ArgumentRule where
  /-- A row number lies within the column. -/
  | rowIndex
  /-- A column number lies within the chunk. -/
  | columnIndex
  /-- The nesting limit admits at least one level. -/
  | positiveDepth
  /-- The row limit admits at least one row. -/
  | positiveSize
  /-- A slot is at least as wide as the value stored in it. -/
  | slotWidth
  /-- The elements of a list have the element type. -/
  | listElement
  /-- The elements of an array have the element type. -/
  | arrayElement
  /-- An array has all the elements of all its rows. -/
  | arrayCoverage
  /-- A struct has one column for every field. -/
  | fieldCount
  /-- The column of a field has as many rows as the struct. -/
  | fieldLength
  /-- The column of a field has the type of the field. -/
  | fieldType
  /-- The entries of a map are lists of its key and value. -/
  | mapEntries
  /-- The members of a union are its tag and its alternatives. -/
  | unionMembers
  deriving DecidableEq, Repr

/-- The wording of a rule for callers. -/
def ArgumentRule.requirement : ArgumentRule → Requirement
  | .rowIndex => ⟨"index", "index < self.len()"⟩
  | .columnIndex => ⟨"index", "index < self.column_count()"⟩
  | .positiveDepth => ⟨"max_nesting_depth", "self.max_nesting_depth > 0"⟩
  | .positiveSize => ⟨"vector_size", "self.vector_size > 0"⟩
  | .slotWidth => ⟨"width", "width >= T::WIDTH"⟩
  | .listElement => ⟨"child", "&child.logical_type() == list_type.element()"⟩
  | .arrayElement => ⟨"child", "&child.logical_type() == array_type.element()"⟩
  | .arrayCoverage => ⟨"child",
      "validity.len().checked_mul(array_type.length()).is_some_and(|n| n <= child.len())"⟩
  | .fieldCount => ⟨"fields", "fields.len() == struct_type.len()"⟩
  | .fieldLength => ⟨"field", "field.len() == validity.len()"⟩
  | .fieldType => ⟨"field", "field.logical_type() == entry.logical_type"⟩
  | .mapEntries => ⟨"entries", "entries.list_type() == &map_type.as_list_type()"⟩
  | .unionMembers => ⟨"members", "members.struct_type() == &union_type.as_struct_type()"⟩

/-- What the bytes of a chunk have to satisfy. -/
inductive DataRule where
  /-- The elements of a list row lie within the child column. -/
  | listEntry
  /-- A bit string has its padding byte. -/
  | bitStringPresent
  /-- At most seven bits of a bit string are padding. -/
  | bitStringPadding
  /-- A bit string has the bits it declares to be padding. -/
  | bitStringRoom
  /-- A bitmap has a bit for every row. -/
  | bitmapLength
  /-- A buffer has a slot for every row. -/
  | bufferLength
  /-- A decimal has no more fraction digits than digits. -/
  | decimalScale
  /-- A chunk has no more rows than the row limit. -/
  | rowCount
  deriving DecidableEq, Repr

/-- The wording of a rule for bytes. -/
def DataRule.requirement : DataRule → Requirement
  | .listEntry => ⟨"list_entry", "end.is_some_and(|end| end <= self.child.len() as u64)"⟩
  | .bitStringPresent => ⟨"bit_string", "!bytes.is_empty()"⟩
  | .bitStringPadding => ⟨"bit_string", "padding < 8"⟩
  | .bitStringRoom => ⟨"bit_string", "padding <= (bytes.len() - 1) * 8"⟩
  | .bitmapLength => ⟨"validity", "words.len() >= Validity::word_count(count)"⟩
  | .bufferLength => ⟨"data", "data.len() >= byte_len"⟩
  | .decimalScale => ⟨"decimal_scale", "decimal_type.scale <= decimal_type.width"⟩
  | .rowCount => ⟨"row_count", "chunk.row_count() <= factory.config().vector_size"⟩

end Columnar
