import Columnar.Builder.Error

/-!
# Bytes of leaf literals

The encoders of types without children, as functions from literals to bytes. A null takes a slot
of zeros, whatever the type. Numbers are cut to the width of their slot: a scaled integer or a
dictionary index that is too large for its column is stored without its upper bytes.
-/

namespace Columnar

/-- The slots of `width` bytes for literals, where `encode` gives the bytes of those that are not
null. A slot that is wider than the bytes is filled up with zeros. There has to be memory for all
slots before the first literal is looked at. -/
def encodeSlots (width : Nat) (encode : Literal → Encoding (List UInt8)) (values : List Literal) :
    Encoding (Array UInt8) := do
  Encoding.reserve values.length width
  let slots ← values.mapM fun value ↦
    if value.isNull then return List.replicate width 0
    else do
      let bytes ← encode value
      return bytes ++ List.replicate (width - bytes.length) 0
  return slots.flatten.toArray

open LittleEndian in
/-- The bytes of a literal of a fixed width. -/
def FixedKind.encode (kind : FixedKind) (value : Literal) : Encoding (List UInt8) :=
  let mismatch := Encoding.refuse (.notOfType value (.fixed kind))
  match kind, value with
  | .boolean, .boolean b => return [if b then 1 else 0]
  | .integer kind, .integer kind' n => if kind = kind' then return ofInt kind.width n else mismatch
  | .float, .float bits => return ofNat 4 bits.toNat
  | .double, .double bits => return ofNat 8 bits.toNat
  | .temporal kind, .temporal kind' n =>
    if kind = kind' then return ofInt kind.width n else mismatch
  | .timeTz, .timeTz t =>
    match t.toBits? with
    | some bits => return ofNat 8 bits.toNat
    | none => .error .breach
  | .interval, .interval i => return ofInt 4 i.months ++ ofInt 4 i.days ++ ofInt 8 i.micros
  | .uuid, .uuid u => return ofNat 16 u.raw.toNat
  | _, _ => mismatch

/-- The scaled integer of a literal in `width` bytes. -/
def DecimalType.encode (t : DecimalType) (width : Nat) : Literal → Encoding (List UInt8)
  | .decimal n => return LittleEndian.ofInt width n
  | value => Encoding.refuse (.notOfType value (.decimal t))

/-- The slots of decimals. A width that no storage is for is refused before any literal. -/
def DecimalType.encodeSlots (t : DecimalType) (values : List Literal) : Encoding (Array UInt8) :=
  match t.physicalWidth? with
  | some width => Columnar.encodeSlots width (t.encode width) values
  | none => Encoding.refuse (.invalidDecimalWidth t.width.toNat)

/-- The dictionary index of a literal. Indices are not checked, but entries have to be found. -/
def EnumType.indexOf (t : EnumType) : Literal → Encoding Nat
  | .enumIndex index => return index
  | .enumeration s =>
    match t.find? s with
    | some index => return index
    | none => Encoding.refuse (.notInDictionary s (.enumeration t))
  | value => Encoding.refuse (.notOfType value (.enumeration t))

/-- The slots of dictionary indices. -/
def EnumType.encodeSlots (t : EnumType) (values : List Literal) : Encoding (Array UInt8) :=
  Columnar.encodeSlots t.indexWidth
    (fun value ↦ LittleEndian.ofNat t.indexWidth <$> t.indexOf value) values

/-- The bit that a digit stands for. -/
def bitOf (digit : Char) : Encoding Bool :=
  if digit = '0' then return false
  else if digit = '1' then return true
  else Encoding.refuse (.invalidBit digit)

/-- The payload of a bit string that is written with digits, of which there is one at least. -/
def encodeDigits (digits : String) : Encoding (List UInt8) :=
  if digits.isEmpty then Encoding.refuse .emptyBits
  else BitString.encode <$> digits.toList.mapM bitOf

/-- The bytes of a string. -/
def StringKind.encode (kind : StringKind) (value : Literal) : Encoding (List UInt8) :=
  match kind, value with
  | .varchar, .varchar s => return Text.Utf8.encode s
  | .blob, .blob bytes => return bytes
  | .bit, .bit digits => encodeDigits digits
  | kind, value => Encoding.refuse (.notOfType value (.string kind))

/-! ### Rows of nested types -/

/-- The elements of a list, and none for null. -/
def listRow (type : LogicalType) : Literal → Encoding (Option (List Literal))
  | .null => return none
  | .list items => return some items
  | value => Encoding.refuse (.notOfType value type)

/-- The pairs of a map as structs, and none for null. -/
def mapRow (type : LogicalType) : Literal → Encoding (Option (List Literal))
  | .null => return none
  | .map pairs => return some (pairs.map fun (key, value) ↦ .struct [key, value])
  | value => Encoding.refuse (.notOfType value type)

/-- The `length` elements of an array; a null row takes as many nulls. -/
def arrayRow (type : LogicalType) (length : Nat) : Literal → Encoding (List Literal)
  | .null => return List.replicate length .null
  | .array items =>
    if items.length = length then return items
    else Encoding.refuse (.elementCount items.length length)
  | value => Encoding.refuse (.notOfType value type)

/-- The `count` fields of a struct, and none for null. -/
def structRow (type : LogicalType) (count : Nat) : Literal → Encoding (Option (List Literal))
  | .null => return none
  | .struct fields =>
    if fields.length = count then return some fields
    else Encoding.refuse (.fieldCount fields.length count)
  | value => Encoding.refuse (.notOfType value type)

/-- The tag of a union and its `count` alternatives, which are null except for the one that the tag
selects, if it does. -/
def unionRow (type : LogicalType) (count : Nat) : Literal → Encoding (Option (List Literal))
  | .null => return none
  | .union tag member =>
    return some <| .integer .uTinyInt tag.toNat ::
      (List.range count).map fun i ↦ if i = tag.toNat then member else .null
  | value => Encoding.refuse (.notOfType value type)

end Columnar
