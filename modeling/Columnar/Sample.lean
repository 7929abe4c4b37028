import Columnar.Builder.Vector
import Columnar.Scalar.UuidStandard

/-!
# Sample chunks

Small chunks that show what columns hold: lists, unions, decimals of every storage size, times
with a zone, bit strings, and one column for each type of leaf with the smallest value, the
largest value and null. All columns have three rows.
-/

namespace Columnar

namespace Sample

/-- The type of integers of a kind. -/
abbrev int (kind : IntegerKind) : LogicalType := .fixed (.integer kind)

/-- The type of points in time of a kind. -/
abbrev temporal (kind : TemporalKind) : LogicalType := .fixed (.temporal kind)

/-- One `INTEGER[]` column: `[]`, `[42, 999, NULL, NULL, -42]`, `NULL`. -/
def intList : List ColumnLiteral := [
  (.list (int .integer),
    [.list [],
      .list [.integer .integer 42, .integer .integer 999, .null, .null, .integer .integer (-42)],
      .null])]

/-- One `UNION(name VARCHAR, age SMALLINT)` column: `'Frank'`, `5`, `NULL`. -/
def nameOrAge : List ColumnLiteral := [
  (.union [("name", .string .varchar), ("age", int .smallInt)],
    [.union 0 (.varchar "Frank"), .union 1 (.integer .smallInt 5), .null])]

/-- A column of decimals with the smallest value, the largest value and null. -/
def decimalExtremes (width scale : UInt8) : ColumnLiteral :=
  let largest : Int := (Nat.pow 10 width.toNat : Nat) - 1
  (.decimal ⟨width, scale⟩, [.decimal (-largest), .decimal largest, .null])

/-- One decimal column for every storage size, with the smallest value, the largest value and
null. -/
def decimals : List ColumnLiteral :=
  [decimalExtremes 4 1, decimalExtremes 9 4, decimalExtremes 18 6, decimalExtremes 38 10]

/-- One `TIME WITH TIME ZONE` column: `00:00:00+15:59:59`, `24:00:00-15:59:59`, `NULL`. -/
def timeTz : ColumnLiteral :=
  (.fixed .timeTz, [.timeTz ⟨0, 57599⟩, .timeTz ⟨86400000000, -57599⟩, .null])

/-- One `BIT` column: 31 bits, five bits, `NULL`. -/
def bits : List ColumnLiteral := [
  (.string .bit, [.bit "0010001001011100010101011010111", .bit "10101", .null])]

/-- A column of integers with the smallest and the largest of their kind. -/
def integerExtremes (kind : IntegerKind) : ColumnLiteral :=
  (int kind, [.integer kind kind.least, .integer kind (kind.bound - 1), .null])

/-- A column of points in time between the given ones. -/
def temporalExtremes (kind : TemporalKind) (least greatest : Int) : ColumnLiteral :=
  (temporal kind, [.temporal kind least, .temporal kind greatest, .null])

/-- A column of each type of leaf but bit strings. Every column has the smallest value, the largest
value and null. -/
def allTypes : List ColumnLiteral :=
  (.fixed .boolean, [.boolean false, .boolean true, .null]) ::
  [IntegerKind.tinyInt, .smallInt, .integer, .bigInt, .hugeInt, .uHugeInt, .uTinyInt, .uSmallInt,
    .uInteger, .uBigInt].map integerExtremes ++ [
  temporalExtremes .date (-2147483646) 2147483646,
  temporalExtremes .time 0 86400000000,
  temporalExtremes .timestamp (-9223372022400000000) 9223372036854775806,
  temporalExtremes .timestampS (-9223372022400) 9223372036854,
  temporalExtremes .timestampMs (-9223372022400000) 9223372036854775,
  temporalExtremes .timestampNs (-9223372036854775807) 9223372036854775806,
  timeTz,
  temporalExtremes .timestampTz (-9223372022400000000) 9223372036854775806,
  (.fixed .float, [.float 0xff7fffff, .float 0x7f7fffff, .null]),
  (.fixed .double, [.double 0xffefffffffffffff, .double 0x7fefffffffffffff, .null]),
  decimalExtremes 4 1,
  (.fixed .uuid, [.uuid (.ofBytes (.replicate 16 0)), .uuid (.ofBytes (.replicate 16 0xff)), .null]),
  (.fixed .interval, [.interval ⟨0, 0, 0⟩, .interval ⟨999, 999, 999999999⟩, .null]),
  (.string .varchar, [.varchar "🦆🦆🦆🦆🦆🦆", .varchar "goo\x00se", .null]),
  (.string .blob,
    [.blob (Text.Utf8.encode "thisisalongblob\x00withnullbytes"), .blob [0, 0, 0, 97], .null]),
  (.enumeration (.ofValues #["DUCK_DUCK_ENUM", "GOOSE"]),
    [.enumeration "DUCK_DUCK_ENUM", .enumeration "GOOSE", .null])]

/-- The columns of the samples, by name. -/
def columns : List (String × List ColumnLiteral) :=
  [("int_list", intList), ("name_or_age", nameOrAge), ("decimals", decimals), ("time_tz", [timeTz]),
    ("bits", bits), ("all_types", allTypes)]

/-- The scripts that build the samples, by name. -/
def all : List (String × Encoder Unit) :=
  columns.map fun (name, columns) ↦
    (name, columns.forM fun column ↦ Encoder.addColumn column.1 column.2)

end Sample

end Columnar
