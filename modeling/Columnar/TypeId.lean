/-!
# Type identifiers

The engine names the kind of a column by a number. `TypeId` is that closed list; each identifier has
a number (`raw`), an SQL name (`name`) and the word it is written with in a JSON type (`word`).
Numbers and words determine the identifier: `ofRaw?_raw` and `ofWord?_word`.
-/

namespace Columnar

/-- The kinds of column the engine knows, in the order of their numbers. -/
inductive TypeId where
  | invalid
  | boolean
  | tinyInt
  | smallInt
  | integer
  | bigInt
  | uTinyInt
  | uSmallInt
  | uInteger
  | uBigInt
  | float
  | double
  | timestamp
  | date
  | time
  | interval
  | hugeInt
  | varchar
  | blob
  | decimal
  | timestampS
  | timestampMs
  | timestampNs
  | enumeration
  | list
  | struct
  | map
  | uuid
  | union
  | bit
  | timeTz
  | timestampTz
  | uHugeInt
  | array
  | any
  | varInt
  | sqlNull
  deriving DecidableEq, Repr, Inhabited

namespace TypeId

/-- Every identifier, at the position that is its number. -/
def all : List TypeId :=
  [.invalid, .boolean, .tinyInt, .smallInt, .integer, .bigInt, .uTinyInt, .uSmallInt,
  .uInteger, .uBigInt, .float, .double, .timestamp, .date, .time, .interval, .hugeInt,
  .varchar, .blob, .decimal, .timestampS, .timestampMs, .timestampNs, .enumeration, .list,
  .struct, .map, .uuid, .union, .bit, .timeTz, .timestampTz, .uHugeInt, .array, .any, .varInt,
  .sqlNull]

/-- The number the engine reports. -/
def raw (id : TypeId) : Nat := all.idxOf id

/-- The identifier with number `n`, if the list reaches that far. -/
def ofRaw? (n : Nat) : Option TypeId := all[n]?

/-- The SQL name, without any type parameters. -/
def name : TypeId → String
  | .invalid => "INVALID"
  | .boolean => "BOOLEAN"
  | .tinyInt => "TINYINT"
  | .smallInt => "SMALLINT"
  | .integer => "INTEGER"
  | .bigInt => "BIGINT"
  | .uTinyInt => "UTINYINT"
  | .uSmallInt => "USMALLINT"
  | .uInteger => "UINTEGER"
  | .uBigInt => "UBIGINT"
  | .float => "FLOAT"
  | .double => "DOUBLE"
  | .timestamp => "TIMESTAMP"
  | .date => "DATE"
  | .time => "TIME"
  | .interval => "INTERVAL"
  | .hugeInt => "HUGEINT"
  | .varchar => "VARCHAR"
  | .blob => "BLOB"
  | .decimal => "DECIMAL"
  | .timestampS => "TIMESTAMP_S"
  | .timestampMs => "TIMESTAMP_MS"
  | .timestampNs => "TIMESTAMP_NS"
  | .enumeration => "ENUM"
  | .list => "LIST"
  | .struct => "STRUCT"
  | .map => "MAP"
  | .uuid => "UUID"
  | .union => "UNION"
  | .bit => "BIT"
  | .timeTz => "TIME WITH TIME ZONE"
  | .timestampTz => "TIMESTAMP WITH TIME ZONE"
  | .uHugeInt => "UHUGEINT"
  | .array => "ARRAY"
  | .any => "ANY"
  | .varInt => "VARINT"
  | .sqlNull => "NULL"

/-- The word for the identifier in a JSON type. -/
def word : TypeId → String
  | .invalid => "Invalid"
  | .boolean => "Boolean"
  | .tinyInt => "TinyInt"
  | .smallInt => "SmallInt"
  | .integer => "Integer"
  | .bigInt => "BigInt"
  | .uTinyInt => "UTinyInt"
  | .uSmallInt => "USmallInt"
  | .uInteger => "UInteger"
  | .uBigInt => "UBigInt"
  | .float => "Float"
  | .double => "Double"
  | .timestamp => "Timestamp"
  | .date => "Date"
  | .time => "Time"
  | .interval => "Interval"
  | .hugeInt => "HugeInt"
  | .varchar => "Varchar"
  | .blob => "Blob"
  | .decimal => "Decimal"
  | .timestampS => "TimestampS"
  | .timestampMs => "TimestampMs"
  | .timestampNs => "TimestampNs"
  | .enumeration => "Enum"
  | .list => "List"
  | .struct => "Struct"
  | .map => "Map"
  | .uuid => "Uuid"
  | .union => "Union"
  | .bit => "Bit"
  | .timeTz => "TimeTz"
  | .timestampTz => "TimestampTz"
  | .uHugeInt => "UHugeInt"
  | .array => "Array"
  | .any => "Any"
  | .varInt => "VarInt"
  | .sqlNull => "SqlNull"

/-- Identifiers are in the order of their numbers. -/
instance : Ord TypeId := ⟨fun a b ↦ compare a.raw b.raw⟩

/-- The identifier a word stands for. -/
def ofWord? (w : String) : Option TypeId := all.find? fun id ↦ id.word == w

theorem mem_all (id : TypeId) : id ∈ all := by cases id <;> decide

theorem ofRaw?_raw (id : TypeId) : ofRaw? id.raw = some id := by cases id <;> rfl

theorem ofWord?_word (id : TypeId) : ofWord? id.word = some id := by cases id <;> rfl

/-- Only its own word is read as an identifier. -/
theorem word_of_ofWord? {w : String} {id : TypeId} (h : ofWord? w = some id) : id.word = w := by
  simpa using List.find?_some h

end TypeId

end Columnar
