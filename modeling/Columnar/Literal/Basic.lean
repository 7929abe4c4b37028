import Columnar.Value.Basic

/-!
# Literals

Values to be written into columns. A literal need not fit anything: an integer may be too large
for its kind, a dictionary index or a union tag out of range, a string may point nowhere. What
each type of column makes of a literal is decided where columns are encoded.
-/

namespace Columnar

/-- A value to be encoded. `null` fits any type. -/
inductive Literal where
  | null
  | boolean (value : Bool)
  | integer (kind : IntegerKind) (value : Int)
  | float (bits : UInt32)
  | double (bits : UInt64)
  | temporal (kind : TemporalKind) (count : Int)
  | timeTz (value : TimeTz)
  | interval (value : Interval)
  | uuid (value : Uuid)
  | varchar (value : String)
  | blob (bytes : List UInt8)
  /-- Bits as the digits `0` and `1`, leftmost first. -/
  | bit (digits : String)
  /-- A decimal by its scaled integer. -/
  | decimal (value : Int)
  /-- A dictionary entry by its text. -/
  | enumeration (value : String)
  /-- A dictionary entry by its index. -/
  | enumIndex (index : Nat)
  | list (items : List Literal)
  | struct (fields : List Literal)
  | map (pairs : List (Literal × Literal))
  | array (items : List Literal)
  /-- A union row by the position of its alternative. -/
  | union (tag : UInt8) (value : Literal)
  /-- A string of the given length that lies where the heap has nothing. -/
  | dangling (length : Nat)

namespace Literal

instance : Inhabited Literal := ⟨.null⟩

/-- Whether the literal is null. -/
def isNull : Literal → Bool
  | .null => true
  | _ => false

theorem isNull_iff {l : Literal} : l.isNull = true ↔ l = .null := by cases l <;> simp [isNull]

theorem isNull_eq_false {l : Literal} (h : l ≠ .null) : l.isNull = false :=
  Bool.eq_false_iff.2 fun hnull ↦ h (isNull_iff.1 hnull)

end Literal

/-- A column to be built: its type and its rows. -/
abbrev ColumnLiteral := LogicalType × List Literal

end Columnar
