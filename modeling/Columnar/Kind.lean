import Columnar.TypeId

/-!
# Kinds of leaf values

The types without parameters fall into two groups. A value of a `FixedKind` takes a slot of a fixed
width; a value of a `StringKind` is a byte string of any length. Integers and points in time are
grouped further, since all that tells them apart is their width, their sign and their unit.
-/

namespace Columnar

/-- Integers, by name. -/
inductive IntegerKind where
  | tinyInt
  | smallInt
  | integer
  | bigInt
  | hugeInt
  | uTinyInt
  | uSmallInt
  | uInteger
  | uBigInt
  | uHugeInt
  deriving DecidableEq, Repr

namespace IntegerKind

/-- The number of bytes of an integer. -/
def width : IntegerKind → Nat
  | .tinyInt | .uTinyInt => 1
  | .smallInt | .uSmallInt => 2
  | .integer | .uInteger => 4
  | .bigInt | .uBigInt => 8
  | .hugeInt | .uHugeInt => 16

/-- Whether negative numbers belong to the kind. -/
def isSigned : IntegerKind → Bool
  | .tinyInt | .smallInt | .integer | .bigInt | .hugeInt => true
  | .uTinyInt | .uSmallInt | .uInteger | .uBigInt | .uHugeInt => false

/-- The least integer of the kind. -/
def least (k : IntegerKind) : Int :=
  if k.isSigned then -(Nat.pow 2 (8 * k.width - 1) : Nat) else 0

/-- The least integer above all of the kind. -/
def bound (k : IntegerKind) : Int :=
  if k.isSigned then Nat.pow 2 (8 * k.width - 1) else Nat.pow 2 (8 * k.width)

/-- Whether an integer is of the kind. -/
def Contains (k : IntegerKind) (n : Int) : Prop := k.least ≤ n ∧ n < k.bound

instance (k : IntegerKind) (n : Int) : Decidable (k.Contains n) :=
  inferInstanceAs (Decidable (_ ∧ _))

/-- The identifier of the kind. -/
def typeId : IntegerKind → TypeId
  | .tinyInt => .tinyInt
  | .smallInt => .smallInt
  | .integer => .integer
  | .bigInt => .bigInt
  | .hugeInt => .hugeInt
  | .uTinyInt => .uTinyInt
  | .uSmallInt => .uSmallInt
  | .uInteger => .uInteger
  | .uBigInt => .uBigInt
  | .uHugeInt => .uHugeInt

end IntegerKind

/-- Points in time, counted in days for a date and in a fraction of a second otherwise. -/
inductive TemporalKind where
  | date
  | time
  | timestamp
  | timestampS
  | timestampMs
  | timestampNs
  | timestampTz
  deriving DecidableEq, Repr

namespace TemporalKind

/-- The number of bytes of the signed count. -/
def width : TemporalKind → Nat
  | .date => 4
  | .time | .timestamp | .timestampS | .timestampMs | .timestampNs | .timestampTz => 8

/-- The identifier of the kind. -/
def typeId : TemporalKind → TypeId
  | .date => .date
  | .time => .time
  | .timestamp => .timestamp
  | .timestampS => .timestampS
  | .timestampMs => .timestampMs
  | .timestampNs => .timestampNs
  | .timestampTz => .timestampTz

end TemporalKind

/-- The types whose values take a slot of a fixed width and have no parameters. -/
inductive FixedKind where
  | boolean
  | integer (kind : IntegerKind)
  | float
  | double
  | temporal (kind : TemporalKind)
  | timeTz
  | interval
  | uuid
  deriving DecidableEq, Repr

namespace FixedKind

/-- The number of bytes of a value. A slot may be wider. -/
def width : FixedKind → Nat
  | .boolean => 1
  | .integer kind => kind.width
  | .float => 4
  | .double => 8
  | .temporal kind => kind.width
  | .timeTz => 8
  | .interval => 16
  | .uuid => 16

/-- The identifier of the kind. -/
def typeId : FixedKind → TypeId
  | .boolean => .boolean
  | .integer kind => kind.typeId
  | .float => .float
  | .double => .double
  | .temporal kind => kind.typeId
  | .timeTz => .timeTz
  | .interval => .interval
  | .uuid => .uuid

theorem width_pos (kind : FixedKind) : 0 < kind.width := by
  cases kind with
  | integer k => cases k <;> decide
  | temporal k => cases k <;> decide
  | _ => decide

end FixedKind

/-- The types whose values are byte strings. -/
inductive StringKind where
  | varchar
  | blob
  | bit
  deriving DecidableEq, Repr

/-- The identifier of the kind. -/
def StringKind.typeId : StringKind → TypeId
  | .varchar => .varchar
  | .blob => .blob
  | .bit => .bit

end Columnar
