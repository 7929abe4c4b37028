import Columnar.Chunk
import Columnar.Scalar.BitString
import Columnar.Scalar.Decimal
import Columnar.Scalar.TimeTz
import Columnar.Scalar.Uuid
import Columnar.Text.Utf8

/-!
# Values

What a row holds once it is decoded. A value says which type it is of down to the kind of integer,
so equal values have equal types and equal contents at all levels. The rows of a list or an array
are a function to outcomes: a list whose third element cannot be read is still a value, and a row
costs nothing until it is asked for. `Value.inductionOn` is induction over all rows that can be
read.

`FixedKind.decode` and `StringKind.decode` read the values of leaves from their bytes.
-/

namespace Columnar

/-- Months, days and microseconds, which are independent of each other. -/
structure Interval where
  months : Int
  days : Int
  micros : Int
  deriving DecidableEq, Repr

/-- A decoded value. -/
inductive Value where
  | null
  | boolean (value : Bool)
  | integer (kind : IntegerKind) (value : Int)
  /-- A single-precision number, by its bits. -/
  | float (bits : UInt32)
  /-- A double-precision number, by its bits. -/
  | double (bits : UInt64)
  | temporal (kind : TemporalKind) (count : Int)
  | timeTz (value : TimeTz)
  | interval (value : Interval)
  | uuid (value : Uuid)
  | varchar (value : String)
  | blob (bytes : List UInt8)
  | bit (value : BitString)
  | decimal (value : Decimal)
  | enumeration (value : String)
  | list (element : LogicalType) (len : Nat) (row : Fin len → Except Failure Value)
  | struct (fields : List (String × Value))
  | map (pairs : List (Value × Value))
  | array (element : LogicalType) (len : Nat) (row : Fin len → Except Failure Value)
  | union (tag : String) (value : Value)

namespace Value

instance : Inhabited Value := ⟨.null⟩

/-- Whether the value is null. -/
def isNull : Value → Bool
  | .null => true
  | _ => false

/-- The integer, if the value is one that fits 64 bits with a sign. -/
def toInt64? : Value → Option Int
  | .integer _ n => if Int64.minValue.toInt ≤ n ∧ n ≤ Int64.maxValue.toInt then some n else none
  | _ => none

/-- The bits of the floating-point number, as a double. -/
def toDouble? : Value → Option UInt64
  | .float bits => some (Double.ofSingle bits)
  | .double bits => some bits
  | _ => none

/-- The text, if the value is one. -/
def toText? : Value → Option String
  | .varchar s => some s
  | _ => none

/-- The bytes of a blob or a text. -/
def toBytes? : Value → Option (List UInt8)
  | .blob bytes => some bytes
  | .varchar s => some (Text.Utf8.encode s)
  | _ => none

/-- The number of rows of a list or an array. -/
def len? : Value → Option Nat
  | .list _ len _ | .array _ len _ => some len
  | _ => none

/-- Induction over values, where the rows of a list or an array are those that can be read, and what
a struct or a map holds is given as members of the list. -/
@[elab_as_elim]
theorem inductionOn {motive : Value → Prop} (v : Value) (null : motive .null)
    (boolean : ∀ value, motive (.boolean value))
    (integer : ∀ kind value, motive (.integer kind value))
    (float : ∀ bits, motive (.float bits)) (double : ∀ bits, motive (.double bits))
    (temporal : ∀ kind count, motive (.temporal kind count))
    (timeTz : ∀ value, motive (.timeTz value)) (interval : ∀ value, motive (.interval value))
    (uuid : ∀ value, motive (.uuid value)) (varchar : ∀ value, motive (.varchar value))
    (blob : ∀ bytes, motive (.blob bytes)) (bit : ∀ value, motive (.bit value))
    (decimal : ∀ value, motive (.decimal value))
    (enumeration : ∀ value, motive (.enumeration value))
    (list : ∀ element len row, (∀ i w, row i = .ok w → motive w) → motive (.list element len row))
    (struct : ∀ fields, (∀ f ∈ fields, motive f.2) → motive (.struct fields))
    (map : ∀ pairs, (∀ p ∈ pairs, motive p.1 ∧ motive p.2) → motive (.map pairs))
    (array : ∀ element len row, (∀ i w, row i = .ok w → motive w) → motive (.array element len row))
    (union : ∀ tag value, motive value → motive (.union tag value)) : motive v := by
  refine Value.rec (motive_1 := motive) (motive_2 := fun row ↦ ∀ w, row = .ok w → motive w)
    (motive_3 := fun fields ↦ ∀ f ∈ fields, motive f.2)
    (motive_4 := fun pairs ↦ ∀ p ∈ pairs, motive p.1 ∧ motive p.2)
    (motive_5 := fun f ↦ motive f.2) (motive_6 := fun p ↦ motive p.1 ∧ motive p.2)
    null boolean integer float double temporal timeTz interval uuid varchar blob bit decimal
    enumeration list struct map array union ?_ ?_ ?_ ?_ ?_ ?_ ?_ ?_ v <;> simp_all

end Value

/-! ### Leaves -/

open LittleEndian in
/-- The value in a slot. A boolean is true if any byte of the slot is set; all other values take the
first bytes of the slot, and the rest is not looked at. -/
def FixedKind.decode (kind : FixedKind) (slot : List UInt8) : Value :=
  let bytes := slot.take kind.width
  match kind with
  | .boolean => .boolean (slot.any (· != 0))
  | .integer kind => .integer kind (if kind.isSigned then toInt bytes else toNat bytes)
  | .float => .float (UInt32.ofNat (toNat bytes))
  | .double => .double (UInt64.ofNat (toNat bytes))
  | .temporal kind => .temporal kind (toInt bytes)
  | .timeTz => .timeTz (TimeTz.ofBits (UInt64.ofNat (toNat bytes)))
  | .interval => .interval
      ⟨toInt (bytes.take 4), toInt ((bytes.drop 4).take 4), toInt ((bytes.drop 8).take 8)⟩
  | .uuid => .uuid ⟨BitVec.ofNat 128 (toNat bytes)⟩

/-- The value of the bytes of a string in row `row`. -/
def StringKind.decode (kind : StringKind) (row : Nat) (bytes : List UInt8) : Outcome Value :=
  match kind with
  | .varchar => .varchar <$> Text.Utf8.decode row bytes
  | .blob => .ok (.blob bytes)
  | .bit => .bit <$> BitString.ofBytes bytes

end Columnar
