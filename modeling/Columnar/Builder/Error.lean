import Columnar.Literal.Text
import Columnar.LogicalType.Label

/-!
# Why a column cannot be encoded

An `EncodeError` says which literal does not fit its type and why. Nested columns are encoded
child by child, so the type in an error is that of the innermost column, and `inColumn` adds which
column of the chunk it belongs to.
-/

namespace Columnar

/-- The causes for which literals are refused. -/
inductive EncodeError where
  | notOfType (literal : Literal) (type : LogicalType)
  | notInDictionary (value : String) (type : LogicalType)
  | fieldCount (actual expected : Nat)
  | elementCount (actual expected : Nat)
  /-- A string that lies nowhere has to be too long for its slot. -/
  | shortDangling
  | emptyBits
  | invalidBit (digit : Char)
  | invalidDecimalWidth (width : Nat)
  | noEncoder (id : TypeId)
  | rowCount (actual expected : Nat)
  | inColumn (type : LogicalType) (cause : EncodeError)

/-- The text shown to a reader. -/
def EncodeError.message [Uuid.Library] : EncodeError → String
  | .notOfType literal type => s!"{literal.text} is not a {type.label} value"
  | .notInDictionary value type => s!"{Text.Quoted.text value} is not in {type.label}"
  | .fieldCount actual expected => s!"struct row has {actual} fields, expected {expected}"
  | .elementCount actual expected => s!"array row has {actual} elements, expected {expected}"
  | .shortDangling => "dangling payload is inlined"
  | .emptyBits => "empty bit string"
  | .invalidBit digit => s!"invalid bit {Text.Quoted.char digit}"
  | .invalidDecimalWidth width => (DecodeError.invalidDecimalWidth width).message
  | .noEncoder id => s!"cannot encode values of type {id.name}"
  | .rowCount actual expected => s!"column has {actual} rows, expected {expected}"
  | .inColumn type cause => s!"encoding column of type {type.label}: {cause.message}"

/-- Why encoding has no result: an error to report, or something that ends the computation, which is
a value that cannot be packed at all or a request for more memory than can be addressed. -/
inductive EncodeFailure where
  | error (cause : EncodeError)
  | breach

namespace EncodeFailure

/-- Adds the column in which encoding failed. -/
def inColumn (type : LogicalType) : EncodeFailure → EncodeFailure
  | .error cause => .error (.inColumn type cause)
  | .breach => .breach

end EncodeFailure

/-- The result of encoding literals. -/
abbrev Encoding := Except EncodeFailure

namespace Encoding

/-- Fails with an error to report. -/
def refuse {α : Type} (cause : EncodeError) : Encoding α := .error (.error cause)

/-- One more than the largest number of bytes that can be asked for at once. -/
def memoryLimit : Nat := 0x8000000000000000

/-- Breaks off unless `count` things of `size` bytes can be addressed. -/
def reserve (count size : Nat) : Encoding Unit :=
  if count * size < memoryLimit then .ok () else .error .breach

theorem reserve_eq_ok_iff {count size : Nat} :
    reserve count size = .ok () ↔ count * size < memoryLimit := by
  unfold reserve; split <;> simp_all

end Encoding

end Columnar
