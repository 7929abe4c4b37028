import Columnar.Literal.Basic
import Columnar.Number.Shortest
import Columnar.Text.Quoted

/-!
# Literals in messages

The text by which an error names a literal: its variant, then what it holds in parentheses.
Records are written with the names of their fields, texts are quoted, and numbers that are not
integers have a point or an exponent.
-/

namespace Columnar

namespace Literal

/-- Floating-point numbers are positional from `1e-4` to below `1e16`, without a plus sign in the
exponent, and the upper one of two nearest decimals is taken. -/
def floatStyle : FloatStyle := ⟨-4, 16, false, .up⟩

/-- The text of a floating-point number of format `f`. -/
def floatText (f : BinaryFormat) (bits : Nat) : String :=
  match f.decode bits with
  | .nan => "NaN"
  | .infinite negative => if negative then "-inf" else "inf"
  | .finite negative significand exponent => floatStyle.text f negative significand exponent

/-- A record: its name and its fields. -/
def record (name : String) (fields : List (String × String)) : String :=
  name ++ " \x7b " ++ ", ".intercalate (fields.map fun (key, value) ↦ key ++ ": " ++ value) ++
    " \x7d"

/-- A list in brackets. -/
def bracketed (items : List String) : String := "[" ++ ", ".intercalate items ++ "]"

/-- The record of a point in time: what it is called and what it counts. -/
def temporalText (kind : TemporalKind) (count : Int) : String :=
  let (name, unit) := match kind with
    | .date => ("Date", "days")
    | .time => ("Time", "micros")
    | .timestamp => ("Timestamp", "micros")
    | .timestampS => ("TimestampSeconds", "seconds")
    | .timestampMs => ("TimestampMillis", "millis")
    | .timestampNs => ("TimestampNanos", "nanos")
    | .timestampTz => ("TimestampTz", "micros")
  record name [(unit, toString count)]

variable [Uuid.Library]

mutual

/-- The text of a literal. -/
def text : Literal → String
  | .null => "Null"
  | .boolean value => s!"Boolean({value})"
  | .integer kind value => s!"{kind.typeId.word}({value})"
  | .float bits => s!"Float({floatText .single bits.toNat})"
  | .double bits => s!"Double({floatText .double bits.toNat})"
  | .temporal kind count => s!"{kind.typeId.word}({temporalText kind count})"
  | .timeTz value =>
    "TimeTz(" ++ record "TimeTz" [("micros", toString value.micros.toNat),
      ("offset_seconds", toString value.offsetSeconds.toInt)] ++ ")"
  | .interval value =>
    "Interval(" ++ record "Interval" [("months", toString value.months),
      ("days", toString value.days), ("micros", toString value.micros)] ++ ")"
  | .uuid value => s!"Uuid({value.text})"
  | .varchar value => s!"Varchar({Text.Quoted.text value})"
  | .blob bytes => "Blob(" ++ bracketed (bytes.map fun b ↦ toString b.toNat) ++ ")"
  | .bit digits => s!"Bit({Text.Quoted.text digits})"
  | .decimal value => s!"Decimal({value})"
  | .enumeration value => s!"Enum({Text.Quoted.text value})"
  | .enumIndex index => s!"EnumIndex({index})"
  | .list items => "List(" ++ bracketed (texts items) ++ ")"
  | .struct fields => "Struct(" ++ bracketed (texts fields) ++ ")"
  | .map pairs => "Map(" ++ bracketed (pairTexts pairs) ++ ")"
  | .array items => "Array(" ++ bracketed (texts items) ++ ")"
  | .union tag value => s!"Union({tag.toNat}, " ++ value.text ++ ")"
  | .dangling length => s!"Dangling({length})"

/-- The texts of literals. -/
def texts : List Literal → List String
  | [] => []
  | item :: rest => item.text :: texts rest

/-- The texts of pairs of literals. -/
def pairTexts : List (Literal × Literal) → List String
  | [] => []
  | (key, value) :: rest => ("(" ++ key.text ++ ", " ++ value.text ++ ")") :: pairTexts rest

end

end Literal

end Columnar
