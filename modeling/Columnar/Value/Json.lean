import Columnar.Json.Basic
import Columnar.Value.Basic

/-!
# JSON of values

How a decoded value is shown. Integers that a double cannot hold, decimals, times and UUIDs are
texts, a blob is escaped so that it is printable ASCII, and a struct or a union row is an object. A
struct with two fields of one name keeps the later one, since an object has each name once.

The only failures are those of the rows of lists and arrays inside the value.
-/

namespace Columnar

/-- Whether a byte is shown as the character it is in ASCII: printable, and no backslash. -/
def isPlainByte (b : UInt8) : Bool := 0x20 ≤ b && b < 0x7f && b != 0x5c

/-- An upper-case hexadecimal digit. -/
def upperDigit (d : Nat) : Char := (Nat.digitChar d).toUpper

/-- The text of a byte of a blob: itself, or `\xNN`. -/
def escapeByte (b : UInt8) : List Char :=
  if isPlainByte b then [Char.ofNat b.toNat]
  else ['\\', 'x', upperDigit (b.toNat / 16), upperDigit (b.toNat % 16)]

/-- The text of a blob. -/
def escapeBlob (bytes : List UInt8) : String := String.ofList (bytes.flatMap escapeByte)

namespace Value

variable [Uuid.Library]

mutual

/-- The JSON of a value. -/
def toJson : Value → Outcome Json
  | .null => .ok .null
  | .boolean b => .ok (.bool b)
  | .integer _ n => .ok (Json.ofInt n)
  | .float bits => .ok (Json.ofDouble (Double.ofSingle bits))
  | .double bits => .ok (Json.ofDouble bits)
  | .temporal _ n => .ok (Json.ofInt n)
  | .timeTz t => .ok (.text t.text)
  | .interval i => .ok <| Json.ofMembers
      [("months", .int i.months), ("days", .int i.days), ("micros", Json.ofInt i.micros)]
  | .uuid u => .ok (.text u.text)
  | .varchar s => .ok (.text s)
  | .blob bytes => .ok (.text (escapeBlob bytes))
  | .bit b => .ok (.text b.text)
  | .decimal d => .ok (.text d.text)
  | .enumeration s => .ok (.text s)
  | .list _ len row => Json.array <$> Outcome.collect len fun i ↦ rowToJson (row i)
  | .array _ len row => Json.array <$> Outcome.collect len fun i ↦ rowToJson (row i)
  | .struct fields => Json.ofMembers <$> fieldsToJson fields
  | .map pairs => Json.array <$> pairsToJson pairs
  | .union tag value => do return Json.ofMembers [(tag, ← value.toJson)]

/-- The JSON of a row, unless it cannot be read. -/
def rowToJson : Except Failure Value → Outcome Json
  | .ok value => value.toJson
  | .error failure => .error failure

/-- The JSON of all fields, with their names. -/
def fieldsToJson : List (String × Value) → Outcome (List (String × Json))
  | [] => .ok []
  | (name, value) :: rest => do return (name, ← value.toJson) :: (← fieldsToJson rest)

/-- The JSON of all pairs, as objects. -/
def pairsToJson : List (Value × Value) → Outcome (List Json)
  | [] => .ok []
  | (key, value) :: rest => do
    let pair := Json.ofMembers [("key", ← key.toJson), ("value", ← value.toJson)]
    return pair :: (← pairsToJson rest)

end

end Value

end Columnar
