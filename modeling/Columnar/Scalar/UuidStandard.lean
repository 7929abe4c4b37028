import Columnar.Scalar.Uuid
import Columnar.Text.Digits

/-!
# A library of UUIDs

`Uuid.standard` goes by the number that the bytes spell, the most significant one first, and writes
the bytes as hexadecimal digits in groups of 8, 4, 4, 4 and 12.
-/

namespace Columnar

namespace BigEndian

/-- The number that bytes spell, the most significant one first. -/
def toNat (bytes : List UInt8) : Nat := LittleEndian.toNat bytes.reverse

/-- Sixteen bytes as the number that they spell. -/
def toBitVec (bytes : Vector UInt8 16) : BitVec 128 := BitVec.ofNat 128 (toNat bytes.toList)

/-- The sixteen bytes that spell a number. -/
def ofBitVec (n : BitVec 128) : Vector UInt8 16 :=
  ⟨(LittleEndian.ofNat 16 n.toNat).reverse.toArray, by simp⟩

end BigEndian

namespace Uuid

/-- Digits cut into groups of 8, 4, 4, 4 and 12. -/
def groups (digits : List Char) : List (List Char) :=
  [(0, 8), (8, 4), (12, 4), (16, 4), (20, 12)].map fun (start, count) ↦
    (digits.drop start).take count

/-- The digits of sixteen bytes in their groups. -/
def hyphenated (bytes : Vector UInt8 16) : String :=
  String.ofList (['-'].intercalate (groups (Text.Hex.encode bytes.toList)))

instance standard : Library := ⟨BigEndian.toBitVec, BigEndian.ofBitVec, hyphenated⟩

/-- Reads 32 hexadecimal digits, with or without the hyphens between the groups. -/
def ofText? (text : String) : Option Uuid := do
  let digits := text.toList.filter (· != '-')
  if digits.length ≠ 32 then none
  return ofNatural (BitVec.ofNat 128 (← Text.Hex.toNat? digits))

end Uuid

end Columnar
