import Columnar.Number.Binary
import Columnar.Text.Digits

/-!
# Decimals

A decimal is an integer in units of `10 ^ -scale`, with the number of digits its column declares.
Its text is exact; as a double it is the nearest integer divided by the nearest power of ten.
-/

namespace Columnar

/-- The number `value / 10 ^ scale`, of a column with `width` digits. -/
structure Decimal where
  value : Int
  width : UInt8
  scale : UInt8
  deriving DecidableEq, Repr

namespace Decimal

/-- The digits of the magnitude, with zeros in front of them if there would be none before the point
otherwise. -/
def padded (d : Decimal) : List Char :=
  (toString d.value.natAbs).toList.leftpad (d.scale.toNat + 1) '0'

/-- There is a digit before the point. -/
theorem scale_lt_length_padded (d : Decimal) : d.scale.toNat < d.padded.length := by
  rw [padded, List.length_leftpad]
  omega

/-- The text of a decimal: its digits, with a point before the last `scale` of them. -/
def text (d : Decimal) : String :=
  let sign := if d.value < 0 then "-" else ""
  let scale := d.scale.toNat
  if scale = 0 then sign ++ toString d.value.natAbs
  else
    let (whole, fraction) := d.padded.splitAt (d.padded.length - scale)
    sign ++ String.ofList whole ++ "." ++ String.ofList fraction

/-- The bits of the double next to the decimal, up to the roundings of numerator, denominator and
quotient. -/
def toDouble (d : Decimal) : UInt64 :=
  Double.div (Double.ofInt d.value) (Double.tenToThe d.scale.toNat)

end Decimal

end Columnar
