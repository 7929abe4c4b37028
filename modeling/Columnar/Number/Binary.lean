/-!
# Binary floating-point numbers

A `BinaryFormat` is an interchange format given by the widths of its fraction and exponent fields.
`decode` reads a bit pattern as an exact number `± significand · 2 ^ exponent`; `round` is the bit
pattern nearest to a ratio of natural numbers, a tie going to the even one. Products and quotients
are computed exactly and rounded once, so no step depends on the machine's own floating-point
unit.

Only `double` arithmetic on finite numbers is provided: what the readers need to turn scaled
integers and single-precision numbers into doubles.
-/

namespace Columnar

/-- The widths of the fraction and exponent fields of a binary interchange format. -/
structure BinaryFormat where
  fractionBits : Nat
  exponentBits : Nat

/-- What a bit pattern stands for. -/
inductive BinaryNumber where
  | nan
  | infinite (negative : Bool)
  /-- The number `significand · 2 ^ exponent`, negated if `negative`. -/
  | finite (negative : Bool) (significand : Nat) (exponent : Int)
  deriving DecidableEq, Repr

namespace BinaryFormat

/-- The 32-bit format. -/
def single : BinaryFormat := ⟨23, 8⟩

/-- The 64-bit format. -/
def double : BinaryFormat := ⟨52, 11⟩

variable (f : BinaryFormat)

/-- The exponent of the unit in the last place of the smallest numbers. -/
def leastExponent : Int := 2 - (Nat.pow 2 (f.exponentBits - 1) : Nat) - f.fractionBits

/-- The exponent field of infinities and NaNs. -/
def specialExponent : Nat := Nat.pow 2 f.exponentBits - 1

/-- The number a bit pattern stands for. -/
def decode (bits : Nat) : BinaryNumber :=
  let fraction := bits % Nat.pow 2 f.fractionBits
  let exponent := bits / Nat.pow 2 f.fractionBits % Nat.pow 2 f.exponentBits
  let negative := bits.testBit (f.fractionBits + f.exponentBits)
  if exponent = f.specialExponent then
    if fraction = 0 then .infinite negative else .nan
  else if exponent = 0 then .finite negative fraction f.leastExponent
  else .finite negative (Nat.pow 2 f.fractionBits + fraction) (f.leastExponent + exponent - 1)

/-- The bit of the sign, set for negative numbers. -/
def signBit (negative : Bool) : Nat :=
  if negative then Nat.pow 2 (f.fractionBits + f.exponentBits) else 0

end BinaryFormat

namespace Rounding

/-- The integer nearest to `num / den`, of two the even one. -/
def nearestEven (num den : Nat) : Nat :=
  let q := num / den
  let r := 2 * (num % den)
  if r < den then q else if den < r then q + 1 else q + q % 2

/-- The ratio `num / den · 2 ^ e` as numerator and denominator. -/
def scale (num den : Nat) (e : Int) : Nat × Nat :=
  if 0 ≤ e then (num * Nat.pow 2 e.toNat, den) else (num, den * Nat.pow 2 (-e).toNat)

end Rounding

namespace BinaryFormat

variable (f : BinaryFormat)

/-- The bits of the non-negative number nearest to `num / den`. -/
def round (num den : Nat) : Nat :=
  if num = 0 then 0
  else
    let magnitude : Int := (num.log2 : Int) - den.log2
    let (n, d) := Rounding.scale num den (-magnitude)
    let exponent := (if d ≤ n then magnitude else magnitude - 1) - f.fractionBits
    let unit := max exponent f.leastExponent
    let (n, d) := Rounding.scale num den (-unit)
    -- A carry out of the fraction field steps the exponent field, which is as it should be.
    let bits := (unit - f.leastExponent).toNat * Nat.pow 2 f.fractionBits + Rounding.nearestEven n d
    min bits (f.specialExponent * Nat.pow 2 f.fractionBits)

end BinaryFormat

namespace Double

/-- The bits of the double nearest to `± num / den`. -/
def ofRatio (negative : Bool) (num den : Nat) : UInt64 :=
  UInt64.ofNat (BinaryFormat.double.signBit negative + BinaryFormat.double.round num den)

/-- The double nearest to an integer. -/
def ofInt (n : Int) : UInt64 := ofRatio (n < 0) n.natAbs 1

/-- The pattern for "not a number". -/
def nan : UInt64 := 0x7ff8000000000000

/-- The pattern of an infinity. -/
def infinity (negative : Bool) : UInt64 :=
  UInt64.ofNat (BinaryFormat.double.signBit negative) + 0x7ff0000000000000

/-- The number nearest to `± significand · 2 ^ exponent`, with its special values. -/
def ofNumber : BinaryNumber → UInt64
  | .nan => nan
  | .infinite negative => infinity negative
  | .finite negative significand exponent =>
    let (num, den) := Rounding.scale significand 1 exponent
    ofRatio negative num den

/-- The double with the value of a single-precision number; it is exact. -/
def ofSingle (bits : UInt32) : UInt64 := ofNumber (BinaryFormat.single.decode bits.toNat)

/-- Whether the pattern stands for "not a number". -/
def isNaN (bits : UInt64) : Bool := BinaryFormat.double.decode bits.toNat == .nan

/-- The rounded product of two finite doubles, and "not a number" for all others. -/
def mul (a b : UInt64) : UInt64 :=
  match BinaryFormat.double.decode a.toNat, BinaryFormat.double.decode b.toNat with
  | .finite s m e, .finite s' m' e' => ofNumber (.finite (s != s') (m * m') (e + e'))
  | _, _ => nan

/-- The rounded quotient of two finite doubles, and "not a number" for all others. -/
def div (a b : UInt64) : UInt64 :=
  match BinaryFormat.double.decode a.toNat, BinaryFormat.double.decode b.toNat with
  | .finite s m e, .finite s' m' e' =>
    let (num, den) := Rounding.scale m m' (e - e')
    if m' = 0 then nan else ofRatio (s != s') num den
  | _, _ => nan

/-- The power `r · a ^ n` by repeated squaring, rounded at every product. -/
def powerBySquaring (r a : UInt64) (n : Nat) : UInt64 :=
  let r := if n % 2 = 1 then mul r a else r
  if n / 2 = 0 then r else powerBySquaring r (mul a a) (n / 2)
termination_by n

/-- The power of ten as a double, as repeated squaring rounds it. -/
def tenToThe (n : Nat) : UInt64 := powerBySquaring (ofInt 1) (ofInt 10) n

end Double

end Columnar
