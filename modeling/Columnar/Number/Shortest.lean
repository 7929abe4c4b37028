import Columnar.Number.Binary

/-!
# Shortest decimal texts of floating-point numbers

A binary number is written with the fewest decimal digits that still round to it. The numbers that
round to it form an interval (`Reach`); the decimal grids `10 ^ k` are tried from coarse to fine,
and the first one with a point in the interval decides the number of digits. On that grid the
point nearest to the number is taken; `Tie` says which one if two are equally near.

How digits are laid out is a separate choice, made once for each place that writes numbers
(`FloatStyle`).
-/

namespace Columnar

/-- The number `d.ddd… · 10 ^ exponent` with the given digits; the last one is not zero. -/
structure Scientific where
  digits : List Char
  exponent : Int
  deriving DecidableEq, Repr

namespace Shortest

/-- Which of two equally near decimals is taken. -/
inductive Tie where
  | even
  | up
  deriving DecidableEq, Repr

/-- The numbers that round to a given one, all as multiples of `1 / den`: from `low` to `high`, the
ends included if `closed`. -/
structure Reach where
  low : Nat
  value : Nat
  high : Nat
  den : Nat
  closed : Bool

namespace Reach

/-- The reach of `significand · 2 ^ exponent`. It ends halfway to the neighbours, and the lower
neighbour of a power of two is only half as far away. -/
def of (f : BinaryFormat) (significand : Nat) (exponent : Int) : Reach :=
  let below := if significand = Nat.pow 2 f.fractionBits ∧ f.leastExponent < exponent then 1 else 2
  let (num, den) := Rounding.scale 1 1 (exponent - 2)
  ⟨(4 * significand - below) * num, 4 * significand * num, (4 * significand + 2) * num, den,
    significand % 2 = 0⟩

/-- Whether a multiple of `1 / den` is in reach. -/
def contains (r : Reach) (n : Nat) : Bool :=
  if r.closed then r.low ≤ n ∧ n ≤ r.high else r.low < n ∧ n < r.high

/-- The same interval in units of `1 / (s · den)`. -/
def refine (r : Reach) (s : Nat) : Reach :=
  ⟨r.low * s, r.value * s, r.high * s, r.den * s, r.closed⟩

/-- The multiple of `grid` in reach that is nearest to the value, as a multiple, if there is one. -/
def nearest? (r : Reach) (grid : Nat) (tie : Tie) : Option Nat :=
  let d := r.value / grid
  let down := r.value - d * grid
  let up := (d + 1) * grid - r.value
  match r.contains (d * grid), r.contains ((d + 1) * grid) with
  | true, true =>
    if down < up then some d
    else if up < down then some (d + 1)
    else match tie with
      | .even => some (d + d % 2)
      | .up => some (d + 1)
  | true, false => some d
  | false, true => some (d + 1)
  | false, false => none

/-- The nearest multiple of `10 ^ k` in reach, if there is one. -/
def onGrid? (r : Reach) (k : Int) (tie : Tie) : Option Nat :=
  if 0 ≤ k then r.nearest? (Nat.pow 10 k.toNat * r.den) tie
  else (r.refine (Nat.pow 10 (-k).toNat)).nearest? r.den tie

/-- An exponent `k` for which `10 ^ k` is at least as large as the value, up to a factor of ten. -/
def magnitude (r : Reach) : Int :=
  if r.den ≤ r.value then (Nat.toDigits 10 (r.value / r.den)).length
  else 1 - (Nat.toDigits 10 (r.den / r.value)).length

/-- The first of the grids `10 ^ k, 10 ^ (k - 1), …` with a point in reach. -/
def search (r : Reach) (tie : Tie) : Nat → Int → Nat × Int
  | 0, k => (0, k)
  | fuel + 1, k =>
    match r.onGrid? k tie with
    | some d => (d, k)
    | none => search r tie fuel (k - 1)

end Reach

/-- Drops the zeros at the end of `d`, which has the unit `10 ^ k`. -/
def normalize (d : Nat) (k : Int) : Scientific :=
  let digits := Nat.toDigits 10 d
  ⟨(digits.reverse.dropWhile (· == '0')).reverse, k + digits.length - 1⟩

end Shortest

/-- The shortest decimal that rounds to `significand · 2 ^ exponent`. A double has one of at most
seventeen digits, so the search does not run out of grids. -/
def Scientific.shortest (f : BinaryFormat) (tie : Shortest.Tie) (significand : Nat)
    (exponent : Int) : Scientific :=
  let reach := Shortest.Reach.of f significand exponent
  let (d, k) := reach.search tie 24 reach.magnitude
  Shortest.normalize d k

/-- How a floating-point number is written: `d.ddd · 10 ^ e` in positional notation if
`lowest ≤ e < highest`, otherwise with an exponent, which has a plus sign if it is positive and
`plusSign` is set. -/
structure FloatStyle where
  lowest : Int
  highest : Int
  plusSign : Bool
  tie : Shortest.Tie

namespace FloatStyle

/-- Lays out the digits of a positive number. -/
def layOut (style : FloatStyle) (s : Scientific) : String :=
  let digits := s.digits
  if style.lowest ≤ s.exponent ∧ s.exponent < style.highest then
    if s.exponent < 0 then
      "0." ++ String.ofList (List.replicate (-s.exponent - 1).toNat '0' ++ digits)
    else
      let whole := s.exponent.toNat + 1
      let fraction := digits.drop whole
      String.ofList (digits.take whole ++ List.replicate (whole - digits.length) '0') ++ "." ++
        if fraction.isEmpty then "0" else String.ofList fraction
  else
    let fraction := digits.drop 1
    String.ofList (digits.take 1) ++
      (if fraction.isEmpty then "" else "." ++ String.ofList fraction) ++ "e" ++
      (if style.plusSign ∧ 0 ≤ s.exponent then "+" else "") ++ toString s.exponent

/-- The text of a finite number of format `f`; zero is `0.0`. -/
def text (style : FloatStyle) (f : BinaryFormat) (negative : Bool) (significand : Nat)
    (exponent : Int) : String :=
  (if negative then "-" else "") ++
    if significand = 0 then "0.0"
    else style.layOut (Scientific.shortest f style.tie significand exponent)

end FloatStyle

end Columnar
