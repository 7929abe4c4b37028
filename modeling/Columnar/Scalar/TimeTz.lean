import Columnar.Text.Digits

/-!
# Time of day with time zone

A time of day together with the offset from UTC it was recorded in, packed into 64 bits: the upper
40 hold the microseconds and the lower 24 the offset, counted down from its maximum so that larger
patterns mean more negative offsets. `ofBits` takes every pattern apart; `toBits?` packs whatever
fits, and has no answer where the distance to the maximal offset is no 32-bit number.
-/

namespace Columnar

/-- Microseconds since midnight, and seconds east of UTC. -/
structure TimeTz where
  micros : UInt64
  offsetSeconds : Int32
  deriving DecidableEq, Repr

namespace TimeTz

/-- The largest offset from UTC, `15:59:59`. -/
def maxOffset : Nat := 16 * 60 * 60 - 1

/-- The number of different offsets that are kept. -/
def offsetCount : Nat := 0x1000000

/-- Unpacks a pattern. -/
def ofBits (bits : UInt64) : TimeTz where
  micros := UInt64.ofNat (bits.toNat / offsetCount)
  offsetSeconds := Int32.ofInt (maxOffset - (bits.toNat % offsetCount : Nat))

/-- Packs a value. Microseconds from `2 ^ 40` on lose their upper bits, and of the distance to the
maximal offset the lowest 24 bits are kept. -/
def toBits? (t : TimeTz) : Option UInt64 :=
  let distance : Int := maxOffset - t.offsetSeconds.toInt
  if distance ≤ Int32.maxValue.toInt then
    some (UInt64.ofNat (t.micros.toNat * offsetCount + (distance % offsetCount).toNat))
  else none

/-- The text of the time: hours, minutes and seconds, and microseconds unless there are none. -/
def timeText (micros : Nat) : String :=
  let seconds := micros / 1000000
  let fraction := micros % 1000000
  Text.Digits.padded 2 (seconds / 3600) ++ ":" ++ Text.Digits.padded 2 (seconds / 60 % 60) ++ ":" ++
    Text.Digits.padded 2 (seconds % 60) ++
    if fraction = 0 then "" else "." ++ Text.Digits.padded 6 fraction

/-- The text of an offset: sign and hours, minutes unless the offset is whole hours, and seconds
unless it is whole minutes. -/
def offsetText (offset : Int) : String :=
  let seconds := offset.natAbs
  (if offset < 0 then "-" else "+") ++ Text.Digits.padded 2 (seconds / 3600) ++
    (if seconds % 3600 = 0 then "" else ":" ++ Text.Digits.padded 2 (seconds / 60 % 60)) ++
    if seconds % 60 = 0 then "" else ":" ++ Text.Digits.padded 2 (seconds % 60)

/-- The text of a value: the time, then the offset. -/
def text (t : TimeTz) : String := timeText t.micros.toNat ++ offsetText t.offsetSeconds.toInt

end TimeTz

end Columnar
