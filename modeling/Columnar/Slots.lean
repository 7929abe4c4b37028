import Columnar.Validity

/-!
# Fixed-width slots

The data buffer of a column with values of one width, next to its bitmap. A row is read through a
window: a row outside of it, or a slot outside of the buffer, breaks the reading off, and a null row
has no slot.
-/

namespace Columnar

/-- A buffer cut into slots of `width` bytes, with the validity of the rows. -/
structure Slots where
  data : Array UInt8
  width : Nat
  words : Bitmap
  deriving DecidableEq

namespace Slots

/-- The bytes of slot `row`; the buffer has to have them all. -/
def slot (s : Slots) (row : Nat) : Outcome (List UInt8) := do
  Outcome.assert (row * s.width + s.width ≤ s.data.size)
  return (s.data.extract (row * s.width) (row * s.width + s.width)).toList

/-- The slot of row `i` of the window of `len` rows from `start` on, or `none` if the row is null.
The row has to be in the window. -/
def get (s : Slots) (start len i : Nat) : Outcome (Option (List UInt8)) := do
  Outcome.assert (i < len)
  if s.words.isValid (start + i) then return some (← s.slot (start + i)) else return none

/-- The slots of `len` rows at the start of a buffer that has to hold them. The width must be no
less than that of a value. -/
def ofBuffer (data : Array UInt8) (width valueWidth : Nat) (words : Bitmap) (len : Nat) :
    Outcome (Window Slots) := do
  Outcome.assert (valueWidth ≤ width)
  Outcome.assert (len * width ≤ data.size)
  return Window.whole ⟨data, width, words⟩ len

end Slots

/-- A run of rows of a buffer of slots. -/
abbrev SlotWindow := Window Slots

namespace SlotWindow

/-- The slot of row `i`, or `none` if the row is null. -/
def get (w : SlotWindow) (i : Nat) : Outcome (Option (List UInt8)) := w.content.get w.start w.len i

/-- The validity of the rows. -/
def validity (w : SlotWindow) : Validity := ⟨w.content.words, w.start, w.len⟩

/-- The bytes of all rows. -/
def data (w : SlotWindow) : List UInt8 :=
  (w.content.data.extract (w.start * w.content.width) ((w.start + w.len) * w.content.width)).toList

end SlotWindow

end Columnar
