import Columnar.Failure

/-!
# Windows

A `Window` is a run of consecutive rows of something that is never copied: the content, the first
row and the number of rows. Narrowing a window (`slice`) moves the two numbers and leaves the
content alone.
-/

namespace Columnar

/-- The rows `start, start + 1, …, start + len - 1` of `content`. -/
structure Window (α : Type) where
  content : α
  start : Nat
  len : Nat
  deriving DecidableEq

namespace Window

variable {α : Type}

/-- All of the first `len` rows. -/
def whole (content : α) (len : Nat) : Window α := ⟨content, 0, len⟩

/-- Refuses rows `offset, …, offset + count - 1` unless there are `len` rows or more. -/
def checkRange (len offset count : Nat) : Outcome Unit :=
  if offset + count ≤ len then .ok ()
  else .error <| .breach <| some
    s!"slice [{offset}, {offset} + {count}) out of bounds for vector of length {len}"

/-- The rows `offset, …, offset + count - 1` of the window; there have to be that many. -/
def slice (w : Window α) (offset count : Nat) : Outcome (Window α) := do
  checkRange w.len offset count
  return ⟨w.content, w.start + offset, count⟩

/-- Refuses row `i` unless it is one of `len` rows. -/
def checkRow (len i : Nat) : Outcome Unit := Outcome.require (i < len) (.argument .rowIndex)

theorem checkRow_of_lt {len i : Nat} (h : i < len) : checkRow len i = .ok () :=
  Outcome.require_eq_ok_iff.2 (decide_eq_true h)

theorem checkRange_eq_ok_iff {len offset count : Nat} :
    checkRange len offset count = .ok () ↔ offset + count ≤ len := by
  unfold checkRange; split <;> simp_all

theorem slice_of_le {w : Window α} {offset count : Nat} (h : offset + count ≤ w.len) :
    w.slice offset count = .ok ⟨w.content, w.start + offset, count⟩ := by
  simp [slice, checkRange_eq_ok_iff.2 h, bind, Except.bind, pure, Except.pure]

theorem slice_eq_ok_iff {w v : Window α} {offset count : Nat} :
    w.slice offset count = .ok v ↔
      offset + count ≤ w.len ∧ v = ⟨w.content, w.start + offset, count⟩ := by
  by_cases h : offset + count ≤ w.len
  · simp [slice_of_le h, h, eq_comm]
  · simp [slice, checkRange, h, bind, Except.bind]

end Window

end Columnar
