import Mathlib.Data.Finset.Card
import Mathlib.Data.Finset.Range
import Columnar.Proofs.Outcome
import Columnar.Validity

/-!
# Windows over bitmaps

Every reader asks a window over a bitmap whether a row is null, and the window it asks has been
narrowed any number of times. Narrowing adds up: after a chain of ranges the window starts at the
sum of their offsets (`Validity.sliceAll_eq_ok_iff`), so row `i` of it has bit `(sum + i) % 64` of
word `(sum + i) / 64`, across the ends of words, and past the end of the bitmap it holds a value
(`Bitmap.Marks`). The rows of the last window are among those of the first
(`Validity.InRange.totalOffset_add_le`), so no row number is larger than the rows there are.

Nulls are counted row by row, so the counts of two windows side by side add up to the count of the
window that they make (`Validity.countNulls_split`).
-/

namespace Columnar

/-! ### Bits -/

namespace Bitmap

/-- What makes row `row` hold a value: there is no bitmap, or the bit of the row is set, or the
bitmap ends before the word of the row. -/
inductive Marks (words : Bitmap) (row : Nat) : Prop where
  | absent (h : words = none)
  | bit {all : Array UInt64} {word : UInt64} (h : words = some all)
    (hword : all[row / 64]? = some word) (hbit : (word >>> UInt64.ofNat (row % 64)) &&& 1 = 1)
  | past {all : Array UInt64} (h : words = some all) (hpast : all.size ≤ row / 64)

/-- A bit of a word is the last one, once the bits behind it have been shifted out. -/
theorem shiftRight_and_one_eq_one_iff {word : UInt64} {i : Nat} (hi : i < 64) :
    (word >>> UInt64.ofNat i) &&& 1 = 1 ↔ word.toNat.testBit i = true := by
  have hshift : (UInt64.ofNat i).toNat = i :=
    UInt64.toNat_ofNat_of_lt' (Nat.lt_trans hi (by decide))
  rw [← UInt64.toNat_inj, UInt64.toNat_and, UInt64.toNat_shiftRight, hshift, Nat.mod_eq_of_lt hi]
  simp [Nat.testBit, Nat.and_comm]

theorem isValid_iff_marks {words : Bitmap} {row : Nat} :
    words.isValid row = true ↔ words.Marks row := by
  have hmod : row % 64 < 64 := Nat.mod_lt _ (by decide)
  constructor
  · intro h
    cases words with
    | none => exact .absent rfl
    | some all =>
      cases hword : all[row / 64]? with
      | none => exact .past rfl (Array.getElem?_eq_none_iff.1 hword)
      | some word =>
        rw [isValid_some, hword] at h
        exact .bit rfl hword ((shiftRight_and_one_eq_one_iff hmod).2 h)
  · rintro (rfl | ⟨rfl, hword, hbit⟩ | ⟨rfl, hpast⟩)
    · rfl
    · rw [isValid_some, hword]
      exact (shiftRight_and_one_eq_one_iff hmod).1 hbit
    · rw [isValid_some, Array.getElem?_eq_none hpast]
      rfl

end Bitmap

namespace Validity

variable {v w : Validity} {len : Nat} {ranges : List (Nat × Nat)}

/-! ### Chains of ranges -/

/-- The window narrowed to one range after the other, each an offset and a number of rows. -/
def sliceAll (v : Validity) (ranges : List (Nat × Nat)) : Outcome Validity :=
  ranges.foldlM (fun w range ↦ Validity.slice w range.1 range.2) v

/-- Each range lies within the rows that are left by the one before it, and the first one within
`len` rows. -/
def InRange : Nat → List (Nat × Nat) → Prop
  | _, [] => True
  | len, (offset, count) :: rest => offset + count ≤ len ∧ InRange count rest

/-- The sum of the offsets. -/
def totalOffset : List (Nat × Nat) → Nat
  | [] => 0
  | (offset, _) :: rest => offset + totalOffset rest

/-- The number of rows that are left of `len` rows. -/
def rowsLeft : Nat → List (Nat × Nat) → Nat
  | len, [] => len
  | _, (_, count) :: rest => rowsLeft count rest

theorem slice_eq_ok_iff {offset count : Nat} : Validity.slice v offset count = .ok w ↔
    offset + count ≤ v.len ∧ w = ⟨v.content, v.start + offset, count⟩ := by
  by_cases h : offset + count ≤ v.len
  · simp [slice, Outcome.assert, h, eq_comm]
  · simp [slice, Outcome.assert, Outcome.broken, h, bind, Except.bind]

/-- A chain has a window exactly if its ranges lie within each other, and then it starts at the sum
of the offsets. The induction is on the chain; the window that it starts from moves along. -/
theorem sliceAll_eq_ok_iff : v.sliceAll ranges = .ok w ↔
    InRange v.len ranges ∧
      w = ⟨v.content, v.start + totalOffset ranges, rowsLeft v.len ranges⟩ := by
  induction ranges generalizing v with
  | nil => simp [sliceAll, InRange, totalOffset, rowsLeft, eq_comm]
  | cons range rest ih =>
    obtain ⟨offset, count⟩ := range
    change (Validity.slice v offset count >>= fun u ↦ u.sliceAll rest) = .ok w ↔ _
    simp only [bind_eq_ok_iff, slice_eq_ok_iff, ih]
    constructor
    · rintro ⟨_, ⟨hle, rfl⟩, hrest, rfl⟩
      exact ⟨⟨hle, hrest⟩, by simp [totalOffset, rowsLeft, Nat.add_assoc]⟩
    · rintro ⟨⟨hle, hrest⟩, rfl⟩
      exact ⟨_, ⟨hle, rfl⟩, hrest, by simp [totalOffset, rowsLeft, Nat.add_assoc]⟩

/-- All rows that are left are among the rows at the start. -/
theorem InRange.totalOffset_add_le (h : InRange len ranges) :
    totalOffset ranges + rowsLeft len ranges ≤ len := by
  induction ranges generalizing len with
  | nil => simp [totalOffset, rowsLeft]
  | cons range rest ih =>
    have hrest := ih h.2
    have hfirst := h.1
    simp only [totalOffset, rowsLeft]
    omega

/-! ### Counts -/

theorem countNulls_eq_card (v : Validity) :
    v.countNulls = (Finset.range v.len |>.filter fun i ↦ v.isValid i = false).card := by
  have hnull : v.isNull = fun i ↦ decide (v.isValid i = false) := by
    funext i
    simp [isNull]
  rw [countNulls, List.countP_eq_length_filter, hnull]
  rfl

theorem countNulls_add_countNonNulls (v : Validity) : v.countNulls + v.countNonNulls = v.len :=
  Nat.add_sub_cancel' v.countNulls_le

/-- The nulls of the first `k` rows and those of the rows behind them are all there are. -/
theorem countNulls_split {front back : Validity} {k : Nat} (hk : k ≤ v.len)
    (hfront : Validity.slice v 0 k = .ok front)
    (hback : Validity.slice v k (v.len - k) = .ok back) :
    front.countNulls + back.countNulls = v.countNulls := by
  have hleft : ∀ i, front.isNull i = v.isNull i := fun i ↦ by
    rw [isNull, isValid_slice hfront, Nat.zero_add, isNull]
  have hright : ∀ i, back.isNull i = v.isNull (k + i) := fun i ↦ by
    rw [isNull, isValid_slice hback, isNull]
  obtain ⟨-, rfl⟩ := slice_eq_ok_iff.1 hfront
  obtain ⟨-, rfl⟩ := slice_eq_ok_iff.1 hback
  have hrows : List.range v.len = List.range k ++ (List.range (v.len - k)).map (k + ·) := by
    rw [← List.range_add, Nat.add_sub_cancel' hk]
  rw [countNulls, countNulls, countNulls, hrows, List.countP_append, List.countP_map]
  exact congrArg₂ _ (List.countP_congr fun i _ ↦ by rw [hleft])
    (List.countP_congr fun i _ ↦ by rw [hright, Function.comp_apply])

theorem countNonNulls_split {front back : Validity} {k : Nat} (hk : k ≤ v.len)
    (hfront : Validity.slice v 0 k = .ok front)
    (hback : Validity.slice v k (v.len - k) = .ok back) :
    front.countNonNulls + back.countNonNulls = v.countNonNulls := by
  have hnulls := countNulls_split hk hfront hback
  have hf := front.countNulls_add_countNonNulls
  have hb := back.countNulls_add_countNonNulls
  have hv := v.countNulls_add_countNonNulls
  have hlen : front.len + back.len = v.len := by
    rw [(slice_eq_ok_iff.1 hfront).2, (slice_eq_ok_iff.1 hback).2]
    exact Nat.add_sub_cancel' hk
  omega

/-! ### Windows as they are read -/

/-- A window that is left by ranges that lie within each other has in row `i` the bit of the row at
the sum of the offsets and `i`, which is a row of the first window. Its null rows and the others are
all its rows, and wherever it is cut in two, the counts of the parts add up to its own. -/
theorem sliceAll_marks (words : Bitmap) (h : InRange len ranges) :
    ∃ w, Validity.sliceAll (Window.whole words len) ranges = .ok w ∧ w.len = rowsLeft len ranges ∧
      totalOffset ranges + w.len ≤ len ∧
      (∀ i < w.len, w.isValid i = true ↔ words.Marks (totalOffset ranges + i)) ∧
      w.countNulls = (Finset.range w.len |>.filter fun i ↦ w.isValid i = false).card ∧
      w.countNulls + w.countNonNulls = w.len ∧
      ∀ k ≤ w.len, ∃ front back, Validity.slice w 0 k = .ok front ∧
        Validity.slice w k (w.len - k) = .ok back ∧
        front.countNulls + back.countNulls = w.countNulls ∧
        front.countNonNulls + back.countNonNulls = w.countNonNulls := by
  obtain ⟨w, hw⟩ : ∃ w, Validity.sliceAll (Window.whole words len) ranges = .ok w :=
    ⟨_, sliceAll_eq_ok_iff.2 ⟨h, rfl⟩⟩
  obtain ⟨-, rfl⟩ := sliceAll_eq_ok_iff.1 hw
  refine ⟨_, hw, rfl, h.totalOffset_add_le, fun i _ ↦ ?_, countNulls_eq_card _,
    countNulls_add_countNonNulls _, fun k hk ↦ ?_⟩
  · rw [isValid, Bitmap.isValid_iff_marks]
    simp [Window.whole]
  · have hfront := slice_eq_ok_iff.2 ⟨(Nat.zero_add k).le.trans hk, rfl⟩
    have hback := slice_eq_ok_iff.2 ⟨(Nat.add_sub_cancel' hk).le, rfl⟩
    exact ⟨_, _, hfront, hback, countNulls_split hk hfront hback,
      countNonNulls_split hk hfront hback⟩

/-- Bits for 128 rows, of which rows 1, 63 and 64 are null. -/
def boundaryNulls : Bitmap := some #[0x7ffffffffffffffd, 0xfffffffffffffffe]

/-- A window from the last row of the first word on, and past the end of the bitmap. -/
theorem boundaryNulls_marks : InRange 200 [(60, 140), (3, 70)] ∧
    ∃ w, Validity.sliceAll (Window.whole boundaryNulls 200) [(60, 140), (3, 70)] = .ok w ∧
      ¬ boundaryNulls.Marks 63 ∧ ¬ boundaryNulls.Marks 64 ∧ boundaryNulls.Marks 65 ∧
      boundaryNulls.Marks 132 ∧ w.countNulls = 2 ∧ w.countNonNulls = 68 ∧
      ∃ front back, Validity.slice w 0 1 = .ok front ∧ Validity.slice w 1 69 = .ok back ∧
        front.countNulls + back.countNulls = 2 := by
  have hrange : InRange 200 [(60, 140), (3, 70)] := by simp [InRange]
  obtain ⟨w, hw, -, -, hmarks, -, hsum, hsplit⟩ := sliceAll_marks boundaryNulls hrange
  obtain rfl : w = ⟨boundaryNulls, 63, 70⟩ := Except.ok.inj (hw.symm.trans rfl)
  have hnulls : Validity.countNulls ⟨boundaryNulls, 63, 70⟩ = 2 := by decide
  obtain ⟨front, back, hfront, hback, hcounts, -⟩ := hsplit 1 (by decide)
  refine ⟨hrange, _, hw, mt (hmarks 0 (by decide)).2 (by decide),
    mt (hmarks 1 (by decide)).2 (by decide), (hmarks 2 (by decide)).1 (by decide),
    (hmarks 69 (by decide)).1 (by decide), hnulls, ?_, front, back, hfront, hback,
    hcounts.trans hnulls⟩
  rw [hnulls] at hsum
  exact Nat.add_left_cancel hsum

end Validity

end Columnar
