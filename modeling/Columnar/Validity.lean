import Columnar.Window

/-!
# Row validity

A bitmap says which rows hold a value: row `i` does if bit `i % 64` of word `i / 64` is set. A
column without a bitmap has no nulls, and rows past the end of a bitmap count as valid; it is for
the owner of the rows to check bounds. `Validity` is a window over a bitmap.

A bitmap is made of flags by `Bitmap.ofFlags`, and says of every row what its flag says
(`Bitmap.isValid_ofFlags`).
-/

namespace Columnar

/-- The validity words of a column, if it has any. -/
abbrev Bitmap := Option (Array UInt64)

namespace Bitmap

/-- Whether row `row` holds a value. -/
def isValid (words : Bitmap) (row : Nat) : Bool :=
  match words with
  | none => true
  | some words =>
    match words[row / 64]? with
    | none => true
    | some word => word.toNat.testBit (row % 64)

/-- The number of words that have a bit for each of `rows` rows. -/
def wordCount (rows : Nat) : Nat := (rows + 63) / 64

/-- Whether there is no bitmap, or one with a bit for each of `rows` rows. -/
def covers (words : Bitmap) (rows : Nat) : Bool :=
  match words with
  | none => true
  | some words => wordCount rows ≤ words.size

/-- The number whose bit `i` is flag `i`. -/
def packFlags : List Bool → Nat
  | [] => 0
  | flag :: rest => flag.toNat + 2 * packFlags rest

/-- The bitmap for the given flags, which is left out if all of them are set. -/
def ofFlags (flags : List Bool) : Bitmap :=
  if flags.all id then none
  else
    let all := flags.toArray
    some <| Array.ofFn fun w : Fin (wordCount all.size) ↦
      UInt64.ofNat (packFlags (all.extract (64 * w) (64 * w + 64)).toList)

@[simp] theorem isValid_none (row : Nat) : isValid none row = true := rfl

theorem isValid_some {words : Array UInt64} {row : Nat} :
    isValid (some words) row = (words[row / 64]?.map (·.toNat.testBit (row % 64))).getD true := by
  simp only [isValid]; cases words[row / 64]? <;> rfl

theorem testBit_packFlags (flags : List Bool) (i : Nat) :
    (packFlags flags).testBit i = flags[i]?.getD false := by
  induction flags generalizing i with
  | nil => simp [packFlags]
  | cons flag rest ih =>
    cases i with
    | zero =>
      have : (flag.toNat + 2 * packFlags rest) % 2 = flag.toNat := by
        have := flag.toNat_le
        omega
      cases flag <;> simp_all [packFlags, Nat.testBit_zero]
    | succ i =>
      have : (flag.toNat + 2 * packFlags rest) / 2 = packFlags rest := by
        have := flag.toNat_le
        omega
      simp [packFlags, Nat.testBit_succ, this, ih]

/-- The bitmap says of every row what its flag says. -/
theorem isValid_ofFlags {flags : List Bool} {i : Nat} (h : i < flags.length) :
    (ofFlags flags).isValid i = flags[i] := by
  rw [ofFlags]
  split
  next hall =>
    have : id flags[i] = true := List.all_eq_true.1 hall _ (List.getElem_mem h)
    simpa using this.symm
  next =>
    have hword : i / 64 < wordCount flags.toArray.size := by unfold wordCount; simp; omega
    have hi : 64 * (i / 64) + i % 64 = i := by omega
    have hmod : i % 64 < 64 := Nat.mod_lt _ (by decide)
    rw [isValid_some, Array.getElem?_ofFn, dif_pos hword]
    simp only [Option.map_some, Option.getD_some]
    have hget : (flags.toArray.extract (64 * (i / 64)) (64 * (i / 64) + 64)).toList[i % 64]? =
        some flags[i] := by
      rw [Array.getElem?_toList, Array.getElem?_extract_of_lt (by simp; omega)]
      simp [hi]
    rw [UInt64.toNat_ofNat', Nat.testBit_mod_two_pow, testBit_packFlags, hget, Option.getD_some,
      decide_eq_true hmod, Bool.true_and]

theorem covers_ofFlags (flags : List Bool) : (ofFlags flags).covers flags.length = true := by
  rw [ofFlags]
  split <;> simp [covers]

end Bitmap

/-- The validity of a run of rows. -/
abbrev Validity := Window Bitmap

namespace Validity

/-- Whether row `i` of the window holds a value. -/
def isValid (v : Validity) (i : Nat) : Bool := v.content.isValid (v.start + i)

/-- Whether row `i` of the window is null. -/
def isNull (v : Validity) (i : Nat) : Bool := !v.isValid i

/-- Whether no row can be null, for want of a bitmap. -/
def isTrivial (v : Validity) : Bool := v.content.isNone

/-- The number of null rows. -/
def countNulls (v : Validity) : Nat := (List.range v.len).countP v.isNull

/-- The number of rows that hold a value. -/
def countNonNulls (v : Validity) : Nat := v.len - v.countNulls

/-- Rows `offset, …, offset + count - 1` of the window; there have to be that many. -/
def slice (v : Validity) (offset count : Nat) : Outcome Validity := do
  Outcome.assert (offset + count ≤ v.len)
  return ⟨v.content, v.start + offset, count⟩

theorem countNulls_le (v : Validity) : v.countNulls ≤ v.len := by
  simpa [countNulls] using List.countP_le_length (p := v.isNull) (l := List.range v.len)

theorem isValid_slice {v w : Validity} {offset count : Nat} (h : v.slice offset count = .ok w)
    (i : Nat) : w.isValid i = v.isValid (offset + i) := by
  by_cases hle : offset + count ≤ v.len
  · simp [slice, Outcome.assert, hle, bind, Except.bind, pure, Except.pure] at h
    simp [← h, isValid, Nat.add_assoc]
  · simp [slice, Outcome.assert, Outcome.broken, hle, bind, Except.bind] at h

end Validity

end Columnar
