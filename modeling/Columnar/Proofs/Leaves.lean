import Columnar.LittleEndian.Lemmas
import Columnar.Proofs.Outcome
import Columnar.Value.Basic

/-!
# Values of leaves

Which values a leaf of a kind can have (`FixedKind.Admits`, `StringKind.Admits`), and that decoding
gives no others. The bounds are those of the bytes: a signed number of `width` bytes is
in `SignedRange width`, and an integer is in the range of its kind.
-/

namespace Columnar

/-- The numbers that `width` bytes hold in two's complement. -/
def SignedRange (width : Nat) (n : Int) : Prop :=
  -(Nat.pow 2 (8 * width - 1) : Nat) ≤ n ∧ n < (Nat.pow 2 (8 * width - 1) : Nat)

instance (width : Nat) (n : Int) : Decidable (SignedRange width n) :=
  inferInstanceAs (Decidable (_ ∧ _))

theorem pow_256_eq {width : Nat} (h : 0 < width) : 256 ^ width = 2 * 2 ^ (8 * width - 1) := by
  rw [← Nat.pow_succ', show (256 : Nat) = 2 ^ 8 from rfl, ← Nat.pow_mul]
  congr 1
  omega

namespace LittleEndian

theorem signedRange_toInt {bytes : List UInt8} {width : Nat} (hwidth : 0 < width)
    (hlen : bytes.length = width) : SignedRange width (toInt bytes) := by
  have hpow := pow_256_eq hwidth
  have hpos : 0 < 256 ^ width := Nat.pow_pos (by decide)
  have hle := Int.le_bmod (x := toNat bytes) hpos
  have hlt := Int.bmod_lt (x := toNat bytes) hpos
  rw [toInt_eq, hlen]
  show -((2 ^ (8 * width - 1) : Nat) : Int) ≤ _ ∧ _ < ((2 ^ (8 * width - 1) : Nat) : Int)
  omega

/-- A number in range is read as it was written. -/
theorem toInt_ofInt_of_signedRange {width : Nat} {n : Int} (hwidth : 0 < width)
    (h : SignedRange width n) : toInt (ofInt width n) = n := by
  have hpow := pow_256_eq hwidth
  obtain ⟨hle, hlt⟩ : -((2 ^ (8 * width - 1) : Nat) : Int) ≤ n ∧
    n < ((2 ^ (8 * width - 1) : Nat) : Int) := h
  rw [toInt_ofInt]
  exact Int.bmod_eq_of_le (by omega) (by omega)

end LittleEndian

open LittleEndian

/-! ### Integers and points in time -/

theorem IntegerKind.width_pos (kind : IntegerKind) : 0 < kind.width :=
  FixedKind.width_pos (.integer kind)

theorem TemporalKind.width_pos (kind : TemporalKind) : 0 < kind.width :=
  FixedKind.width_pos (.temporal kind)

/-- No value of a fixed width takes more than sixteen bytes. -/
theorem FixedKind.width_le (kind : FixedKind) : kind.width ≤ 16 := by
  cases kind with
  | integer kind => cases kind <;> decide
  | temporal kind => cases kind <;> decide
  | _ => decide

theorem DecimalType.eq_of_physicalWidth {t : DecimalType} {width : Nat}
    (h : t.physicalWidth? = some width) : width = 2 ∨ width = 4 ∨ width = 8 ∨ width = 16 := by
  rw [physicalWidth?] at h
  split_ifs at h <;> simp_all

theorem DecimalType.pos_of_physicalWidth {t : DecimalType} {width : Nat}
    (h : t.physicalWidth? = some width) : 0 < width := by
  have := eq_of_physicalWidth h
  omega

theorem DecimalType.le_of_physicalWidth {t : DecimalType} {width : Nat}
    (h : t.physicalWidth? = some width) : width ≤ 16 := by
  have := eq_of_physicalWidth h
  omega

theorem IntegerKind.contains_iff_of_signed {kind : IntegerKind} {n : Int} (h : kind.isSigned = true) :
    kind.Contains n ↔ SignedRange kind.width n := by
  simp [Contains, least, bound, h, SignedRange]

theorem IntegerKind.contains_iff_of_unsigned {kind : IntegerKind} {n : Int}
    (h : kind.isSigned = false) : kind.Contains n ↔ 0 ≤ n ∧ n < (256 ^ kind.width : Nat) := by
  have hpow : Nat.pow 2 (8 * kind.width) = 256 ^ kind.width := by
    rw [show (256 : Nat) = 2 ^ 8 from rfl, ← Nat.pow_mul]
    rfl
  simp [Contains, least, bound, h, ← hpow]

theorem IntegerKind.contains_decode {kind : IntegerKind} {bytes : List UInt8}
    (h : bytes.length = kind.width) :
    kind.Contains (if kind.isSigned then toInt bytes else (toNat bytes : Int)) := by
  split
  next hsigned =>
    exact (contains_iff_of_signed hsigned).2 (signedRange_toInt kind.width_pos h)
  next hsigned =>
    have hlt := toNat_lt bytes
    rw [h] at hlt
    exact (contains_iff_of_unsigned (by simpa using hsigned)).2 ⟨by omega, by omega⟩

/-! ### Times with a zone -/

/-- The time fits its 40 bits, and the offset is one of those that 24 bits tell apart. -/
def TimeTz.IsPacked (t : TimeTz) : Prop :=
  t.micros.toNat < 2 ^ 40 ∧ (maxOffset : Int) - offsetCount < t.offsetSeconds.toInt ∧
    t.offsetSeconds.toInt ≤ maxOffset

theorem TimeTz.toNat_micros_ofBits (bits : UInt64) :
    (ofBits bits).micros.toNat = bits.toNat / offsetCount := by
  have hbits := bits.toNat_lt
  rw [ofBits]
  exact UInt64.toNat_ofNat_of_lt' (by simp only [offsetCount, UInt64.size]; omega)

theorem TimeTz.toInt_offsetSeconds_ofBits (bits : UInt64) :
    (ofBits bits).offsetSeconds.toInt = maxOffset - (bits.toNat % offsetCount : Nat) := by
  have hmod : bits.toNat % offsetCount < offsetCount := Nat.mod_lt _ (by decide)
  simp only [ofBits, maxOffset, offsetCount] at hmod ⊢
  exact Int32.toInt_ofInt_of_le (by omega) (by omega)

theorem TimeTz.isPacked_ofBits (bits : UInt64) : (ofBits bits).IsPacked := by
  have hbits := bits.toNat_lt
  have hmod : bits.toNat % offsetCount < offsetCount := Nat.mod_lt _ (by decide)
  refine ⟨?_, ?_, ?_⟩
  · rw [toNat_micros_ofBits, offsetCount]
    omega
  · rw [toInt_offsetSeconds_ofBits]
    omega
  · rw [toInt_offsetSeconds_ofBits]
    omega

/-! ### Leaves -/

/-- The values that leaves of a fixed width have, apart from null. -/
def FixedKind.Admits : FixedKind → Value → Prop
  | .boolean, .boolean _ => True
  | .integer kind, .integer kind' n => kind' = kind ∧ kind.Contains n
  | .float, .float _ => True
  | .double, .double _ => True
  | .temporal kind, .temporal kind' n => kind' = kind ∧ SignedRange kind.width n
  | .timeTz, .timeTz t => t.IsPacked
  | .interval, .interval i =>
    SignedRange 4 i.months ∧ SignedRange 4 i.days ∧ SignedRange 8 i.micros
  | .uuid, .uuid _ => True
  | _, _ => False

/-- The values that strings of a kind have, apart from null. -/
def StringKind.Admits : StringKind → Value → Prop
  | .varchar, .varchar _ => True
  | .blob, .blob _ => True
  | .bit, .bit _ => True
  | _, _ => False

/-- A slot that is wide enough holds a value of its kind. -/
theorem FixedKind.admits_decode (kind : FixedKind) {slot : List UInt8}
    (h : kind.width ≤ slot.length) : kind.Admits (kind.decode slot) := by
  have hlen : (slot.take kind.width).length = kind.width :=
    List.length_take_of_le h
  cases kind with
  | integer kind => exact ⟨rfl, IntegerKind.contains_decode hlen⟩
  | temporal kind => exact ⟨rfl, signedRange_toInt kind.width_pos hlen⟩
  | timeTz => exact TimeTz.isPacked_ofBits _
  | interval =>
    have hlen : (slot.take FixedKind.interval.width).length = 16 := hlen
    refine ⟨signedRange_toInt (by decide) ?_, signedRange_toInt (by decide) ?_,
      signedRange_toInt (by decide) ?_⟩
    · rw [List.length_take, hlen]; rfl
    · rw [List.length_take, List.length_drop, hlen]; rfl
    · rw [List.length_take, List.length_drop, hlen]; rfl
  | _ => exact trivial

theorem StringKind.admits_of_decode_eq_ok {kind : StringKind} {row : Nat} {bytes : List UInt8}
    {v : Value} (h : kind.decode row bytes = .ok v) : kind.Admits v := by
  cases kind with
  | varchar =>
    obtain ⟨s, -, rfl⟩ := map_eq_ok_iff.1 h
    exact trivial
  | blob => exact Except.ok.inj h ▸ trivial
  | bit =>
    obtain ⟨b, -, rfl⟩ := map_eq_ok_iff.1 h
    exact trivial

end Columnar
