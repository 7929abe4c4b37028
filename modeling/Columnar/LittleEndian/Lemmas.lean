import Mathlib.Algebra.Group.Nat.Defs
import Mathlib.Algebra.Group.Int.Defs
import Columnar.LittleEndian

/-!
# Laws of little-endian numbers

Byte strings of a width and the numbers below a power of 256 are in bijection: `toNat_lt` bounds
what is read, and `toNat_ofNat` says that writing keeps a number up to that power. Two's
complement reading inherits both laws, with the residue nearest to zero (`toInt_ofInt`,
`ofInt_toInt`).
-/

namespace Columnar.LittleEndian

theorem toNat_lt (bytes : List UInt8) : toNat bytes < 256 ^ bytes.length := by
  induction bytes with
  | nil => simp [toNat]
  | cons byte rest ih =>
    have := byte.toNat_lt
    simp only [toNat, List.length_cons, Nat.pow_succ]
    omega

theorem toNat_ofNat (width n : Nat) : toNat (ofNat width n) = n % 256 ^ width := by
  induction width generalizing n with
  | zero => simp [toNat, ofNat, Nat.mod_one]
  | succ width ih =>
    simp only [toNat, ofNat, ih, UInt8.toNat_ofNat']
    rw [show 256 ^ (width + 1) = 256 * 256 ^ width from Nat.pow_succ', Nat.mod_mul]

theorem toNat_append (as bs : List UInt8) :
    toNat (as ++ bs) = toNat as + 256 ^ as.length * toNat bs := by
  induction as with
  | nil => simp [toNat]
  | cons a as ih =>
    rw [List.cons_append, toNat, ih, toNat, List.length_cons, Nat.pow_succ', Nat.mul_add,
      Nat.mul_assoc, Nat.add_assoc]

theorem ofNat_add (m n number : Nat) :
    ofNat (m + n) number = ofNat m number ++ ofNat n (number / 256 ^ m) := by
  induction m generalizing number with
  | zero => simp [ofNat]
  | succ m ih =>
    rw [Nat.succ_add, ofNat, ih, ofNat, List.cons_append, Nat.div_div_eq_div_mul, Nat.pow_succ']

/-- Only the lowest bytes are written. -/
theorem ofNat_mod (width n : Nat) : ofNat width (n % 256 ^ width) = ofNat width n := by
  have h := ofNat_toNat (ofNat width n)
  rwa [length_ofNat, toNat_ofNat] at h

/-- A number that fits the width is read as it was written. -/
theorem toNat_ofNat_of_lt {width n : Nat} (h : n < 256 ^ width) : toNat (ofNat width n) = n := by
  rw [toNat_ofNat, Nat.mod_eq_of_lt h]

theorem toInt_eq (bytes : List UInt8) :
    toInt bytes = (toNat bytes : Int).bmod (256 ^ bytes.length) := rfl

theorem ofInt_eq (width : Nat) (n : Int) :
    ofInt width n = ofNat width (n % (256 ^ width : Nat)).toNat := rfl

theorem toInt_ofInt (width : Nat) (n : Int) : toInt (ofInt width n) = n.bmod (256 ^ width) := by
  have hpos : (0 : Int) < (256 ^ width : Nat) := by exact_mod_cast Nat.pow_pos (by decide)
  have hnonneg := Int.emod_nonneg n (Int.ne_of_gt hpos)
  have hlt := Int.emod_lt_of_pos n hpos
  rw [toInt_eq, length_ofInt, ofInt_eq, toNat_ofNat_of_lt (by omega), Int.toNat_of_nonneg hnonneg,
    Int.emod_bmod]

theorem ofInt_toInt (bytes : List UInt8) : ofInt bytes.length (toInt bytes) = bytes := by
  have hlt := toNat_lt bytes
  rw [ofInt_eq, toInt_eq, Int.bmod_emod, ← Int.natCast_emod, Int.toNat_natCast,
    Nat.mod_eq_of_lt hlt, ofNat_toNat]

end Columnar.LittleEndian
