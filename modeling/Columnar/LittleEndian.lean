/-!
# Little-endian numbers

Numbers as fixed-length byte strings, least significant byte first, and their two's complement
reading. Writing the number of a byte string gives back the byte string (`ofNat_toNat`); the other
laws are about powers of 256 and stand in `LittleEndian.Lemmas`.
-/

namespace Columnar.LittleEndian

/-- The number that `bytes` spell. -/
def toNat : List UInt8 → Nat
  | [] => 0
  | byte :: rest => byte.toNat + 256 * toNat rest

/-- The lowest `width` bytes of `n`. -/
def ofNat : Nat → Nat → List UInt8
  | 0, _ => []
  | width + 1, n => UInt8.ofNat n :: ofNat width (n / 256)

/-- The two's complement reading of `bytes`. -/
def toInt (bytes : List UInt8) : Int := (toNat bytes : Int).bmod (Nat.pow 256 bytes.length)

/-- The lowest `width` bytes of the two's complement form of `n`. -/
def ofInt (width : Nat) (n : Int) : List UInt8 := ofNat width (n % (Nat.pow 256 width : Nat)).toNat

@[simp] theorem length_ofNat (width n : Nat) : (ofNat width n).length = width := by
  induction width generalizing n with
  | zero => rfl
  | succ width ih => simp [ofNat, ih]

@[simp] theorem length_ofInt (width : Nat) (n : Int) : (ofInt width n).length = width := by
  simp [ofInt]

theorem ofNat_toNat (bytes : List UInt8) : ofNat bytes.length (toNat bytes) = bytes := by
  induction bytes with
  | nil => rfl
  | cons byte rest ih =>
    have hbyte := byte.toNat_lt
    have hdiv : (byte.toNat + 256 * toNat rest) / 256 = toNat rest := by omega
    have hmod : UInt8.ofNat (byte.toNat + 256 * toNat rest) = byte := by
      apply UInt8.toNat_inj.mp
      simp only [UInt8.toNat_ofNat']
      omega
    simp [toNat, ofNat, hdiv, hmod, ih]

end Columnar.LittleEndian
