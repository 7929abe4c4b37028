import Columnar.Builder.Leaf
import Columnar.LittleEndian.Lemmas

/-!
# Numbers of two words

A number of 128 bits is kept as two words of 64 bits, the low one first, and the sign is that of the
high one. `Words.ofBytes` and `Words.toBytes` put the words together and take them apart by shifts.
This comes to the same as taking all sixteen bytes as one number, in both directions, so the kinds of
this width need no care of their own: huge integers with a sign and without, UUIDs and wide decimals
are read (`FixedKind.decode_eq_words`, `DecimalType.toInt_eq_words`) and written
(`FixedKind.encode_eq_words`, `DecimalType.encode_eq_words`) word by word.
-/

namespace Columnar

open LittleEndian

namespace Words

/-- The number with the given words, where the high one has the sign. -/
def join (low high : BitVec 64) : BitVec 128 := high.signExtend 128 <<< 64 ||| low.setWidth 128

/-- The number whose words are the first sixteen bytes. -/
def ofBytes (bytes : List UInt8) : BitVec 128 :=
  join (BitVec.ofNat 64 (toNat (bytes.take 8))) (BitVec.ofNat 64 (toNat ((bytes.drop 8).take 8)))

/-- The bytes of the words of a number. -/
def toBytes (x : BitVec 128) : List UInt8 :=
  ofNat 8 (x.setWidth 64).toNat ++ ofNat 8 ((x.sshiftRight 64).setWidth 64).toNat

/-- What the sign of the high word is extended to is shifted out. -/
theorem join_eq_append (low high : BitVec 64) : join low high = high ++ low := by
  refine BitVec.eq_of_getLsbD_eq fun i hi ↦ ?_
  rw [join, BitVec.getLsbD_or, BitVec.getLsbD_shiftLeft, BitVec.getLsbD_append,
    BitVec.getLsbD_setWidth, BitVec.getLsbD_signExtend]
  by_cases h : i < 64
  · simp [h, hi]
  · have hlow := BitVec.getLsbD_of_ge low i (by omega)
    have hlt : i - 64 < 64 := by omega
    simp [h, hi, hlow, hlt, Nat.lt_trans hlt (show 64 < 128 by decide)]

theorem toNat_join (low high : BitVec 64) :
    (join low high).toNat = low.toNat + 2 ^ 64 * high.toNat := by
  rw [join_eq_append, BitVec.toNat_append, ← Nat.shiftLeft_add_eq_or_of_lt low.isLt,
    Nat.shiftLeft_eq, Nat.mul_comm, Nat.add_comm]

/-- The words of bytes are those of the number that the bytes spell. -/
theorem ofBytes_eq {bytes : List UInt8} (h : 16 ≤ bytes.length) :
    ofBytes bytes = BitVec.ofNat 128 (toNat (bytes.take 16)) := by
  have hlow : (bytes.take 8).length = 8 := by
    rw [List.length_take]
    omega
  have hhigh : ((bytes.drop 8).take 8).length = 8 := by
    rw [List.length_take, List.length_drop]
    omega
  have hlt := toNat_lt (bytes.take 8)
  have hlt' := toNat_lt ((bytes.drop 8).take 8)
  have hsplit := toNat_append (bytes.take 8) ((bytes.drop 8).take 8)
  rw [← List.take_add, hlow] at hsplit
  rw [hlow] at hlt
  rw [hhigh] at hlt'
  refine BitVec.eq_of_toNat_eq ?_
  rw [ofBytes, toNat_join, hsplit, BitVec.toNat_ofNat, BitVec.toNat_ofNat, BitVec.toNat_ofNat]
  omega

theorem toNat_ofBytes {bytes : List UInt8} (h : 16 ≤ bytes.length) :
    (ofBytes bytes).toNat = toNat (bytes.take 16) := by
  have hlt := toNat_lt (bytes.take 16)
  rw [List.length_take, Nat.min_eq_left h] at hlt
  rw [ofBytes_eq h, BitVec.toNat_ofNat]
  exact Nat.mod_eq_of_lt hlt

theorem toInt_ofBytes {bytes : List UInt8} (h : 16 ≤ bytes.length) :
    (ofBytes bytes).toInt = toInt (bytes.take 16) := by
  rw [ofBytes_eq h, BitVec.toInt_ofNat', toInt_eq, List.length_take, Nat.min_eq_left h]
  rfl

theorem toNat_high (x : BitVec 128) :
    ((x.sshiftRight 64).setWidth 64).toNat = x.toNat / 2 ^ 64 := by
  have hlsb : (x.sshiftRight 64).setWidth 64 = x.extractLsb' 64 64 := by
    refine BitVec.eq_of_getLsbD_eq fun i hi ↦ ?_
    have hlt : ¬ 128 ≤ i := by omega
    have hsum : 64 + i < 128 := by omega
    simp [BitVec.getLsbD_sshiftRight, hi, hsum, hlt]
  have hlt := x.isLt
  rw [hlsb, BitVec.extractLsb'_toNat, Nat.shiftRight_eq_div_pow, Nat.mod_eq_of_lt (by omega)]

/-- The bytes of the words of a number are those of the number. -/
theorem toBytes_eq (x : BitVec 128) : toBytes x = ofNat 16 x.toNat := by
  have hlow : ofNat 8 (x.setWidth 64).toNat = ofNat 8 x.toNat := by
    rw [BitVec.toNat_setWidth]
    exact ofNat_mod 8 x.toNat
  rw [toBytes, hlow, toNat_high]
  exact (ofNat_add 8 8 x.toNat).symm

theorem toBytes_ofInt (n : Int) : toBytes (BitVec.ofInt 128 n) = ofInt 16 n := by
  rw [toBytes_eq, BitVec.toNat_ofInt]
  rfl

end Words

variable {slot : List UInt8}

/-- Values of 128 bits are read from the words of their slot. -/
theorem FixedKind.decode_eq_words (h : 16 ≤ slot.length) :
    decode (.integer .hugeInt) slot = .integer .hugeInt (Words.ofBytes slot).toInt ∧
      decode (.integer .uHugeInt) slot = .integer .uHugeInt (Words.ofBytes slot).toNat ∧
      decode .uuid slot = .uuid ⟨Words.ofBytes slot⟩ := by
  rw [Words.toInt_ofBytes h, Words.toNat_ofBytes h, Words.ofBytes_eq h]
  exact ⟨rfl, rfl, rfl⟩

/-- Values of 128 bits are written as their words, and integers outside of the range of their kind as
the words that are left of them. -/
theorem FixedKind.encode_eq_words (n : Int) (u : Uuid) :
    encode (.integer .hugeInt) (.integer .hugeInt n) = .ok (Words.toBytes (BitVec.ofInt 128 n)) ∧
      encode (.integer .uHugeInt) (.integer .uHugeInt n) =
        .ok (Words.toBytes (BitVec.ofInt 128 n)) ∧
      encode .uuid (.uuid u) = .ok (Words.toBytes u.raw) := by
  rw [Words.toBytes_ofInt, Words.toBytes_eq]
  exact ⟨rfl, rfl, rfl⟩

/-- The integer of a wide decimal is read from the words of its slot. -/
theorem DecimalType.toInt_eq_words (h : 16 ≤ slot.length) :
    toInt (slot.take 16) = (Words.ofBytes slot).toInt :=
  (Words.toInt_ofBytes h).symm

/-- The integer of a wide decimal is written as its words. -/
theorem DecimalType.encode_eq_words (t : DecimalType) (n : Int) :
    t.encode 16 (.decimal n) = .ok (Words.toBytes (BitVec.ofInt 128 n)) := by
  rw [Words.toBytes_ofInt]
  rfl

end Columnar
