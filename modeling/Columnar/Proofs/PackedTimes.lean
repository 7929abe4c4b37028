import Columnar.Proofs.Numbers

/-!
# Packed times

A time with a zone is packed by cutting both of its parts: the microseconds to their lowest 40 bits,
and the distance of the offset from the maximal one, which may be negative, to its lowest 24 bits. So
unpacking gives back residues (`TimeTz.ofBits_of_toBits?`), and the value itself only if nothing was
cut off. Unpacking a word and packing what comes out loses nothing, whatever the word is.

Both directions are done on words of three widths. `TimeTz.packed` and `TimeTz.unpacked` are
the shifts, masks and changes of width; they compute what `TimeTz.toBits?` and `TimeTz.ofBits` say
with quotients and remainders (`TimeTz.toBits?_eq_packed`, `TimeTz.ofBits_eq_unpacked`).
-/

namespace Columnar.TimeTz

variable {t : TimeTz} {bits : UInt64}

/-! ### Shifts and masks -/

/-- The word for a value: the microseconds above, and below them the distance to the maximal offset,
widened with its sign and then masked. -/
def packed (t : TimeTz) : UInt64 :=
  t.micros <<< 24 ||| ((57599 - t.offsetSeconds).toInt64.toUInt64 &&& 0xFFFFFF)

/-- The value of a word. -/
def unpacked (bits : UInt64) : TimeTz where
  micros := bits >>> 24
  offsetSeconds := 57599 - (bits &&& 0xFFFFFF).toInt64.toInt32

theorem toNat_and_mask (x : UInt64) : (x &&& 0xFFFFFF).toNat = x.toNat % offsetCount := by
  rw [UInt64.toNat_and]
  exact Nat.and_two_pow_sub_one_eq_mod x.toNat 24

/-- Two's complement and the natural number of a word are the same up to multiples of `2 ^ 64`. -/
theorem toInt_toInt64_emod (x : UInt64) : x.toInt64.toInt % 2 ^ 64 = x.toNat := by
  have hlt := x.toNat_lt
  rw [← Int64.toInt_toBitVec, UInt64.toBitVec_toInt64, BitVec.toInt_eq_toNat_bmod,
    UInt64.toNat_toBitVec]
  show _ % ((2 ^ 64 : Nat) : Int) = _
  rw [Int.bmod_emod]
  omega

theorem toNat_micros_unpacked (bits : UInt64) :
    (unpacked bits).micros.toNat = bits.toNat / offsetCount := by
  rw [unpacked, UInt64.toNat_shiftRight]
  exact Nat.shiftRight_eq_div_pow bits.toNat 24

theorem toInt_offsetSeconds_unpacked (bits : UInt64) :
    (unpacked bits).offsetSeconds.toInt = maxOffset - (bits.toNat % offsetCount : Nat) := by
  have hmod : bits.toNat % offsetCount < offsetCount := Nat.mod_lt _ (by decide)
  have hwide := toInt_toInt64_emod (bits &&& 0xFFFFFF)
  have hle := (bits &&& 0xFFFFFF).toInt64.le_toInt
  have hlt := (bits &&& 0xFFFFFF).toInt64.toInt_lt
  have hmax : (57599 : Int32).toInt = maxOffset := rfl
  rw [toNat_and_mask] at hwide
  -- A field of 24 bits is the same number at all widths.
  have hfield : (bits &&& 0xFFFFFF).toInt64.toInt = (bits.toNat % offsetCount : Nat) := by
    simp only [offsetCount] at hmod hwide ⊢
    omega
  have hnarrow : ((bits.toNat % offsetCount : Nat) : Int).bmod (2 ^ 32) =
      (bits.toNat % offsetCount : Nat) := by
    simp only [offsetCount] at hmod ⊢
    exact Int.bmod_eq_of_le (by omega) (by omega)
  rw [unpacked, Int32.toInt_sub, Int64.toInt_toInt32, hmax, hfield, hnarrow]
  simp only [maxOffset, offsetCount] at hmod ⊢
  exact Int.bmod_eq_of_le (by omega) (by omega)

/-- Unpacking by shifts and masks is unpacking. -/
theorem ofBits_eq_unpacked (bits : UInt64) : ofBits bits = unpacked bits := by
  have hmicros : (ofBits bits).micros = (unpacked bits).micros :=
    UInt64.toNat_inj.1 (by rw [toNat_micros_ofBits, toNat_micros_unpacked])
  have hoffset : (ofBits bits).offsetSeconds = (unpacked bits).offsetSeconds :=
    Int32.toInt_inj.1 (by rw [toInt_offsetSeconds_ofBits, toInt_offsetSeconds_unpacked])
  exact (TimeTz.mk.injEq ..).mpr ⟨hmicros, hoffset⟩

/-- The lowest bits of a distance are kept if the distance itself is a number of 32 bits. -/
theorem toNat_distance (h : (maxOffset : Int) - t.offsetSeconds.toInt < 2 ^ 31) :
    ((57599 - t.offsetSeconds).toInt64.toUInt64 &&& 0xFFFFFF).toNat =
      (((maxOffset : Int) - t.offsetSeconds.toInt) % offsetCount).toNat := by
  have hle := t.offsetSeconds.le_toInt
  have hlt := t.offsetSeconds.toInt_lt
  have hmax : (57599 : Int32).toInt = maxOffset := rfl
  have hdistance : (57599 - t.offsetSeconds).toInt = (maxOffset : Int) - t.offsetSeconds.toInt := by
    rw [Int32.toInt_sub, hmax]
    simp only [maxOffset] at h ⊢
    exact Int.bmod_eq_of_le (by omega) (by omega)
  have hwide := toInt_toInt64_emod (57599 - t.offsetSeconds).toInt64.toUInt64
  rw [Int64.toInt64_toUInt64, Int32.toInt_toInt64, hdistance] at hwide
  rw [toNat_and_mask]
  simp only [maxOffset, offsetCount] at hwide ⊢
  omega

theorem toNat_packed (h : (maxOffset : Int) - t.offsetSeconds.toInt < 2 ^ 31) :
    t.packed.toNat = t.micros.toNat % 2 ^ 40 * offsetCount +
      (((maxOffset : Int) - t.offsetSeconds.toInt) % offsetCount).toNat := by
  have hlt : (((maxOffset : Int) - t.offsetSeconds.toInt) % offsetCount).toNat < 2 ^ 24 := by
    simp only [maxOffset, offsetCount]
    omega
  have hshift : t.micros.toNat <<< 24 % 2 ^ 64 = (t.micros.toNat % 2 ^ 40) <<< 24 := by
    rw [Nat.shiftLeft_eq, Nat.shiftLeft_eq, Nat.pow_add 2 40 24, Nat.mul_mod_mul_right]
  rw [packed, UInt64.toNat_or, toNat_distance h, UInt64.toNat_shiftLeft]
  show t.micros.toNat <<< 24 % 2 ^ 64 ||| _ = _
  rw [hshift, ← Nat.shiftLeft_add_eq_or_of_lt hlt, Nat.shiftLeft_eq]
  rfl

/-- Packing by shifts and masks is packing, where the distance to the maximal offset is a number of 32
bits. -/
theorem toBits?_eq_packed (t : TimeTz) :
    t.toBits? = if (maxOffset : Int) - t.offsetSeconds.toInt < 2 ^ 31 then some t.packed else none := by
  have hmax : Int32.maxValue.toInt = 2147483647 := rfl
  rw [toBits?, hmax]
  split_ifs with h h' h'
  · refine congrArg some (UInt64.toNat_inj.1 ?_)
    rw [toNat_packed h', UInt64.toNat_ofNat']
    simp only [maxOffset, offsetCount]
    omega
  · omega
  · omega
  · rfl

/-! ### What packing keeps -/

theorem toBits?_eq_none_iff :
    t.toBits? = none ↔ t.offsetSeconds.toInt < (maxOffset : Int) - Int32.maxValue.toInt := by
  have hmax : Int32.maxValue.toInt = 2147483647 := rfl
  rw [toBits?_eq_packed, hmax]
  split <;> simp <;> omega

/-- The microseconds and the distance to the maximal offset are kept up to multiples of `2 ^ 40` and
`2 ^ 24`. -/
theorem ofBits_of_toBits? (h : t.toBits? = some bits) :
    (ofBits bits).micros.toNat = t.micros.toNat % 2 ^ 40 ∧
      (ofBits bits).offsetSeconds.toInt =
        maxOffset - ((maxOffset : Int) - t.offsetSeconds.toInt) % offsetCount := by
  rw [toBits?_eq_packed] at h
  split at h
  next hdistance =>
    obtain rfl := Option.some.inj h
    rw [toNat_micros_ofBits, toInt_offsetSeconds_ofBits, toNat_packed hdistance]
    simp only [maxOffset, offsetCount]
    omega
  next => cases h

/-- A word is unpacked and packed again without loss. A value that can be packed is unpacked as it was
if and only if its microseconds are a number of 40 bits, and its offset is one of the `2 ^ 24` up to
the maximal one. -/
theorem packing_exact :
    (∀ bits, ofBits bits = unpacked bits ∧ (ofBits bits).toBits? = some bits) ∧
    ∀ t : TimeTz,
      (t.toBits? = none ↔ t.offsetSeconds.toInt < (maxOffset : Int) - Int32.maxValue.toInt) ∧
      ∀ bits, t.toBits? = some bits → bits = t.packed ∧
        (ofBits bits = t ↔ t.micros.toNat < 2 ^ 40 ∧
          57599 - (2 ^ 24 - 1) ≤ t.offsetSeconds.toInt ∧ t.offsetSeconds.toInt ≤ 57599) := by
  refine ⟨fun bits ↦ ⟨ofBits_eq_unpacked bits, toBits?_ofBits bits⟩,
    fun t ↦ ⟨toBits?_eq_none_iff, fun bits h ↦ ⟨?_, ?_⟩⟩⟩
  · rw [toBits?_eq_packed] at h
    split at h
    · exact (Option.some.inj h).symm
    · cases h
  · obtain ⟨hmicros, hoffset⟩ := ofBits_of_toBits? h
    have hsame : ofBits bits = t ↔ (ofBits bits).micros.toNat = t.micros.toNat ∧
        (ofBits bits).offsetSeconds.toInt = t.offsetSeconds.toInt := by
      rw [UInt64.toNat_inj, Int32.toInt_inj, ← TimeTz.mk.injEq]
    rw [hsame, hmicros, hoffset]
    simp only [maxOffset, offsetCount]
    omega

/-- The offset furthest from the maximal one that is kept, with the largest time that is. -/
abbrev lowestOffset : TimeTz := ⟨0xFFFFFFFFFF, -16719616⟩

/-- One second below the lowest offset there is the maximal one again, and behind the largest time
there is midnight. -/
theorem lowestOffset_packing :
    lowestOffset.toBits? = some 0xFFFFFFFFFFFFFFFF ∧ ofBits 0xFFFFFFFFFFFFFFFF = lowestOffset ∧
    (⟨0xFFFFFFFFFF, -16719617⟩ : TimeTz).toBits? = some 0xFFFFFFFFFF000000 ∧
    ofBits 0xFFFFFFFFFF000000 ≠ ⟨0xFFFFFFFFFF, -16719617⟩ ∧
    (⟨0x10000000000, 57599⟩ : TimeTz).toBits? = some 0 ∧ ofBits 0 ≠ ⟨0x10000000000, 57599⟩ := by
  have hlowest : lowestOffset.toBits? = some 0xFFFFFFFFFFFFFFFF := by decide
  have hbelow : (⟨0xFFFFFFFFFF, -16719617⟩ : TimeTz).toBits? = some 0xFFFFFFFFFF000000 := by decide
  have hlate : (⟨0x10000000000, 57599⟩ : TimeTz).toBits? = some 0 := by decide
  refine ⟨hlowest, ((packing_exact.2 _).2 _ hlowest).2.2 (by decide), hbelow,
    mt ((packing_exact.2 _).2 _ hbelow).2.1 (by decide), hlate,
    mt ((packing_exact.2 _).2 _ hlate).2.1 (by decide)⟩

end Columnar.TimeTz
