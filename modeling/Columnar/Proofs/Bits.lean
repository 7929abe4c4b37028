import Columnar.Builder.Leaf
import Columnar.Proofs.Outcome

/-!
# Bits and digits

Taking a packed bit string apart gives the bits that were packed (`BitString.ofBytes_encode`,
`BitString.bits_ofBits`), and its text is the digits that they were written with
(`BitString.text_ofDigits`). Packing goes by groups of eight, so the laws of `BitString.pack` are
about lists whose length is a multiple of eight, which the padding sees to.
-/

namespace Columnar.BitString

theorem byteBits_ofByteBits : ∀ b₇ b₆ b₅ b₄ b₃ b₂ b₁ b₀ : Bool,
    byteBits (ofByteBits [b₇, b₆, b₅, b₄, b₃, b₂, b₁, b₀]) = [b₇, b₆, b₅, b₄, b₃, b₂, b₁, b₀] := by
  decide

/-- Bits that do not start with eight are fewer than eight. -/
theorem length_lt_eight {bits : List Bool}
    (h : ∀ b₇ b₆ b₅ b₄ b₃ b₂ b₁ b₀ rest,
      bits = b₇ :: b₆ :: b₅ :: b₄ :: b₃ :: b₂ :: b₁ :: b₀ :: rest → False) : bits.length < 8 := by
  rcases bits with _ | ⟨_, _ | ⟨_, _ | ⟨_, _ | ⟨_, _ | ⟨_, _ | ⟨_, _ | ⟨_, _ | ⟨_, _⟩⟩⟩⟩⟩⟩⟩⟩
  case cons.cons.cons.cons.cons.cons.cons.cons => exact (h _ _ _ _ _ _ _ _ _ rfl).elim
  all_goals simp

theorem length_pack (bits : List Bool) : (pack bits).length = bits.length / 8 := by
  fun_induction pack bits with
  | case1 b₇ b₆ b₅ b₄ b₃ b₂ b₁ b₀ rest ih =>
    simp only [List.length_cons, ih]
    omega
  | case2 bits hshort =>
    have := length_lt_eight hshort
    simp only [List.length_nil]
    omega

theorem flatMap_pack {bits : List Bool} (h : bits.length % 8 = 0) :
    (pack bits).flatMap byteBits = bits := by
  fun_induction pack bits with
  | case1 b₇ b₆ b₅ b₄ b₃ b₂ b₁ b₀ rest ih =>
    have hrest : rest.length % 8 = 0 := by
      simp only [List.length_cons] at h
      omega
    rw [List.flatMap_cons, byteBits_ofByteBits, ih hrest]
    rfl
  | case2 bits hshort =>
    have := length_lt_eight hshort
    have hnil : bits = [] := List.eq_nil_of_length_eq_zero (by omega)
    rw [hnil]
    rfl

/-! ### Padded bits -/

theorem paddingFor_lt (count : Nat) : paddingFor count < 8 := Nat.mod_lt _ (by decide)

theorem toNat_paddingFor (count : Nat) :
    (UInt8.ofNat (paddingFor count)).toNat = paddingFor count := by
  have := paddingFor_lt count
  exact UInt8.toNat_ofNat_of_lt' (by simp only [UInt8.size]; omega)

/-- The padding fills up the last byte. -/
theorem length_padded (bits : List Bool) :
    (List.replicate (paddingFor bits.length) true ++ bits).length = 8 * ((bits.length + 7) / 8) := by
  rw [List.length_append, List.length_replicate, paddingFor]
  omega

/-- The bit string of the given bits. -/
def ofBits (bits : List Bool) : BitString where
  padding := UInt8.ofNat (paddingFor bits.length)
  data := pack (List.replicate (paddingFor bits.length) true ++ bits)
  padding_lt := by
    rw [toNat_paddingFor]
    exact paddingFor_lt _
  padding_le := by
    rw [toNat_paddingFor, length_pack, length_padded, paddingFor]
    omega

theorem ofBytes_encode (bits : List Bool) : ofBytes (encode bits) = .ok (ofBits bits) :=
  ofBytes_bytes (ofBits bits)

@[simp] theorem bits_ofBits (bits : List Bool) : (ofBits bits).bits = bits := by
  have hdata : (ofBits bits).data.flatMap byteBits =
      List.replicate (paddingFor bits.length) true ++ bits :=
    flatMap_pack (by rw [length_padded]; exact Nat.mul_mod_right 8 _)
  have hpadding : (ofBits bits).padding.toNat = paddingFor bits.length := toNat_paddingFor _
  rw [BitString.bits, hdata, hpadding, List.drop_left' (by simp)]

theorem length_encode (bits : List Bool) : (encode bits).length = (bits.length + 7) / 8 + 1 := by
  show (pack _).length + 1 = _
  rw [length_pack, length_padded]
  omega

/-! ### Digits -/

/-- The bit string that is written with the given digits. -/
def ofDigits (digits : String) : BitString := ofBits (digits.toList.map (· == '1'))

/-- A bit string that was written with digits has them for its text. -/
theorem text_ofDigits {digits : String} (h : ∀ c ∈ digits.toList, c = '0' ∨ c = '1') :
    (ofDigits digits).text = digits := by
  have hdigit : ∀ c ∈ digits.toList, (if (c == '1') = true then '1' else '0') = c := by
    intro c hc
    rcases h c hc with rfl | rfl <;> rfl
  rw [text, ofDigits, bits_ofBits, BitString.digits, List.map_map]
  calc String.ofList (digits.toList.map _) = String.ofList (digits.toList.map id) :=
        congrArg _ (List.map_congr_left hdigit)
    _ = digits := by rw [List.map_id, String.ofList_toList]

end Columnar.BitString

namespace Columnar

theorem bitOf_of_digit {c : Char} (h : c = '0' ∨ c = '1') : bitOf c = .ok (c == '1') := by
  rcases h with rfl | rfl <;> rfl

/-- The payload of digits, of which there has to be one, is that of their bits. -/
theorem encodeDigits_of_digits {digits : String} (hne : digits ≠ "")
    (h : ∀ c ∈ digits.toList, c = '0' ∨ c = '1') :
    encodeDigits digits = .ok (BitString.encode (digits.toList.map (· == '1'))) := by
  have hbits : digits.toList.mapM bitOf = .ok (digits.toList.map (· == '1')) :=
    mapM_eq_ok_map fun c hc ↦ bitOf_of_digit (h c hc)
  rw [encodeDigits, if_neg (by simpa using hne), hbits]
  rfl

end Columnar
