import Columnar.Proofs.Bits

/-!
# Bits and their places

Bit `i` of a byte string is counted from the most significant bit of its first byte (`bitAt`). A bit
string has its bits behind its padding, one after the other (`BitString.get_eq_bitAt`), so what packing
does can be said place by place. Digits that are packed are read back as they were, and a payload
whose text is packed again has the same bits as before, but for its padding, which is set to one
whatever it was (`BitString.text_encode_inverse`).
-/

namespace Columnar

/-- Bit `i` of a byte string, from the most significant bit of the first byte on. -/
def bitAt (data : List UInt8) (i : Nat) : Bool := (data.getD (i / 8) 0).toNat.testBit (7 - i % 8)

theorem getElem?_byteBits (b : UInt8) {i : Nat} (h : i < 8) :
    (byteBits b)[i]? = some (b.toNat.testBit (7 - i)) := by
  have hplace : ([7, 6, 5, 4, 3, 2, 1, 0] : List Nat)[i]? = some (7 - i) := by
    revert i
    decide
  rw [byteBits, List.getElem?_map, hplace]
  rfl

/-- The bits of a byte string, in order. -/
theorem getElem?_flatMap_byteBits {data : List UInt8} {i : Nat} (h : i < 8 * data.length) :
    (data.flatMap byteBits)[i]? = some (bitAt data i) := by
  induction data generalizing i with
  | nil => simp at h
  | cons b data ih =>
    rw [List.flatMap_cons]
    have hlen : (byteBits b).length = 8 := rfl
    by_cases hi : i < 8
    · rw [List.getElem?_append_left (hlen ▸ hi), getElem?_byteBits b hi, bitAt,
        Nat.div_eq_of_lt hi, Nat.mod_eq_of_lt hi]
      rfl
    · obtain ⟨j, rfl⟩ := Nat.exists_eq_add_of_le (Nat.not_lt.1 hi)
      rw [List.length_cons] at h
      rw [List.getElem?_append_right (by omega), hlen, Nat.add_sub_cancel_left, ih (by omega)]
      simp only [bitAt, Nat.add_div_left j (show 0 < 8 by decide), Nat.add_mod_left,
        List.getD_cons_succ]

namespace BitString

variable {b : BitString}

/-- Bit `i` of a bit string stands behind its padding. -/
theorem get_eq_bitAt {i : Nat} (h : i < b.length) :
    b.get i = .ok (bitAt b.data (b.padding.toNat + i)) := by
  have hplace : b.padding.toNat + i < 8 * b.data.length := by
    have hbyte := place_lt h
    rw [bytes, List.length_cons] at hbyte
    omega
  have hbit : b.bits[i]? = some (bitAt b.data (b.padding.toNat + i)) := by
    rw [bits, List.getElem?_drop, getElem?_flatMap_byteBits hplace]
  rw [get, hbit]

/-! ### From digits to bits and back -/

/-- The text of bits, of which there is one at least, is encoded as the bits are. -/
theorem encodeDigits_digits {bits : List Bool} (h : bits ≠ []) :
    encodeDigits (digits bits) = .ok (encode bits) := by
  have hdigits : (digits bits).toList = bits.map fun b ↦ if b then '1' else '0' :=
    String.toList_ofList
  have hne : digits bits ≠ "" := by
    intro hempty
    rw [hempty] at hdigits
    exact h (List.map_eq_nil_iff.1 hdigits.symm)
  have hbinary : ∀ c ∈ (digits bits).toList, c = '0' ∨ c = '1' := by
    rw [hdigits, List.forall_mem_map]
    intro bit _
    cases bit <;> simp
  have hback : ∀ bit : Bool, ((if bit then '1' else '0') == '1') = bit := by decide
  rw [encodeDigits_of_digits hne hbinary, hdigits, List.map_map]
  simp only [Function.comp_def, hback, List.map_id']

/-- Digits are read back from the payload that they are encoded into. -/
theorem exists_ofBytes_of_digits {digits : String} (hne : digits ≠ "")
    (h : ∀ c ∈ digits.toList, c = '0' ∨ c = '1') :
    ∃ payload b, encodeDigits digits = .ok payload ∧ ofBytes payload = .ok b ∧
      b.length = digits.length ∧
      (∀ i c, digits.toList[i]? = some c → b.get i = .ok (c == '1')) ∧ b.text = digits := by
  refine ⟨_, ofDigits digits, encodeDigits_of_digits hne h, ofBytes_encode _, ?_, ?_,
    text_ofDigits h⟩
  · rw [← length_bits, ofDigits, bits_ofBits, List.length_map, String.length_toList]
  · intro i c hc
    rw [get, ofDigits, bits_ofBits, List.getElem?_map, hc]
    rfl

/-! ### From payloads to digits and back -/

/-- A payload is taken apart if and only if it has its padding byte, which is less than eight and no
more than there are bits. -/
theorem exists_ofBytes_iff {payload : List UInt8} :
    (∃ b, ofBytes payload = .ok b) ↔
      ∃ padding data, payload = padding :: data ∧ padding.toNat < 8 ∧
        padding.toNat ≤ 8 * data.length := by
  constructor
  · rintro ⟨b, hb⟩
    have hle := b.padding_le
    exact ⟨b.padding, b.data, (bytes_of_ofBytes hb).symm, b.padding_lt, by omega⟩
  · rintro ⟨padding, data, rfl, hlt, hle⟩
    exact ⟨_, ofBytes_bytes ⟨padding, data, hlt, by omega⟩⟩

/-- There is only one padding for a number of bits that fills the last byte. -/
theorem paddingFor_length (h : 0 < b.length) : paddingFor b.length = b.padding.toNat := by
  have hlt := b.padding_lt
  rw [length] at h
  rw [paddingFor, length]
  omega

/-- Packing the bits of a bit string again fills the places of its padding with ones and leaves all
others alone. -/
theorem exists_encode_bits (h : 0 < b.length) :
    ∃ data, encode b.bits = b.padding :: data ∧ data.length = b.data.length ∧
      ∀ i < 8 * data.length, bitAt data i = (decide (i < b.padding.toNat) || bitAt b.data i) := by
  have hpadding := paddingFor_length h
  have hle := b.padding_le
  let padded : List Bool := List.replicate b.padding.toNat true ++ b.bits
  have hcount : padded.length = 8 * b.data.length := by
    rw [List.length_append, List.length_replicate, length_bits, length]
    omega
  have hdata : (pack padded).length = b.data.length := by
    rw [length_pack, hcount]
    omega
  refine ⟨pack padded, ?_, hdata, fun i hi ↦ ?_⟩
  · rw [encode, length_bits, hpadding, UInt8.ofNat_toNat]
  · rw [hdata] at hi
    have hbit : padded[i]? = some (bitAt (pack padded) i) := by
      rw [← getElem?_flatMap_byteBits (by rwa [hdata]), flatMap_pack (by omega)]
    by_cases hfront : i < b.padding.toNat
    · rw [List.getElem?_append_left (by simpa using hfront),
        List.getElem?_replicate_of_lt hfront] at hbit
      simp [← Option.some.inj hbit, hfront]
    · have hback : padded[i]? = some (bitAt b.data i) := by
        rw [List.getElem?_append_right (by simpa using hfront), List.length_replicate, bits,
          List.getElem?_drop, Nat.add_sub_of_le (Nat.not_lt.1 hfront), getElem?_flatMap_byteBits hi]
      simp [Option.some.inj (hbit.symm.trans hback), hfront]

/-- Digits and payloads are inverse to each other, up to the padding. Digits, of which there is one at
least, are encoded into a payload with as many bits, each of them that of its digit, and with the
digits for its text. A payload is taken apart if and only if its first byte is less than eight and no
more than there are bits behind it; and encoding its text, if it has any, gives the payload back with
its padding set to one. -/
theorem text_encode_inverse :
    (∀ digits : String, digits ≠ "" → (∀ c ∈ digits.toList, c = '0' ∨ c = '1') →
      ∃ payload b, encodeDigits digits = .ok payload ∧ ofBytes payload = .ok b ∧
        b.length = digits.length ∧
        (∀ i c, digits.toList[i]? = some c → b.get i = .ok (c == '1')) ∧ b.text = digits) ∧
    (∀ payload : List UInt8, (∃ b, ofBytes payload = .ok b) ↔
      ∃ padding data, payload = padding :: data ∧ padding.toNat < 8 ∧
        padding.toNat ≤ 8 * data.length) ∧
    ∀ (padding : UInt8) (data : List UInt8) (b : BitString), ofBytes (padding :: data) = .ok b →
      0 < b.length → ∃ data', encodeDigits b.text = .ok (padding :: data') ∧
        data'.length = data.length ∧
        ∀ i < 8 * data.length, bitAt data' i = (decide (i < padding.toNat) || bitAt data i) := by
  refine ⟨fun _ ↦ exists_ofBytes_of_digits, fun _ ↦ exists_ofBytes_iff,
    fun padding data b hb hpos ↦ ?_⟩
  obtain ⟨rfl, rfl⟩ := List.cons.inj (bytes_of_ofBytes hb)
  obtain ⟨data', hencode, hlength, hbits⟩ := exists_encode_bits hpos
  have hne : b.bits ≠ [] := by
    rw [← length_bits] at hpos
    exact List.ne_nil_of_length_pos hpos
  exact ⟨data', by rw [text, encodeDigits_digits hne, hencode], hlength, hlength ▸ hbits⟩

/-- Nine bits behind seven bits of padding, which are not all set. -/
example : (ofBytes [7, 0b00001010, 0b01000001]).map text = .ok "001000001" ∧
    encodeDigits "001000001" = .ok [7, 0b11111110, 0b01000001] :=
  ⟨rfl, rfl⟩

end BitString

end Columnar
