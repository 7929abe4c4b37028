import Columnar.Column.Read
import Columnar.Proofs.HeapSearch
import Columnar.Proofs.Literals

/-!
# Bytes of leaves

Reading the bytes that a leaf literal was encoded into gives the value of the literal: numbers of a
fixed width (`FixedKind.encode_of_admits`), decimals and dictionary entries, and strings, whose slot
either holds them or points to a payload (`StringSlot.payload?_ofInline`,
`StringSlot.payload?_ofPointer`). A slot may be wider than the bytes; what follows them is zero.

The first payload with all of the bytes answers, and no other has them if payloads do not overlap
(`Heap.Apart`).
-/

namespace Columnar

open LittleEndian

/-! ### Fixed widths -/

/-- A time that fits its bits is taken apart as it was packed. -/
theorem TimeTz.toBits?_of_isPacked {t : TimeTz} (h : t.IsPacked) :
    ∃ bits, t.toBits? = some bits ∧ ofBits bits = t := by
  obtain ⟨hmicros, hlow, hhigh⟩ := h
  obtain ⟨micros, offset⟩ := t
  simp only [maxOffset, offsetCount] at hmicros hlow hhigh
  have hmax : Int32.maxValue.toInt = 2147483647 := rfl
  have hdistance : (maxOffset : Int) - offset.toInt ≤ Int32.maxValue.toInt := by
    simp only [maxOffset]
    omega
  refine ⟨_, if_pos hdistance, ?_⟩
  -- The distance is a number of 24 bits, so packing keeps it apart from the microseconds.
  have hbits : (UInt64.ofNat (micros.toNat * offsetCount +
      (((maxOffset : Int) - offset.toInt) % offsetCount).toNat)).toNat =
      micros.toNat * offsetCount + ((maxOffset : Int) - offset.toInt).toNat := by
    simp only [maxOffset, offsetCount]
    rw [UInt64.toNat_ofNat_of_lt' (by simp only [UInt64.size]; omega)]
    omega
  have hdiv : (micros.toNat * offsetCount + ((maxOffset : Int) - offset.toInt).toNat) / offsetCount =
      micros.toNat := by
    simp only [maxOffset, offsetCount]
    omega
  have hmod : (maxOffset : Int) - ((micros.toNat * offsetCount +
      ((maxOffset : Int) - offset.toInt).toNat) % offsetCount : Nat) = offset.toInt := by
    simp only [maxOffset, offsetCount]
    omega
  rw [ofBits, hbits, hdiv, hmod, UInt64.ofNat_toNat, Int32.ofInt_toInt]

theorem IntegerKind.decode_ofInt {kind : IntegerKind} {n : Int} (h : kind.Contains n) :
    (if kind.isSigned then toInt (ofInt kind.width n) else (toNat (ofInt kind.width n) : Int)) = n := by
  split
  next hsigned =>
    exact toInt_ofInt_of_signedRange kind.width_pos ((contains_iff_of_signed hsigned).1 h)
  next hsigned =>
    obtain ⟨hle, hlt⟩ := (contains_iff_of_unsigned (by simpa using hsigned)).1 h
    rw [ofInt_eq, Int.emod_eq_of_lt hle hlt, toNat_ofNat_of_lt (by omega), Int.toNat_of_nonneg hle]

/-- Zeros behind the bytes of a value make no difference. -/
theorem FixedKind.decode_append_zeros {kind : FixedKind} {bytes : List UInt8}
    (h : bytes.length = kind.width) (n : Nat) :
    kind.decode (bytes ++ List.replicate n 0) = kind.decode bytes := by
  have htake : (bytes ++ List.replicate n 0).take kind.width = bytes.take kind.width :=
    List.take_append_of_le_length (Nat.le_of_eq h.symm)
  cases kind with
  | boolean => simp [decode]
  | _ => rw [decode, decode, htake]

theorem take_ofNat (width n : Nat) : (ofNat width n).take width = ofNat width n :=
  List.take_of_length_le (by simp)

theorem take_ofInt (width : Nat) (n : Int) : (ofInt width n).take width = ofInt width n :=
  take_ofNat width _

/-- The parts of an interval are found again by their places. -/
theorem FixedKind.decode_interval {i : Interval} (h : FixedKind.interval.Admits (.interval i)) :
    FixedKind.interval.decode (ofInt 4 i.months ++ ofInt 4 i.days ++ ofInt 8 i.micros) =
      .interval i := by
  obtain ⟨hmonths, hdays, hmicros⟩ := h
  have hlen : (ofInt 4 i.months ++ ofInt 4 i.days ++ ofInt 8 i.micros).length = 16 := by simp
  have hfirst : (ofInt 4 i.months ++ ofInt 4 i.days ++ ofInt 8 i.micros).take 4 =
      ofInt 4 i.months := by
    rw [List.append_assoc, List.take_left' (by simp)]
  have hsecond : ((ofInt 4 i.months ++ ofInt 4 i.days ++ ofInt 8 i.micros).drop 4).take 4 =
      ofInt 4 i.days := by
    rw [List.append_assoc, List.drop_left' (by simp), List.take_left' (by simp)]
  have hthird : ((ofInt 4 i.months ++ ofInt 4 i.days ++ ofInt 8 i.micros).drop 8).take 8 =
      ofInt 8 i.micros := by
    rw [List.drop_left' (by simp), take_ofInt]
  rw [decode, show FixedKind.interval.width = 16 from rfl, List.take_of_length_le (Nat.le_of_eq hlen)]
  show Value.interval ⟨toInt _, toInt _, toInt _⟩ = Value.interval i
  rw [hfirst, hsecond, hthird, toInt_ofInt_of_signedRange (by decide) hmonths,
    toInt_ofInt_of_signedRange (by decide) hdays, toInt_ofInt_of_signedRange (by decide) hmicros]

/-- A literal that fits a kind has bytes, of its width, from which its value is read. -/
theorem FixedKind.encode_of_admits {kind : FixedKind} {l : Literal} (h : kind.Admits l.scalar) :
    ∃ bytes, kind.encode l = .ok bytes ∧ bytes.length = kind.width ∧ kind.decode bytes = l.scalar := by
  -- No literal but that of the kind has a scalar that the kind admits.
  cases kind with
  | boolean =>
    cases l with
    | boolean b => exact ⟨_, rfl, rfl, by cases b <;> rfl⟩
    | _ => exact h.elim
  | integer kind =>
    cases l with
    | integer kind' n =>
      obtain ⟨rfl, hn⟩ := h
      refine ⟨ofInt kind'.width n, by simp [encode], length_ofInt _ _, ?_⟩
      show Value.integer kind' (if kind'.isSigned then toInt ((ofInt kind'.width n).take kind'.width)
        else toNat ((ofInt kind'.width n).take kind'.width)) = _
      rw [take_ofInt, IntegerKind.decode_ofInt hn]
      rfl
    | _ => exact h.elim
  | float =>
    cases l with
    | float bits =>
      refine ⟨ofNat 4 bits.toNat, rfl, length_ofNat _ _, ?_⟩
      show Value.float (UInt32.ofNat (toNat ((ofNat 4 bits.toNat).take 4))) = _
      rw [take_ofNat, toNat_ofNat_of_lt bits.toNat_lt, UInt32.ofNat_toNat]
      rfl
    | _ => exact h.elim
  | double =>
    cases l with
    | double bits =>
      refine ⟨ofNat 8 bits.toNat, rfl, length_ofNat _ _, ?_⟩
      show Value.double (UInt64.ofNat (toNat ((ofNat 8 bits.toNat).take 8))) = _
      rw [take_ofNat, toNat_ofNat_of_lt bits.toNat_lt, UInt64.ofNat_toNat]
      rfl
    | _ => exact h.elim
  | temporal kind =>
    cases l with
    | temporal kind' n =>
      obtain ⟨rfl, hn⟩ := h
      refine ⟨ofInt kind'.width n, by simp [encode], length_ofInt _ _, ?_⟩
      show Value.temporal kind' (toInt ((ofInt kind'.width n).take kind'.width)) = _
      rw [take_ofInt, toInt_ofInt_of_signedRange kind'.width_pos hn]
      rfl
    | _ => exact h.elim
  | timeTz =>
    cases l with
    | timeTz t =>
      obtain ⟨bits, hbits, hofBits⟩ := TimeTz.toBits?_of_isPacked h
      refine ⟨ofNat 8 bits.toNat, by simp [encode, hbits], length_ofNat _ _, ?_⟩
      show Value.timeTz (TimeTz.ofBits (UInt64.ofNat (toNat ((ofNat 8 bits.toNat).take 8)))) = _
      rw [take_ofNat, toNat_ofNat_of_lt bits.toNat_lt, UInt64.ofNat_toNat, hofBits]
      rfl
    | _ => exact h.elim
  | interval =>
    cases l with
    | interval i =>
      have hlen : (ofInt 4 i.months ++ ofInt 4 i.days ++ ofInt 8 i.micros).length = 16 := by simp
      exact ⟨_, rfl, hlen, decode_interval h⟩
    | _ => exact h.elim
  | uuid =>
    cases l with
    | uuid u =>
      refine ⟨ofNat 16 u.raw.toNat, rfl, length_ofNat _ _, ?_⟩
      show Value.uuid ⟨BitVec.ofNat 128 (toNat ((ofNat 16 u.raw.toNat).take 16))⟩ = _
      rw [take_ofNat, toNat_ofNat_of_lt u.raw.isLt, BitVec.ofNat_toNat, BitVec.setWidth_eq]
      rfl
    | _ => exact h.elim

/-! ### Decimals and dictionary entries -/

theorem DecimalType.encode_of_accepts {t : DecimalType} {width : Nat} {l : Literal}
    (hwidth : t.physicalWidth? = some width) (h : t.Accepts l) :
    ∃ bytes, t.encode width l = .ok bytes ∧ bytes.length = width ∧
      Value.decimal ⟨toInt (bytes.take width), t.width, t.scale⟩ = t.valueOf l := by
  obtain ⟨width', n, hwidth', hn, rfl⟩ := h
  obtain rfl : width = width' := Option.some.inj (hwidth.symm.trans hwidth')
  refine ⟨ofInt width n, rfl, length_ofInt _ _, ?_⟩
  rw [take_ofInt, toInt_ofInt_of_signedRange (pos_of_physicalWidth hwidth) hn]
  rfl

/-- The position of a literal is that of an entry, which is its value. -/
theorem EnumType.decode_position {t : EnumType} {l : Literal} {index : Nat}
    (h : t.position? l = some index) :
    index < t.values.size ∧ t.indexOf l = .ok index ∧ t.decode index = .ok (t.valueOf l) := by
  cases l with
  | enumeration s =>
    have hfind : t.find? s = some index := h
    obtain ⟨hlt, hs, -⟩ := Array.findIdx?_eq_some_iff_getElem.1 hfind
    have hvalue : t.values[index]? = some s := by
      rw [Array.getElem?_eq_getElem hlt]
      exact congrArg some (by simpa using hs)
    refine ⟨hlt, by simp [indexOf, hfind], ?_⟩
    rw [decode, value?, hvalue]
    rfl
  | enumIndex i =>
    simp only [position?, Option.ite_none_right_eq_some, Option.some.injEq] at h
    obtain ⟨hlt, rfl⟩ := h
    refine ⟨hlt, rfl, ?_⟩
    rw [decode, value?, valueOf, Array.getElem?_eq_getElem hlt]
    rfl
  | _ => simp [position?] at h

theorem EnumType.lt_of_indexWidth {t : EnumType} {index : Nat} (hlt : index < t.values.size)
    (hsize : index < UInt32.size) : index < 256 ^ t.indexWidth := by
  simp only [UInt32.size] at hsize
  rw [indexWidth]
  split_ifs <;> omega

theorem EnumType.encode_of_accepts {t : EnumType} {l : Literal} (h : t.Accepts l) :
    ∃ bytes, (ofNat t.indexWidth <$> t.indexOf l) = .ok bytes ∧ bytes.length = t.indexWidth ∧
      t.decode (toNat (bytes.take t.indexWidth)) = .ok (t.valueOf l) := by
  obtain ⟨index, hsize, hposition⟩ := h
  obtain ⟨hlt, hindex, hdecode⟩ := decode_position hposition
  refine ⟨ofNat t.indexWidth index, by rw [hindex]; rfl, length_ofNat _ _, ?_⟩
  rw [take_ofNat, toNat_ofNat_of_lt (lt_of_indexWidth hlt hsize), hdecode]

/-! ### Strings -/

/-- A string that fits has a payload, from which its value is read in any row. -/
theorem StringKind.encode_of_accepts {kind : StringKind} {l : Literal} (h : kind.Accepts l) :
    ∃ bytes, kind.encode l = .ok bytes ∧ bytes.length < UInt32.size ∧
      ∀ row, kind.decode row bytes = .ok l.stringValue := by
  cases kind with
  | varchar =>
    cases l with
    | varchar s =>
      refine ⟨Text.Utf8.encode s, rfl, h, fun row ↦ ?_⟩
      rw [decode, Text.Utf8.decode_encode]
      rfl
    | _ => exact h.elim
  | blob =>
    cases l with
    | blob bytes => exact ⟨bytes, rfl, h, fun _ ↦ rfl⟩
    | _ => exact h.elim
  | bit =>
    cases l with
    | bit digits =>
      obtain ⟨hne, hdigits, hlen⟩ := h
      refine ⟨_, encodeDigits_of_digits hne hdigits, ?_, fun row ↦ ?_⟩
      · rw [BitString.length_encode, List.length_map, String.length_toList]
        exact hlen
      · rw [decode, BitString.ofBytes_encode]
        rfl
    | _ => exact h.elim

namespace StringSlot

variable {bytes : List UInt8}

theorem length_ofInline (h : bytes.length ≤ inlineLength) : (ofInline bytes).length = width := by
  simp only [ofInline, List.length_append, length_ofNat, List.length_replicate, inlineLength, width]
    at h ⊢
  omega

theorem length_ofPointer (h : inlineLength < bytes.length) (address : Nat) :
    (ofPointer bytes address).length = width := by
  simp only [ofPointer, List.length_append, length_ofNat, List.length_take, inlineLength, width]
    at h ⊢
  omega

/-- A slot that starts with a length records it. -/
theorem length_append {n : Nat} (h : n < UInt32.size) (rest : List UInt8) :
    length (ofNat 4 n ++ rest) = n := by
  rw [length, List.take_left' (length_ofNat _ _), toNat_ofNat_of_lt h]

/-- A short string lies in its slot. -/
theorem payload?_ofInline (heap : Heap) (h : bytes.length ≤ inlineLength) :
    payload? heap (ofInline bytes) = some bytes := by
  have hlen : length (ofInline bytes) = bytes.length := by
    rw [ofInline, List.append_assoc]
    exact length_append (Nat.lt_of_le_of_lt h (by decide)) _
  rw [payload?, isInline, hlen, if_pos (decide_eq_true h), ofInline, List.append_assoc,
    List.drop_left' (length_ofNat _ _), List.take_left]

/-- The slot of a long string ends with its address. -/
theorem pointer_ofPointer {address : Nat} (h : inlineLength < bytes.length)
    (haddress : address < UInt64.size) : pointer (ofPointer bytes address) = address := by
  have hprefix : (ofNat 4 bytes.length ++ bytes.take 4).length = 8 := by
    simp only [List.length_append, length_ofNat, List.length_take, inlineLength] at h ⊢
    omega
  rw [pointer, ofPointer, List.drop_left' hprefix, take_ofNat, toNat_ofNat_of_lt haddress]

/-- A long string lies where its slot says. -/
theorem payload?_ofPointer (heap : Heap) {address : Nat} (h : inlineLength < bytes.length)
    (hsize : bytes.length < UInt32.size) (haddress : address < UInt64.size) :
    payload? heap (ofPointer bytes address) = heap.read? address bytes.length := by
  have hlen : length (ofPointer bytes address) = bytes.length := by
    rw [ofPointer, List.append_assoc]
    exact length_append hsize _
  rw [payload?, isInline, hlen, if_neg (by simpa using h), pointer_ofPointer h haddress]

end StringSlot

namespace Heap

/-- All bytes have addresses of 64 bits. -/
def Addressable (heap : Heap) : Prop := ∀ p ∈ heap, p.address + p.bytes.size ≤ UInt64.size

/-- A payload is found by its address, since no other one has the byte there. -/
theorem read?_of_mem {heap : Heap} (h : heap.Apart) {p : Payload} (hp : p ∈ heap)
    (hpos : 0 < p.bytes.size) : heap.read? p.address p.bytes.size = some p.bytes.toList := by
  have hcovers : p.Covers p.address p.bytes.size := ⟨Nat.le_refl _, Nat.le_refl _⟩
  obtain ⟨before, after, hsplit⟩ := List.append_of_mem hp.val
  rw [Apart, hsplit, List.pairwise_append] at h
  refine read?_eq_some_iff.2 ⟨before, p, after, hsplit, ?_, fun q hq hcovers' ↦ ?_⟩
  · simp [Payload.read?, hcovers]
  · exact (h.2.2 q hq p List.mem_cons_self p.address).elim
      (Payload.byteAt?_ne_none_of_covers hcovers' hpos)
      (Payload.byteAt?_ne_none_of_covers hcovers hpos)

end Heap

end Columnar
