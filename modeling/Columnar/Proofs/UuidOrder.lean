import Mathlib.Data.List.Basic
import Columnar.LittleEndian.Lemmas
import Columnar.Proofs.Readable
import Columnar.Scalar.UuidStandard

/-!
# Order and text of UUIDs

A UUID is stored as a signed number, with the top bit of its natural value flipped. Flipping the top
bit takes `2 ^ 127` off the value (`toInt_xor_intMin`), so signed order is the order of the natural
values; and numbers of as many bytes are in the order of their bytes, from the most significant one on
(`BigEndian.toNat_lt_toNat_iff`). Together, stored UUIDs are in the order of their bytes
(`Uuid.compare_eq_lt_iff`).

`Uuid.IsText` gives the rules for the text of sixteen bytes without saying how it is made. There is at
most one text that follows them (`Uuid.IsText.text_eq`).

What sixteen bytes are for the rest of a program is left to its library. The main statement
(`Uuid.storage_preserves_order`) is about any library that is as documented
(`Uuid.Library.Documented`): the most significant byte is the first, and texts follow the rules. The
library that spells out the digits is one (`Uuid.documented_standard`).
-/

namespace Columnar

/-! ### Most significant byte first -/

namespace BigEndian

theorem toNat_cons (b : UInt8) (bytes : List UInt8) :
    toNat (b :: bytes) = toNat bytes + 256 ^ bytes.length * b.toNat := by
  rw [toNat, List.reverse_cons, LittleEndian.toNat_append, List.length_reverse]
  rfl

theorem toNat_lt (bytes : List UInt8) : toNat bytes < 256 ^ bytes.length := by
  simpa [toNat] using LittleEndian.toNat_lt bytes.reverse

/-- Numbers of as many bytes are in the order of their bytes. -/
theorem toNat_lt_toNat_iff {as bs : List UInt8} (h : as.length = bs.length) :
    toNat as < toNat bs ↔ as < bs := by
  induction as generalizing bs with
  | nil =>
    obtain rfl := List.eq_nil_of_length_eq_zero h.symm
    simp
  | cons a as ih =>
    obtain ⟨b, bs, rfl⟩ := List.exists_cons_of_length_eq_add_one h.symm
    have hlen : as.length = bs.length := Nat.succ.inj h
    have has := toNat_lt as
    have hbs := toNat_lt bs
    rw [← hlen] at hbs
    rw [List.cons_lt_cons_iff, ← ih hlen, toNat_cons, toNat_cons, ← hlen, UInt8.lt_iff_toNat_lt,
      ← UInt8.toNat_inj]
    -- The first byte counts more than all others together.
    rcases Nat.lt_trichotomy a.toNat b.toNat with hlt | heq | hgt
    · have := Nat.mul_le_mul_left (256 ^ as.length) (Nat.succ_le_of_lt hlt)
      rw [Nat.mul_succ] at this
      omega
    · rw [heq]
      omega
    · have := Nat.mul_le_mul_left (256 ^ as.length) (Nat.succ_le_of_lt hgt)
      rw [Nat.mul_succ] at this
      omega

theorem toNat_injective {as bs : List UInt8} (h : as.length = bs.length)
    (hnumber : toNat as = toNat bs) : as = bs := by
  have has := LittleEndian.ofNat_toNat as.reverse
  have hbs := LittleEndian.ofNat_toNat bs.reverse
  rw [List.length_reverse, ← toNat] at has hbs
  rw [← List.reverse_inj, ← has, ← hbs, h, hnumber]

theorem toNat_toBitVec (bytes : Vector UInt8 16) :
    (toBitVec bytes).toNat = toNat bytes.toList := by
  have hlt := toNat_lt bytes.toList
  rw [Vector.length_toList] at hlt
  rw [toBitVec, BitVec.toNat_ofNat]
  exact Nat.mod_eq_of_lt hlt

theorem toNat_ofBitVec (n : BitVec 128) : toNat (ofBitVec n).toList = n.toNat := by
  show LittleEndian.toNat (LittleEndian.ofNat 16 n.toNat).reverse.reverse = n.toNat
  rw [List.reverse_reverse]
  exact LittleEndian.toNat_ofNat_of_lt n.isLt

end BigEndian

/-! ### Flipping the top bit -/

/-- Signed, a number whose top bit was flipped is the number less half of their count. -/
theorem toInt_xor_intMin {k : Nat} (x : BitVec (k + 1)) :
    (x ^^^ BitVec.intMin (k + 1)).toInt = (x.toNat : Int) - (2 ^ k : Nat) := by
  have hpos := Nat.two_pow_pos k
  have hx := x.isLt
  rw [Nat.pow_succ] at hx
  have hsplit := Nat.div_add_mod x.toNat (2 ^ k)
  have hflip := Nat.div_add_mod (x.toNat ^^^ 2 ^ k) (2 ^ k)
  rw [Nat.xor_div_two_pow, Nat.xor_mod_two_pow, Nat.div_self hpos, Nat.mod_self,
    Nat.xor_zero] at hflip
  have hlow := Nat.mod_lt x.toNat hpos
  have htop : x.toNat / 2 ^ k < 2 := Nat.div_lt_of_lt_mul hx
  rw [BitVec.toInt_eq_toNat_cond, BitVec.toNat_xor, BitVec.toNat_intMin_of_pos k.succ_pos,
    Nat.succ_sub_one, Nat.pow_succ]
  -- The top bit is zero or one, and all bits below it stay as they are.
  obtain h | h := Nat.le_one_iff_eq_zero_or_eq_one.1 (Nat.le_of_lt_succ htop)
  · rw [h, Nat.mul_zero] at hsplit
    rw [h, show (0 ^^^ 1 : Nat) = 1 from rfl, Nat.mul_one] at hflip
    rw [if_neg (by omega)]
    omega
  · rw [h, Nat.mul_one] at hsplit
    rw [h, Nat.xor_self, Nat.mul_zero] at hflip
    rw [if_pos (by omega)]
    omega

/-! ### Lower-case digits -/

namespace Text.Hex

/-- The digits that bytes are written in. -/
abbrev lowerDigits : List Char := "0123456789abcdef".toList

theorem mem_lowerDigits_iff {c : Char} : c ∈ lowerDigits ↔ ∃ d < 16, Digits.digit d = c := by
  have heq : lowerDigits = (List.range 16).map Digits.digit := by decide
  simp [heq]

theorem mem_lowerDigits_of_mem_encode {bytes : List UInt8} {c : Char} (h : c ∈ encode bytes) :
    c ∈ lowerDigits := by
  have hdigit : ∀ d < 16, Digits.digit d ∈ lowerDigits :=
    fun d hd ↦ mem_lowerDigits_iff.2 ⟨d, hd, rfl⟩
  obtain ⟨b, -, hc⟩ := List.mem_flatMap.1 h
  have hlt := b.toNat_lt
  simp only [byte, List.mem_cons, List.not_mem_nil, or_false] at hc
  rcases hc with rfl | rfl
  · exact hdigit _ (by omega)
  · exact hdigit _ (Nat.mod_lt _ (by decide))

/-- Bytes have one text in lower-case digits. -/
theorem encode_of_decode? {digits : List Char} {bytes : List UInt8}
    (hlower : ∀ c ∈ digits, c ∈ lowerDigits) (h : decode? digits = some bytes) :
    encode bytes = digits := by
  fun_induction decode? digits generalizing bytes with
  | case1 =>
    obtain rfl := Option.some.inj h
    rfl
  | case2 => cases h
  | case3 high low rest ih =>
    simp only [List.forall_mem_cons] at hlower
    obtain ⟨hhigh, hlow, hrest⟩ := hlower
    obtain ⟨d, hd, rfl⟩ := mem_lowerDigits_iff.1 hhigh
    obtain ⟨e, he, rfl⟩ := mem_lowerDigits_iff.1 hlow
    simp only [value?_digit d hd, value?_digit e he, Option.bind_eq_bind, Option.bind_some] at h
    obtain ⟨tail, htail, hbytes⟩ := Option.bind_eq_some_iff.1 h
    obtain rfl := Option.some.inj hbytes
    have hbyte : byte (UInt8.ofNat (16 * d + e)) = [Digits.digit d, Digits.digit e] := by
      have hlt : 16 * d + e < 256 := by omega
      rw [byte, UInt8.toNat_ofNat_of_lt' hlt, Nat.mul_add_div (by decide), Nat.div_eq_of_lt he,
        Nat.add_zero, Nat.mul_add_mod, Nat.mod_eq_of_lt he]
    rw [encode, List.flatMap_cons, hbyte, ← encode, ih hrest htail]
    rfl

end Text.Hex

namespace Uuid

variable {a b : Uuid}

/-! ### Order -/

@[simp] theorem length_bytes (u : Uuid) : u.bytes.length = 16 := by
  simp [bytes]

theorem toNat_bytes (u : Uuid) : BigEndian.toNat u.bytes = u.natural.toNat := by
  rw [BigEndian.toNat, bytes, List.reverse_reverse]
  exact LittleEndian.toNat_ofNat_of_lt u.natural.isLt

theorem toInt_eq (u : Uuid) : u.toInt = (u.natural.toNat : Int) - (2 ^ 127 : Nat) := by
  rw [toInt, ← ofNatural_natural u, natural_ofNatural]
  exact toInt_xor_intMin u.natural

/-- Stored UUIDs are in the order of their bytes. -/
theorem compare_eq_lt_iff : compare a b = .lt ↔ a.bytes < b.bytes := by
  rw [← BigEndian.toNat_lt_toNat_iff (by simp), toNat_bytes, toNat_bytes]
  show compare a.toInt b.toInt = .lt ↔ _
  rw [Int.compare_eq_lt, toInt_eq, toInt_eq]
  omega

theorem bytes_injective (h : a.bytes = b.bytes) : a = b := by
  have hnumber := congrArg BigEndian.toNat h
  rw [toNat_bytes, toNat_bytes] at hnumber
  rw [← ofNatural_natural a, BitVec.toNat_inj.1 hnumber, ofNatural_natural]

/-! ### Text -/

/-- The rules for the text of sixteen bytes: lower-case digits that spell the bytes, the most
significant one first, in groups of 8, 4, 4, 4 and 12 with a hyphen between them. -/
def IsText (bytes : List UInt8) (text : List Char) : Prop :=
  ∃ groups : List (List Char), groups.map List.length = [8, 4, 4, 4, 12] ∧
    (∀ c ∈ groups.flatten, c ∈ Text.Hex.lowerDigits) ∧
    Text.Hex.decode? groups.flatten = some bytes ∧ text = ['-'].intercalate groups

/-- Hyphens that stand between groups alone are all that is left out. -/
theorem filter_intercalate {groups : List (List Char)} (h : ∀ group ∈ groups, ∀ c ∈ group, c ≠ '-') :
    (['-'].intercalate groups).filter (· != '-') = groups.flatten := by
  have hclean : ∀ group ∈ groups, group.filter (· != '-') = group :=
    fun group hg ↦ List.filter_eq_self.2 fun c hc ↦ by simpa using h group hg c hc
  induction groups with
  | nil => rfl
  | cons group rest ih =>
    rw [List.forall_mem_cons] at h hclean
    cases rest with
    | nil => simpa using hclean.1
    | cons next rest =>
      rw [List.intercalate_cons_cons, List.filter_append, List.filter_append, hclean.1,
        ih h.2 hclean.2]
      simp

/-- Without its hyphens a text that follows the rules is the digits of the bytes. -/
theorem IsText.filter_eq {bytes : List UInt8} {text : List Char} (h : IsText bytes text) :
    text.filter (· != '-') = Text.Hex.encode bytes := by
  obtain ⟨groups, -, hlower, hdecode, rfl⟩ := h
  have hdigit : ∀ c ∈ Text.Hex.lowerDigits, c ≠ '-' := by simp [Text.Hex.lowerDigits]
  rw [Text.Hex.encode_of_decode? hlower hdecode, filter_intercalate]
  exact fun group hgroup c hc ↦ hdigit c (hlower c (List.mem_flatten_of_mem hgroup hc))

/-- A text says what bytes it is the text of. -/
theorem IsText.bytes_eq {bytes bytes' : List UInt8} {text : List Char} (h : IsText bytes text)
    (h' : IsText bytes' text) : bytes = bytes' := by
  have hdecode := congrArg Text.Hex.decode? (h.filter_eq.symm.trans h'.filter_eq)
  simpa only [Text.Hex.decode?_encode, Option.some.injEq] using hdecode

/-- Bytes have one text. -/
theorem IsText.text_eq {bytes : List UInt8} {text text' : List Char} (h : IsText bytes text)
    (h' : IsText bytes text') : text = text' := by
  obtain ⟨groups, hlengths, hlower, hdecode, rfl⟩ := h
  obtain ⟨groups', hlengths', hlower', hdecode', rfl⟩ := h'
  have hflatten : groups.flatten = groups'.flatten :=
    (Text.Hex.encode_of_decode? hlower hdecode).symm.trans
      (Text.Hex.encode_of_decode? hlower' hdecode')
  congr 1
  exact List.eq_iff_flatten_eq.2 ⟨hflatten, hlengths.trans hlengths'.symm⟩

/-! ### Libraries -/

/-- What the documentation of a library of UUIDs says. -/
structure Library.Documented (lib : Library) : Prop where
  /-- The first byte is the most significant one of the number. -/
  toNat_toNumber : ∀ bytes, (lib.toNumber bytes).toNat = BigEndian.toNat bytes.toList
  /-- The most significant byte of a number is the first one. -/
  toNat_ofNumber : ∀ n, BigEndian.toNat (lib.ofNumber n).toList = n.toNat
  /-- The text of bytes follows the rules. -/
  isText_hyphenated : ∀ bytes, IsText bytes.toList (lib.hyphenated bytes).toList

section Libraries

variable [lib : Library] (h : lib.Documented)

include h

theorem bytes_ofBytes (bytes : Vector UInt8 16) : (ofBytes bytes).bytes = bytes.toList := by
  refine BigEndian.toNat_injective (by simp) ?_
  rw [toNat_bytes, ofBytes, natural_ofNatural, h.toNat_toNumber]

theorem toList_toBytes (u : Uuid) : u.toBytes.toList = u.bytes := by
  refine BigEndian.toNat_injective (by simp) ?_
  rw [toNat_bytes, toBytes, h.toNat_ofNumber]

theorem isText_text (u : Uuid) : IsText u.bytes u.text.toList :=
  toList_toBytes h u ▸ h.isText_hyphenated u.toBytes

/-- Stored UUIDs that are written alike are the same. -/
theorem text_injective (htext : a.text = b.text) : a = b :=
  bytes_injective ((isText_text h a).bytes_eq (htext ▸ isText_text h b))

/-- Sixteen bytes are stored, and taken out of storage, without loss in either direction; they come
before others in the order of stored UUIDs if and only if they do in the order of bytes; and the text
of a stored UUID is the one that the rules give for its bytes. -/
theorem storage_preserves_order :
    (∀ a b, compare (ofBytes a) (ofBytes b) = .lt ↔ a.toList < b.toList) ∧
    (∀ a, (ofBytes a).toBytes = a) ∧
    (∀ u : Uuid, ofBytes u.toBytes = u) ∧
    ∀ (u : Uuid) (text : List Char), IsText u.bytes text ↔ text = u.text.toList := by
  refine ⟨fun a b ↦ ?_, fun a ↦ ?_, fun u ↦ ?_, fun u text ↦ ⟨?_, ?_⟩⟩
  · rw [compare_eq_lt_iff, bytes_ofBytes h, bytes_ofBytes h]
  · rw [← Vector.toList_inj, toList_toBytes h, bytes_ofBytes h]
  · refine bytes_injective ?_
    rw [bytes_ofBytes h, toList_toBytes h]
  · exact fun htext ↦ htext.text_eq (isText_text h u)
  · rintro rfl
    exact isText_text h u

end Libraries

/-! ### The library that spells out the digits -/

theorem length_groups {digits : List Char} (h : digits.length = 32) :
    (groups digits).map List.length = [8, 4, 4, 4, 12] := by
  simp [groups, h]

theorem flatten_groups {digits : List Char} (h : digits.length = 32) :
    (groups digits).flatten = digits := by
  have hjoin : ∀ start count, (digits.drop start).take count ++ digits.drop (start + count) =
      digits.drop start := by
    intro start count
    rw [← List.drop_drop, List.take_append_drop]
  have hlast : (digits.drop 20).take 12 = digits.drop 20 := by
    rw [List.take_of_length_le]
    simp [h]
  calc (groups digits).flatten = (digits.drop 0).take 8 ++ ((digits.drop 8).take 4 ++
        ((digits.drop 12).take 4 ++ ((digits.drop 16).take 4 ++ (digits.drop 20).take 12))) := by
        simp [groups]
    _ = digits := by rw [hlast, hjoin 16 4, hjoin 12 4, hjoin 8 4, hjoin 0 8, List.drop_zero]

/-- The digits in their groups follow the rules. -/
theorem isText_hyphenated (bytes : Vector UInt8 16) :
    IsText bytes.toList (hyphenated bytes).toList := by
  have hlength : (Text.Hex.encode bytes.toList).length = 32 := by
    simp [Text.Hex.encode, Text.Hex.byte, List.length_flatMap, List.map_const']
  refine ⟨_, length_groups hlength, ?_, ?_, String.toList_ofList⟩
  · rw [flatten_groups hlength]
    exact fun c ↦ Text.Hex.mem_lowerDigits_of_mem_encode
  · rw [flatten_groups hlength, Text.Hex.decode?_encode]

theorem documented_standard : standard.Documented :=
  ⟨BigEndian.toNat_toBitVec, BigEndian.toNat_ofBitVec, isText_hyphenated⟩

/-- The last UUID with an unset top bit. -/
abbrev lastLow : Vector UInt8 16 := ⟨#[0x7f] ++ Array.replicate 15 0xff, rfl⟩

/-- The first UUID with a set top bit. -/
abbrev firstHigh : Vector UInt8 16 := ⟨#[0x80] ++ Array.replicate 15 0, rfl⟩

/-- Where the top bit changes, the stored numbers go from minus one to zero. -/
theorem middle_storage :
    standard.Documented ∧ (ofBytes lastLow).toInt = -1 ∧ (ofBytes firstHigh).toInt = 0 ∧
      compare (ofBytes lastLow) (ofBytes firstHigh) = .lt ∧
      (ofBytes firstHigh).toBytes = firstHigh ∧
      IsText (ofBytes firstHigh).bytes "80000000-0000-0000-0000-000000000000".toList := by
  obtain ⟨horder, hbytes, -, htext⟩ := storage_preserves_order documented_standard
  exact ⟨documented_standard, rfl, rfl, (horder lastLow firstHigh).2 (by decide),
    hbytes firstHigh, (htext _ _).2 (by decide)⟩

end Uuid

end Columnar
