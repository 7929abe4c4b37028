import Columnar.Proofs.VectorParts

/-!
# Numbers in slots of their own width

Integers, points in time, decimals and the like are numbers of a width that is known from the type
(`LogicalType.HasNumbers`), and so are the entries of a dictionary, by their index. Every pattern of
bytes of that width is such a number. Reading takes it out of its slot as a literal
(`LogicalType.literalOf`), and encoding that literal gives the pattern back
(`LogicalType.HasNumbers.encodeNumber_literalOf`): no two patterns are read as one number.

A column of numbers that is read and written again therefore has the bytes it had, with zeros in the
slots of null rows (`Column.writesBack`). Nothing is asked of the bytes, which need not have been
written by an encoder.
-/

namespace Columnar

open LittleEndian

/-! ### Patterns and numbers -/

namespace LittleEndian

variable {bytes : List UInt8} {width : Nat}

theorem ofNat_toNat_of_length_eq (h : bytes.length = width) : ofNat width (toNat bytes) = bytes :=
  h ▸ ofNat_toNat bytes

theorem ofInt_toInt_of_length_eq (h : bytes.length = width) : ofInt width (toInt bytes) = bytes :=
  h ▸ ofInt_toInt bytes

theorem toNat_lt_of_length_eq (h : bytes.length = width) : toNat bytes < 256 ^ width :=
  h ▸ toNat_lt bytes

/-- Without a sign, a number is written as the natural number it is. -/
theorem ofInt_toNat_of_length_eq (h : bytes.length = width) : ofInt width (toNat bytes) = bytes := by
  rw [ofInt_eq, ← Int.natCast_emod, Int.toNat_natCast, Nat.mod_eq_of_lt (toNat_lt_of_length_eq h),
    ofNat_toNat_of_length_eq h]

end LittleEndian

/-- Every pattern is packed as it was taken apart. -/
theorem TimeTz.toBits?_ofBits (bits : UInt64) : (ofBits bits).toBits? = some bits := by
  have hdistance : (maxOffset : Int) - (ofBits bits).offsetSeconds.toInt =
      (bits.toNat % offsetCount : Nat) := by
    rw [toInt_offsetSeconds_ofBits]
    omega
  have hmax : Int32.maxValue.toInt = 2147483647 := rfl
  rw [toBits?, hdistance, if_pos (by simp only [offsetCount]; omega), toNat_micros_ofBits,
    ← Int.natCast_emod, Int.toNat_natCast, Nat.mod_mod, Nat.div_add_mod', UInt64.ofNat_toNat]

/-- The literal of a number, where a UUID is given by its natural value. Other values have none, which
is null. -/
def Value.literal : Value → Literal
  | .boolean b => .boolean b
  | .integer kind n => .integer kind n
  | .float bits => .float bits
  | .double bits => .double bits
  | .temporal kind n => .temporal kind n
  | .timeTz t => .timeTz t
  | .interval i => .interval i
  | .uuid u => .uuid (.ofNatural u.natural)
  | .decimal d => .decimal d.value
  | _ => .null

namespace FixedKind

variable {kind : FixedKind} {slot : List UInt8}

theorem literal_decode_ne_null (kind : FixedKind) (slot : List UInt8) :
    (kind.decode slot).literal ≠ .null := by
  cases kind <;> simp [decode, Value.literal]

theorem length_encode {l : Literal} {bytes : List UInt8} (h : kind.encode l = .ok bytes) :
    bytes.length = kind.width := by
  unfold encode at h
  split at h
  case h_2 | h_5 =>
    split_ifs at h with hkind
    · obtain rfl := Except.ok.inj h
      simp [width]
    · cases h
  case h_6 =>
    split at h
    · obtain rfl := Except.ok.inj h
      simp [width]
    · cases h
  case h_9 => cases h
  all_goals
    obtain rfl := Except.ok.inj h
    simp [width]

/-- The parts of an interval stand one behind the other. -/
theorem encode_decode_interval (h : slot.length = 16) :
    ofInt 4 (toInt (slot.take 4)) ++ ofInt 4 (toInt ((slot.drop 4).take 4)) ++
      ofInt 8 (toInt ((slot.drop 8).take 8)) = slot := by
  rw [ofInt_toInt_of_length_eq (by simp [h]), ofInt_toInt_of_length_eq (by simp [h]),
    ofInt_toInt_of_length_eq (by simp [h]), ← List.take_add,
    List.take_of_length_le (l := slot.drop 8) (by simp [h]), List.take_append_drop]

/-- Reading a slot and writing what was read gives back the slot. -/
theorem encode_literal_decode (hkind : kind ≠ .boolean) (h : slot.length = kind.width) :
    kind.encode (kind.decode slot).literal = .ok slot := by
  have htake : slot.take kind.width = slot := List.take_of_length_le h.le
  simp only [decode.eq_def, htake]
  cases kind with
  | boolean => exact absurd rfl hkind
  | integer kind =>
    have h : slot.length = kind.width := h
    rw [Value.literal, encode, if_pos rfl]
    split
    next =>
      rw [ofInt_toInt_of_length_eq h]
      rfl
    next =>
      rw [ofInt_toNat_of_length_eq h]
      rfl
  | float =>
    have h : slot.length = 4 := h
    rw [Value.literal, encode, UInt32.toNat_ofNat_of_lt' (toNat_lt_of_length_eq h),
      ofNat_toNat_of_length_eq h]
    rfl
  | double =>
    have h : slot.length = 8 := h
    rw [Value.literal, encode, UInt64.toNat_ofNat_of_lt' (toNat_lt_of_length_eq h),
      ofNat_toNat_of_length_eq h]
    rfl
  | temporal kind =>
    have h : slot.length = kind.width := h
    rw [Value.literal, encode, if_pos rfl, ofInt_toInt_of_length_eq h]
    rfl
  | timeTz =>
    have h : slot.length = 8 := h
    simp only [Value.literal, encode, TimeTz.toBits?_ofBits]
    rw [UInt64.toNat_ofNat_of_lt' (toNat_lt_of_length_eq h), ofNat_toNat_of_length_eq h]
    rfl
  | interval => exact congrArg Except.ok (encode_decode_interval h)
  | uuid =>
    have h : slot.length = 16 := h
    have hlt : toNat slot < 2 ^ 128 := toNat_lt_of_length_eq h
    rw [Value.literal, encode, Uuid.ofNatural_natural, BitVec.toNat_ofNat, Nat.mod_eq_of_lt hlt,
      ofNat_toNat_of_length_eq h]
    rfl

end FixedKind

/-! ### Types of numbers -/

namespace LogicalType

/-- The rows of the type are numbers of `width` bytes: integers and all else of a fixed width apart
from booleans, which are not told apart by their bytes, decimals, and the indices of dictionary
entries. -/
inductive HasNumbers : LogicalType → Nat → Prop where
  | fixed {kind : FixedKind} (hkind : kind ≠ .boolean) : HasNumbers (.fixed kind) kind.width
  | decimal {t : DecimalType} {width : Nat} (hscale : t.scale ≤ t.width)
    (hwidth : t.physicalWidth? = some width) : HasNumbers (.decimal t) width
  | enumeration {t : EnumType} : HasNumbers (.enumeration t) t.indexWidth

/-- The number in a slot, as a literal. A dictionary entry is given by its index. -/
def literalOf (t : LogicalType) (slot : List UInt8) : Literal :=
  match t with
  | .fixed kind => (kind.decode slot).literal
  | .decimal _ => .decimal (toInt slot)
  | .enumeration _ => .enumIndex (toNat slot)
  | _ => .null

/-- The `width` bytes of a number. -/
def encodeNumber (t : LogicalType) (width : Nat) (l : Literal) : Encoding (List UInt8) :=
  match t with
  | .fixed kind => kind.encode l
  | .decimal t => t.encode width l
  | .enumeration t => ofNat width <$> t.indexOf l
  | t => Encoding.refuse (.notOfType l t)

namespace HasNumbers

variable {t : LogicalType} {width : Nat} {slot : List UInt8}

theorem literalOf_ne_null (ht : t.HasNumbers width) : t.literalOf slot ≠ .null := by
  cases ht with
  | fixed => exact FixedKind.literal_decode_ne_null _ slot
  | decimal | enumeration => simp [literalOf]

/-- No two patterns are read as one number: the number is encoded into its pattern. -/
theorem encodeNumber_literalOf (ht : t.HasNumbers width) (h : slot.length = width) :
    t.encodeNumber width (t.literalOf slot) = .ok slot := by
  cases ht with
  | fixed hkind => exact FixedKind.encode_literal_decode hkind h
  | decimal => exact congrArg Except.ok (ofInt_toInt_of_length_eq h)
  | enumeration => exact congrArg Except.ok (ofNat_toNat_of_length_eq h)

/-- A number fills its slot. -/
theorem length_encodeNumber (ht : t.HasNumbers width) {l : Literal} {bytes : List UInt8}
    (h : t.encodeNumber width l = .ok bytes) : bytes.length = width := by
  cases ht with
  | fixed => exact FixedKind.length_encode h
  | decimal =>
    cases l with
    | decimal n => exact Except.ok.inj h ▸ length_ofInt width n
    | _ => cases h
  | enumeration =>
    obtain ⟨index, -, rfl⟩ := map_eq_ok_iff.1 h
    exact length_ofNat _ index

theorem addVector_eq (ht : t.HasNumbers width) (values : List Literal) :
    Encoder.addVector t values =
      Encoder.addLeaf t values (encodeSlots width (t.encodeNumber width) values) := by
  cases ht with
  | @fixed kind hkind =>
    cases kind with
    | boolean => exact absurd rfl hkind
    | _ => rfl
  | @decimal type width hscale hwidth =>
    show Encoder.addLeaf _ values (type.encodeSlots values) = _
    rw [DecimalType.encodeSlots, hwidth]
    rfl
  | enumeration => rfl

end HasNumbers

end LogicalType

/-! ### Reading numbers -/

/-- The buffers of a vector with slots of `width` bytes. -/
def RawVector.slots (v : RawVector) (width : Nat) : Slots := ⟨v.data, width, v.validity⟩

/-- The vector has a slot of `width` bytes, and a bit if there are any, for each of `n` rows. -/
structure RawVector.HasSlots (v : RawVector) (width n : Nat) : Prop where
  size_le : n * width ≤ v.data.size
  size_lt : n * width < Chunk.sizeLimit
  covers : v.validity.covers n = true

namespace RawVector.HasSlots

variable {v : RawVector} {width n i : Nat}

theorem holds (h : v.HasSlots width n) : (v.slots width).Holds n := ⟨h.size_le, h.size_lt⟩

theorem slots_eq (h : v.HasSlots width n) {chunk : Chunk} {id : Nat}
    (hv : chunk.vectors[id]? = some v) :
    chunk.slots id n width width = .ok (.whole (v.slots width) n) :=
  Chunk.slots_eq_ok_iff.2 ⟨Nat.le_refl _, h.size_lt, v, hv, h.size_le, h.covers, rfl⟩

/-- A slot has no bytes but those of its number. -/
theorem take_bytes (h : v.HasSlots width n) (hi : i < n) :
    ((v.slots width).bytes i).take width = (v.slots width).bytes i :=
  List.take_of_length_le (Slots.length_bytes h.holds hi).le

end RawVector.HasSlots

namespace Column

/-- What row `i` holds, as a literal. A dictionary entry is given by its index. -/
def literal (c : Column) (i : Nat) : Outcome Literal :=
  match c.content with
  | .enumeration .. => (·.elim .null .enumIndex) <$> c.index i
  | _ => Value.literal <$> c.getItem i

section Decode

variable {chunk : Chunk} {config : DecodeConfig} {v : RawVector} {id n width : Nat}

theorem exists_decode_decimal {t : DecimalType} (hscale : t.scale ≤ t.width)
    (hwidth : t.physicalWidth? = some width) (hconfig : 1 ≤ config.maxNestingDepth)
    (hv : chunk.vectors[id]? = some v) (h : v.HasSlots width n) :
    ∃ c, decode chunk config id n (.decimal t) = .ok c ∧
      c.content = .decimal t width (v.slots width) ∧
      ∀ i < n, c.getItem i = .ok (if v.validity.isValid i then
        .decimal ⟨toInt ((v.slots width).bytes i), t.width, t.scale⟩ else .null) := by
  have hdecode : decode chunk config id n (.decimal t) =
      .ok (ofDecimals t width (.whole (v.slots width) n)) :=
    decodeAt_decimal_eq_ok_iff.2
      ⟨hconfig, decodeDecimal_eq_ok_iff.2 ⟨hscale, width, _, hwidth, h.slots_eq hv, rfl⟩⟩
  refine ⟨_, hdecode, rfl, fun i hi ↦ ?_⟩
  rw [getItem_of_decodeAt hdecode hi]
  show (if v.validity.isValid i then Except.ok (Value.decimal
    ⟨toInt (((v.slots width).bytes (0 + i)).take width), t.width, t.scale⟩) else _) = _
  rw [Nat.zero_add, h.take_bytes hi]
  split <;> rfl

/-- The indices of a column of dictionary entries are had from their slots, whether or not there are
entries at them. -/
theorem exists_decode_enumeration {t : EnumType} (hconfig : 1 ≤ config.maxNestingDepth)
    (hv : chunk.vectors[id]? = some v) (h : v.HasSlots t.indexWidth n) :
    ∃ c, decode chunk config id n (.enumeration t) = .ok c ∧
      c.content = .enumeration t t.indexWidth (v.slots t.indexWidth) ∧
      ∀ i < n, c.index i = .ok (if v.validity.isValid i then
        some (toNat ((v.slots t.indexWidth).bytes i)) else none) := by
  have hdecode : decode chunk config id n (.enumeration t) =
      .ok (ofIndices t t.indexWidth (.whole (v.slots t.indexWidth) n)) :=
    decodeAt_enumeration_eq_ok_iff.2 ⟨hconfig, _, h.slots_eq hv, rfl⟩
  refine ⟨_, hdecode, rfl, fun i hi ↦ ?_⟩
  show ((v.slots t.indexWidth).get 0 n i >>= _) = _
  rw [Slots.get_bind_of_holds h.holds (Nat.le_of_eq (Nat.zero_add n)) hi, Nat.zero_add]
  show (if v.validity.isValid i then _ else _) = _
  split
  next => exact congrArg (fun bytes ↦ Except.ok (some (toNat bytes))) (h.take_bytes hi)
  next => rfl

/-- Numbers are opened as a column, from which their literals are read. -/
theorem exists_decode_numbers {t : LogicalType} (ht : t.HasNumbers width)
    (hconfig : 1 ≤ config.maxNestingDepth) (hv : chunk.vectors[id]? = some v)
    (h : v.HasSlots width n) :
    ∃ c, decode chunk config id n t = .ok c ∧ ∀ i < n, c.literal i =
      .ok (if v.validity.isValid i then t.literalOf ((v.slots width).bytes i) else .null) := by
  cases ht with
  | @fixed kind hkind =>
    have hslotWidth : slotWidth chunk kind = kind.width := by
      cases kind with
      | boolean => exact absurd rfl hkind
      | _ => rfl
    have hdecode : decode chunk config id n (.fixed kind) =
        .ok (ofFixed kind (.whole (v.slots kind.width) n)) :=
      decodeAt_fixed_eq_ok_iff.2 ⟨hconfig, _, hslotWidth ▸ h.slots_eq hv, rfl⟩
    refine ⟨_, hdecode, fun i hi ↦ ?_⟩
    show Value.literal <$> getItem _ i = _
    rw [getItem_of_decodeAt hdecode hi]
    show Value.literal <$> (if v.validity.isValid i then
      Except.ok (kind.decode ((v.slots kind.width).bytes (0 + i))) else _) = _
    rw [Nat.zero_add]
    split <;> rfl
  | @decimal type width hscale hwidth =>
    obtain ⟨c, hc, hcontent, hrows⟩ := exists_decode_decimal hscale hwidth hconfig hv h
    refine ⟨c, hc, fun i hi ↦ ?_⟩
    rw [literal, hcontent]
    show Value.literal <$> c.getItem i = _
    rw [hrows i hi]
    split <;> rfl
  | enumeration =>
    obtain ⟨c, hc, hcontent, hrows⟩ := exists_decode_enumeration hconfig hv h
    refine ⟨c, hc, fun i hi ↦ ?_⟩
    rw [literal, hcontent]
    show (Option.elim · Literal.null Literal.enumIndex) <$> c.index i = _
    rw [hrows i hi]
    split <;> rfl

end Decode

end Column

/-! ### Writing numbers -/

/-- The vector has the type and a slot for each literal, and is null where the literal is. The slots
are the numbers, and zeros for nulls. -/
structure RawVector.EncodesNumbers (v : RawVector) (t : LogicalType) (width : Nat)
    (values : List Literal) : Prop where
  type_eq : v.type = t
  size_eq : v.data.size = values.length * width
  hasSlots : v.HasSlots width values.length
  isValid_eq : ∀ i l, values[i]? = some l → v.validity.isValid i = !l.isNull
  slotOf_eq : ∀ i l, values[i]? = some l →
    Encoder.slotOf width (t.encodeNumber width) l = .ok ((v.slots width).bytes i)

namespace Encoder

variable {t : LogicalType} {width : Nat} {values : List Literal} {b b' : Builder}

theorem length_of_slotOf (ht : t.HasNumbers width) {l : Literal} {slot : List UInt8}
    (h : slotOf width (t.encodeNumber width) l = .ok slot) : slot.length = width := by
  by_cases hnull : l = .null
  · rw [hnull, slotOf_null] at h
    exact Except.ok.inj h ▸ List.length_replicate
  · rw [slotOf_of_ne_null hnull] at h
    obtain ⟨bytes, hbytes, hslot⟩ := bind_eq_ok_iff.1 h
    have hlen := ht.length_encodeNumber hbytes
    rw [append_zeros_of_length_eq hlen] at hslot
    exact Except.ok.inj hslot ▸ hlen

/-- The slot of a number is its bytes. -/
theorem slotOf_eq_ok (ht : t.HasNumbers width) {l : Literal} {bytes : List UInt8} (hnull : l ≠ .null)
    (h : t.encodeNumber width l = .ok bytes) :
    slotOf width (t.encodeNumber width) l = .ok bytes := by
  rw [slotOf_of_ne_null hnull, h, ok_bind, append_zeros_of_length_eq (ht.length_encodeNumber h)]
  rfl

theorem encodesNumbers_of_encodeSlots (ht : t.HasNumbers width) {data : Array UInt8}
    (h : encodeSlots width (t.encodeNumber width) values = .ok data) :
    RawVector.EncodesNumbers { type := t, data, validity := bitmapOf values } t width values := by
  obtain ⟨hreserve, slots, hslots, rfl⟩ := encodeSlots_eq_ok_iff.1 h
  have hlength : ∀ slot ∈ slots, slot.length = width := by
    intro slot hslot
    obtain ⟨l, -, hl⟩ := exists_mem_of_forall₂ hslots hslot
    exact length_of_slotOf ht hl
  obtain ⟨hsize, hbytes⟩ := Slots.bytes_of_forall₂ (bitmapOf values) hlength hslots
  have hlimit : Encoding.memoryLimit < Chunk.sizeLimit := by decide
  exact ⟨rfl, hsize, ⟨hsize.ge, hreserve.trans hlimit, covers_bitmapOf values⟩,
    fun i l hl ↦ isValid_bitmapOf hl, hbytes⟩

/-- A column of numbers is added if it has as many rows as those before it and its literals can be
encoded. Its vector is then the last one, and encodes the literals. -/
theorem run_addColumn_numbers (ht : t.HasNumbers width) :
    (addColumn t values).run b = (.ok (), b') ↔
      (b.rowCount? = none ∨ b.rowCount? = some values.length) ∧
        ∃ data, encodeSlots width (t.encodeNumber width) values = .ok data ∧ b' = { b with
          rowCount? := some values.length
          vectors := b.vectors.push { type := t, data, validity := bitmapOf values }
          columns := b.columns ++ [b.vectors.size] } := by
  simp only [addColumn, run_bind_eq_ok_iff, run_expectRows_eq_ok_iff, run_adapt_eq_ok_iff,
    ht.addVector_eq, run_addLeaf_eq_ok_iff]
  constructor
  · rintro ⟨_, _, ⟨hrows, rfl⟩, _, _, ⟨data, hdata, rfl, rfl⟩, happend⟩
    exact ⟨hrows, data, hdata, (Prod.mk.inj happend).2.symm⟩
  · rintro ⟨hrows, data, hdata, rfl⟩
    exact ⟨(), _, ⟨hrows, rfl⟩, _, _, ⟨data, hdata, rfl, rfl⟩, rfl⟩

end Encoder

/-! ### Written back -/

/-- What the first `n` rows of a vector of numbers hold, as literals. -/
def RawVector.literals (v : RawVector) (t : LogicalType) (width n : Nat) : List Literal :=
  (List.range n).map fun i ↦
    if v.validity.isValid i then t.literalOf ((v.slots width).bytes i) else .null

namespace RawVector

variable {v w : RawVector} {t : LogicalType} {width n i : Nat}

@[simp] theorem length_literals (v : RawVector) (t : LogicalType) (width n : Nat) :
    (v.literals t width n).length = n := by
  simp [literals]

theorem getElem?_literals (hi : i < n) :
    (v.literals t width n)[i]? =
      some (if v.validity.isValid i then t.literalOf ((v.slots width).bytes i) else .null) := by
  simp [literals, hi]

theorem HasSlots.encodeNumber_literalOf (h : v.HasSlots width n) (ht : t.HasNumbers width)
    (hi : i < n) :
    t.encodeNumber width (t.literalOf ((v.slots width).bytes i)) = .ok ((v.slots width).bytes i) :=
  ht.encodeNumber_literalOf (Slots.length_bytes h.holds hi)

/-- The literals of a vector can be encoded, whatever its bytes are. -/
theorem HasSlots.exists_encodeSlots (h : v.HasSlots width n) (ht : t.HasNumbers width)
    (hmemory : n * width < Encoding.memoryLimit) :
    ∃ data, encodeSlots width (t.encodeNumber width) (v.literals t width n) = .ok data := by
  have hencode : ∀ l ∈ v.literals t width n, l ≠ .null → ∃ bytes,
      t.encodeNumber width l = .ok bytes ∧ bytes.length ≤ width ∧ True := by
    intro l hl hne
    obtain ⟨i, hi, rfl⟩ := List.mem_map.1 hl
    have hi : i < n := List.mem_range.1 hi
    split at hne
    next hvalid =>
      rw [if_pos hvalid]
      exact ⟨_, h.encodeNumber_literalOf ht hi, (Slots.length_bytes h.holds hi).le, trivial⟩
    next => exact absurd rfl hne
  obtain ⟨slots, hslots, -⟩ := Encoder.exists_encodeSlots (P := fun _ _ ↦ True)
    (by rwa [length_literals]) hencode
  exact ⟨_, hslots⟩

/-- A vector that encodes the literals of another one has its slots, and zeros for nulls. -/
theorem EncodesNumbers.eq_of_literals (hw : w.EncodesNumbers t width (v.literals t width n))
    (ht : t.HasNumbers width) (h : v.HasSlots width n) (hi : i < n) :
    w.validity.isValid i = v.validity.isValid i ∧ (w.slots width).bytes i =
      if v.validity.isValid i then (v.slots width).bytes i else List.replicate width 0 := by
  have hvalidity := hw.isValid_eq i _ (getElem?_literals hi)
  have hslot := hw.slotOf_eq i _ (getElem?_literals hi)
  by_cases hvalid : v.validity.isValid i = true
  · rw [if_pos hvalid, Literal.isNull_eq_false ht.literalOf_ne_null] at hvalidity
    rw [if_pos hvalid,
      Encoder.slotOf_eq_ok ht ht.literalOf_ne_null (h.encodeNumber_literalOf ht hi)] at hslot
    rw [if_pos hvalid, hvalid]
    exact ⟨hvalidity, (Except.ok.inj hslot).symm⟩
  · rw [if_neg hvalid] at hvalidity
    rw [if_neg hvalid, Encoder.slotOf_null] at hslot
    rw [if_neg hvalid, Bool.eq_false_of_not_eq_true hvalid]
    exact ⟨hvalidity, (Except.ok.inj hslot).symm⟩

end RawVector

namespace Column

open Encoder (addColumn)

/-- Numbers that are read from a vector and written as a column of the same type have the bytes they
had. The new vector has the rows of the old one, null where it is null, with the same bytes in all
other slots and zeros in the slots of null rows. The bytes of the old vector are arbitrary, and neither
reading nor writing fails. -/
theorem writesBack {t : LogicalType} {chunk : Chunk} {config : DecodeConfig} {v : RawVector}
    {b : Builder} {width id n : Nat} (ht : t.HasNumbers width)
    (hconfig : 1 ≤ config.maxNestingDepth) (hv : chunk.vectors[id]? = some v)
    (hsize : n * width ≤ v.data.size) (hmemory : v.data.size < Encoding.memoryLimit)
    (hcovers : v.validity.covers n = true)
    (hrows : b.rowCount? = none ∨ b.rowCount? = some n) :
    ∃ c values b' w, decode chunk config id n t = .ok c ∧
      (List.range n).mapM c.literal = .ok values ∧
      (addColumn t values).run b = (.ok (), b') ∧
      b'.vectors = b.vectors.push w ∧ b'.columns = b.columns ++ [b.vectors.size] ∧
      w.type = t ∧ w.data.size = n * width ∧
      ∀ i < n, w.validity.isValid i = v.validity.isValid i ∧ (w.slots width).bytes i =
        if v.validity.isValid i then (v.slots width).bytes i else List.replicate width 0 := by
  have hlimit : Encoding.memoryLimit < Chunk.sizeLimit := by decide
  have hslots : v.HasSlots width n := ⟨hsize, by omega, hcovers⟩
  obtain ⟨c, hc, hread⟩ := exists_decode_numbers ht hconfig hv hslots
  have hvalues : (List.range n).mapM c.literal = .ok (v.literals t width n) :=
    mapM_eq_ok_map fun i hi ↦ hread i (List.mem_range.1 hi)
  obtain ⟨data, hdata⟩ := hslots.exists_encodeSlots ht (hsize.trans_lt hmemory)
  have hw := Encoder.encodesNumbers_of_encodeSlots ht hdata
  have hadd := (Encoder.run_addColumn_numbers ht).2
    ⟨(v.length_literals t width n).symm ▸ hrows, data, hdata, rfl⟩
  refine ⟨c, _, _, _, hc, hvalues, hadd, rfl, rfl, rfl, ?_, fun i hi ↦ hw.eq_of_literals ht hslots hi⟩
  rw [hw.size_eq, RawVector.length_literals]

/-- Two times with a zone. The first one has all bits set, and the second one is null. -/
def timesVector : RawVector where
  type := .fixed .timeTz
  data := #[255, 255, 255, 255, 255, 255, 255, 255, 1, 2, 3, 4, 5, 6, 7, 8]
  validity := some #[1]

/-- The time with all bits set has them all again, and the one that is null has none. -/
theorem timesVector_writesBack :
    ((LogicalType.fixed .timeTz).HasNumbers 8 ∧ 2 * 8 ≤ timesVector.data.size ∧
      timesVector.data.size < Encoding.memoryLimit ∧ timesVector.validity.covers 2 = true) ∧
    ∃ c values b' w, decode { vectors := #[timesVector] } {} 0 2 (.fixed .timeTz) = .ok c ∧
      (List.range 2).mapM c.literal = .ok values ∧
      (addColumn (.fixed .timeTz) values).run default = (.ok (), b') ∧ b'.vectors = #[w] ∧
      w.validity.isValid 0 = true ∧ (w.slots 8).bytes 0 = List.replicate 8 255 ∧
      w.validity.isValid 1 = false ∧ (w.slots 8).bytes 1 = List.replicate 8 0 := by
  have ht : (LogicalType.fixed .timeTz).HasNumbers 8 := .fixed (by decide)
  obtain ⟨c, values, b', w, hc, hvalues, hadd, hvectors, -, -, -, hrows⟩ :=
    @writesBack (.fixed .timeTz) { vectors := #[timesVector] } {} timesVector default 8 0 2 ht
      (by decide) rfl (by decide) (by decide) (by decide) (.inl rfl)
  obtain ⟨hvalid, hbytes⟩ := hrows 0 (by decide)
  obtain ⟨hnull, hzeros⟩ := hrows 1 (by decide)
  exact ⟨⟨ht, by decide, by decide, by decide⟩, c, values, b', w, hc, hvalues, hadd, hvectors,
    hvalid, hbytes, hnull, hzeros⟩

end Column

end Columnar
