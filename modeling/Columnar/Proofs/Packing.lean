import Columnar.Proofs.LeafBytes
import Columnar.Proofs.Opening
import Columnar.Proofs.Rows

/-!
# Slots of literals

An encoded vector is its slots, put one after the other, next to the bitmap of its literals. All
slots have one length, so each of them is found again by its position (`Slots.bytes_flatten`), and a
vector that stores literals in this way (`RawVector.Stores`) gives them all back
(`Chunk.slots_of_stores`). What a slot has to do with its literal is left open here; that of a list
says where its elements lie (`LiesAt`).
-/

namespace Columnar

/-! ### Equal parts -/

section Parts

variable {α : Type} {parts : List (List α)} {part : List α} {width i : Nat}

theorem length_flatten_of_length_eq (h : ∀ p ∈ parts, p.length = width) :
    parts.flatten.length = parts.length * width := by
  induction parts with
  | nil => simp
  | cons p parts ih =>
    obtain ⟨hp, hparts⟩ := List.forall_mem_cons.1 h
    rw [List.flatten_cons, List.length_append, ih hparts, hp, List.length_cons, Nat.add_one_mul,
      Nat.add_comm]

/-- Part `i` of equally long parts starts at `i` times their length. -/
theorem take_drop_flatten (h : ∀ p ∈ parts, p.length = width) (hi : parts[i]? = some part) :
    (parts.flatten.drop (i * width)).take width = part := by
  induction parts generalizing i with
  | nil => simp at hi
  | cons p parts ih =>
    obtain ⟨hp, hparts⟩ := List.forall_mem_cons.1 h
    cases i with
    | zero =>
      obtain rfl : p = part := by simpa using hi
      rw [Nat.zero_mul, List.drop_zero, List.flatten_cons, List.take_left' hp]
    | succ i =>
      have hmul : (i + 1) * width = p.length + i * width := by rw [hp, Nat.add_one_mul, Nat.add_comm]
      rw [hmul, List.flatten_cons, List.drop_length_add_append]
      exact ih hparts (by simpa using hi)

theorem getElem?_flatten (h : ∀ p ∈ parts, p.length = width) (hi : parts[i]? = some part) {j : Nat}
    (hj : j < width) : parts.flatten[i * width + j]? = part[j]? := by
  rw [← take_drop_flatten h hi, List.getElem?_take_of_lt hj, List.getElem?_drop]

/-- A slot is what was put at its place. -/
theorem Slots.bytes_flatten {slots : List (List UInt8)} {slot : List UInt8} (words : Bitmap)
    (h : ∀ s ∈ slots, s.length = width) (hi : slots[i]? = some slot) :
    Slots.bytes ⟨slots.flatten.toArray, width, words⟩ i = slot := by
  rw [Slots.bytes, Array.toList_extract, List.extract_eq_take_drop, Nat.add_sub_cancel_left]
  exact take_drop_flatten h hi

/-- What relates things to their slots relates each of them to what is found at its place. -/
theorem Slots.bytes_of_forall₂ {slots : List (List UInt8)} {as : List α} {R : α → List UInt8 → Prop}
    (words : Bitmap) (h : ∀ s ∈ slots, s.length = width) (hall : List.Forall₂ R as slots) :
    slots.flatten.toArray.size = as.length * width ∧
      ∀ i a, as[i]? = some a → R a (Slots.bytes ⟨slots.flatten.toArray, width, words⟩ i) := by
  refine ⟨by rw [List.size_toArray, length_flatten_of_length_eq h, hall.length_eq], ?_⟩
  intro i a ha
  obtain ⟨hi, rfl⟩ := List.getElem?_eq_some_iff.1 ha
  have hi' : i < slots.length := hall.length_eq ▸ hi
  rw [Slots.bytes_flatten words h (List.getElem?_eq_getElem hi')]
  exact (List.forall₂_iff_get.1 hall).2 i hi hi'

end Parts

/-! ### Bitmaps -/

namespace Encoder

theorem covers_bitmapOf (values : List Literal) : (bitmapOf values).covers values.length = true := by
  have := Bitmap.covers_ofFlags (values.map (!·.isNull))
  rwa [List.length_map] at this

theorem isValid_bitmapOf {values : List Literal} {i : Nat} {l : Literal} (h : values[i]? = some l) :
    (bitmapOf values).isValid i = !l.isNull := by
  obtain ⟨hi, rfl⟩ := List.getElem?_eq_some_iff.1 h
  have hlen : i < (values.map (!·.isNull)).length := by simpa using hi
  rw [bitmapOf, Bitmap.isValid_ofFlags hlen, List.getElem_map]

/-- The bitmap is that of any literals that are null in the same places. -/
theorem bitmapOf_map {f : Literal → Literal} {values : List Literal}
    (h : ∀ l ∈ values, (f l).isNull = l.isNull) : bitmapOf (values.map f) = bitmapOf values := by
  rw [bitmapOf, bitmapOf, List.map_map]
  exact congrArg Bitmap.ofFlags (List.map_congr_left fun l hl ↦ congrArg not (h l hl))

end Encoder

/-! ### Vectors of slots -/

/-- The vector has a slot of `width` bytes for each literal, and is null where the literal is; all
other slots are related to their literals by `P`. -/
def RawVector.Stores (v : RawVector) (width : Nat) (values : List Literal)
    (P : Literal → List UInt8 → Prop) : Prop :=
  v.validity = Encoder.bitmapOf values ∧ ∃ slots : List (List UInt8),
    v.data = slots.flatten.toArray ∧
      List.Forall₂ (fun l slot ↦ slot.length = width ∧ (l ≠ .null → P l slot)) values slots

/-- The slots of a vector that stores literals are those of the literals. -/
theorem Chunk.slots_of_stores {c : Chunk} {id width valueWidth : Nat} {v : RawVector}
    {values : List Literal} {P : Literal → List UInt8 → Prop} (hv : c.vectors[id]? = some v)
    (h : v.Stores width values P) (hwidth : valueWidth ≤ width)
    (hsize : values.length * width < sizeLimit) :
    ∃ s : Slots, c.slots id values.length width valueWidth = .ok (.whole s values.length) ∧
      ∀ i l, values[i]? = some l →
        s.words.isValid i = !l.isNull ∧ (l ≠ .null → P l (s.bytes i)) := by
  obtain ⟨hvalidity, slots, hdata, hslots⟩ := h
  have hlen : ∀ s ∈ slots, s.length = width := by
    intro s hs
    obtain ⟨l, -, hl, -⟩ := exists_mem_of_forall₂ hslots hs
    exact hl
  obtain ⟨hdataSize, hbytes⟩ := Slots.bytes_of_forall₂ v.validity hlen hslots
  rw [← hdata] at hdataSize hbytes
  refine ⟨⟨v.data, width, v.validity⟩, slots_eq_ok_iff.2 ⟨hwidth, hsize, v, hv, ?_, ?_, rfl⟩, ?_⟩
  · exact Nat.le_of_eq hdataSize.symm
  · rw [hvalidity]
    exact Encoder.covers_bitmapOf values
  · intro i l hl
    exact ⟨by rw [hvalidity]; exact Encoder.isValid_bitmapOf hl, (hbytes i l hl).2⟩

/-! ### Entries of lists -/

/-- The slot of a list says where its elements lie among all of them. -/
def LiesAt (all items : List Literal) (slot : List UInt8) : Prop :=
  ∃ before after, all = before ++ items ++ after ∧ entryOf slot = (before.length, items.length)

namespace LiesAt

variable {all items : List Literal} {slot : List UInt8}

theorem append (h : LiesAt all items slot) (more : List Literal) :
    LiesAt (all ++ more) items slot := by
  obtain ⟨before, after, rfl, hentry⟩ := h
  exact ⟨before, after ++ more, by simp, hentry⟩

/-- The entry is a run of rows within all of them, and the elements are those rows. -/
theorem entryRange_eq_ok (h : LiesAt all items slot) :
    ∃ offset, entryRange slot all.length = .ok (offset, items.length) ∧
      offset + items.length ≤ all.length ∧
      ∀ (j : Nat) l, items[j]? = some l → all[offset + j]? = some l := by
  obtain ⟨before, after, rfl, hentry⟩ := h
  have hle : before.length + items.length ≤ (before ++ items ++ after).length := by
    simp only [List.length_append]
    omega
  refine ⟨before.length, Layout.entryRange_eq_ok_iff.2 ⟨hentry, hle⟩, hle, fun j l hl ↦ ?_⟩
  obtain ⟨hj, -⟩ := List.getElem?_eq_some_iff.1 hl
  rw [List.append_assoc, List.getElem?_append_right (Nat.le_add_right _ _), Nat.add_sub_cancel_left,
    List.getElem?_append_left hj, hl]

end LiesAt

open LittleEndian in
theorem entryOf_append {offset count : Nat} (hoffset : offset < UInt64.size)
    (hcount : count < UInt64.size) : entryOf (ofNat 8 offset ++ ofNat 8 count) = (offset, count) := by
  rw [entryOf, List.take_left' (length_ofNat _ _), List.drop_left' (length_ofNat _ _), take_ofNat,
    toNat_ofNat_of_lt hoffset, toNat_ofNat_of_lt hcount]

open LittleEndian in
/-- The entries of lists that follow each other after some elements, as slots. -/
theorem Encoder.exists_entrySlots (before : List Literal) (rows : List (Option (List Literal)))
    (hlt : (before ++ rows.flatMap (·.getD [])).length < UInt64.size) :
    ∃ slots : List (List UInt8), entrySlots before.length rows = slots.flatten ∧
      List.Forall₂ (fun row slot ↦ slot.length = entryWidth ∧ ∀ items, row = some items →
        LiesAt (before ++ rows.flatMap (·.getD [])) items slot) rows slots := by
  induction rows generalizing before with
  | nil => exact ⟨[], rfl, .nil⟩
  | cons row rows ih =>
    cases row with
    | none =>
      obtain ⟨slots, hslots, hall⟩ := ih before hlt
      exact ⟨List.replicate 16 0 :: slots, by rw [entrySlots, hslots, List.flatten_cons],
        .cons ⟨by simp [entryWidth], by simp⟩ hall⟩
    | some items =>
      -- The elements of this row come before those of the rows that follow.
      have hsplit : before ++ (some items :: rows).flatMap (·.getD []) =
          before ++ items ++ rows.flatMap (·.getD []) := by
        simp
      rw [hsplit] at hlt ⊢
      obtain ⟨slots, hslots, hall⟩ := ih (before ++ items) hlt
      have hoffset : before.length < UInt64.size := by
        simp only [List.length_append] at hlt
        omega
      have hcount : items.length < UInt64.size := by
        simp only [List.length_append] at hlt
        omega
      refine ⟨(ofNat 8 before.length ++ ofNat 8 items.length) :: slots, ?_,
        .cons ⟨?_, fun _ h ↦ ?_⟩ hall⟩
      · rw [entrySlots, ← List.length_append, hslots, List.flatten_cons]
      · simp [entryWidth]
      · obtain rfl := Option.some.inj h
        exact ⟨before, _, rfl, entryOf_append hoffset hcount⟩

end Columnar
