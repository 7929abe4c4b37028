import Columnar.Proofs.Leaves
import Columnar.Proofs.Opened
import Columnar.Proofs.Reach

/-!
# Values have the type of their column

`LogicalType.Admits` says which values belong to a type: null, or the values of its own shape, whose
parts belong to the types of the parts. It is defined by recursion on the type; lists and arrays ask
it of all their rows that can be read.

Reading gives no other values (`Layout.admits_of_read`). The proof is an induction on the layout,
whose type is computed from the types inside, so every case is about one level. A union finds the
alternative of its tag in the same list that its type was computed from.
-/

namespace Columnar

namespace LogicalType

mutual

/-- The value belongs to the type. -/
def Admits (t : LogicalType) (v : Value) : Prop :=
  v = .null ∨
    match t with
    | .fixed kind => kind.Admits v
    | .string kind => kind.Admits v
    | .decimal t => ∃ width n, t.physicalWidth? = some width ∧ SignedRange width n ∧
      v = .decimal ⟨n, t.width, t.scale⟩
    | .enumeration t => ∃ s ∈ t.values, v = .enumeration s
    | .list element => ∃ len row, v = .list element len row ∧
      ∀ i w, row i = .ok w → element.Admits w
    | .struct fields => ∃ values, v = .struct values ∧ FieldsAdmit fields values
    | .map key value => ∃ pairs, v = .map pairs ∧
      ∀ p ∈ pairs, key.Admits p.1 ∧ value.Admits p.2
    | .array element length => ∃ row, v = .array element length.toNat row ∧
      ∀ i w, row i = .ok w → element.Admits w
    | .union alternatives => ∃ tag w, v = .union tag w ∧ AlternativesAdmit alternatives tag w
    | .other _ => False

/-- There is one value for every field, in order, with its name. -/
def FieldsAdmit : List (String × LogicalType) → List (String × Value) → Prop
  | [], [] => True
  | (name, t) :: fields, (name', v) :: values =>
    (name' = name ∧ t.Admits v) ∧ FieldsAdmit fields values
  | _, _ => False

/-- The value belongs to the type of an alternative with the tag. -/
def AlternativesAdmit : List (String × LogicalType) → String → Value → Prop
  | [], _, _ => False
  | (name, t) :: rest, tag, v => (tag = name ∧ t.Admits v) ∨ AlternativesAdmit rest tag v

end

theorem admits_null (t : LogicalType) : t.Admits .null := by
  unfold Admits
  exact .inl rfl

theorem fieldsAdmit_iff {fields : List (String × LogicalType)} {values : List (String × Value)} :
    FieldsAdmit fields values ↔
      List.Forall₂ (fun f v ↦ v.1 = f.1 ∧ f.2.Admits v.2) fields values := by
  induction fields generalizing values with
  | nil => cases values <;> simp [FieldsAdmit]
  | cons f fields ih => cases values <;> simp [FieldsAdmit, ih]

theorem alternativesAdmit_iff {alternatives : List (String × LogicalType)} {tag : String}
    {v : Value} :
    AlternativesAdmit alternatives tag v ↔ ∃ a ∈ alternatives, tag = a.1 ∧ a.2.Admits v := by
  induction alternatives with
  | nil => simp [AlternativesAdmit]
  | cons a rest ih => simp [AlternativesAdmit, ih]

end LogicalType

open LogicalType (Admits)

theorem EnumType.decode_eq_ok_iff {t : EnumType} {index : Nat} {v : Value} :
    t.decode index = .ok v ↔ ∃ s, t.values[index]? = some s ∧ v = .enumeration s := by
  rw [EnumType.decode, EnumType.value?]
  split
  next s hs => simp [hs, eq_comm]
  next hs => simp [hs, Outcome.refuse]

namespace Layout

/-- A row of a column inside belongs to its type if the valid rows of its layout do. -/
theorem admits_of_get {w : Column} {offset count j : Nat} {v : Value}
    (h : w.content.Holds (w.start + w.len)) (hle : offset + count ≤ w.len) (hj : j < count)
    (ih : ∀ {rows start len i : Nat} {v : Value}, w.content.Holds rows → start + len ≤ rows →
      i < len → w.content.readValid start len i = .ok v → w.content.type.Admits v)
    (hv : Column.get (w.narrow offset count) j = .ok v) : w.content.type.Admits v := by
  have hrows : w.start + offset + count ≤ w.start + w.len := by omega
  rcases null_or_readValid_of_read h hrows hj hv with rfl | hv
  · exact LogicalType.admits_null _
  · exact ih h hrows hj hv

/-- Valid rows belong to the type of the layout. The induction is on the layout: what a row is made of
are rows of the columns inside, which belong to the types of these. -/
theorem admits_of_readValid {layout : Layout} {rows start len i : Nat} {v : Value}
    (h : layout.Holds rows) (hrows : start + len ≤ rows) (hi : i < len)
    (hv : layout.readValid start len i = .ok v) : layout.type.Admits v := by
  induction layout using Layout.inductionOn generalizing rows start len i v with
  | fixed kind slots =>
    obtain rfl := Except.ok.inj hv
    have hlen := Slots.length_bytes h.here.2 (show start + i < rows by omega)
    exact .inr (kind.admits_decode (by rw [hlen]; exact h.here.1))
  | string kind slots heap =>
    dsimp only [readValid] at hv
    split at hv
    · exact .inl (Except.ok.inj hv).symm
    · exact .inr (StringKind.admits_of_decode_eq_ok hv)
  | decimal type width slots =>
    obtain rfl := Except.ok.inj hv
    obtain ⟨hphysical, hwidth, hholds⟩ := h.here
    have hlen : ((slots.bytes (start + i)).take width).length = width := by
      rw [List.length_take, Slots.length_bytes hholds (show start + i < rows by omega), hwidth,
        Nat.min_self]
    exact .inr ⟨width, _, hphysical, LittleEndian.signedRange_toInt
      (DecimalType.pos_of_physicalWidth hphysical) hlen, rfl⟩
  | enumeration type width slots =>
    obtain ⟨s, hs, rfl⟩ := EnumType.decode_eq_ok_iff.1 hv
    exact .inr ⟨s, Array.mem_of_getElem? hs, rfl⟩
  | list slots child ih =>
    have hchild := h.inside (w := child) (by simp [windows])
    obtain ⟨⟨offset, count⟩, hr, hv⟩ := bind_eq_ok_iff.1 hv
    obtain rfl := Except.ok.inj hv
    have hle := (entryRange_eq_ok_iff.1 hr).2
    exact .inr ⟨count, _, rfl, fun j w hw ↦ admits_of_get hchild hle j.isLt ih hw⟩
  | struct words fields ih =>
    obtain ⟨values, hvalues, rfl⟩ := map_eq_ok_iff.1 hv
    have hfields : ∀ f ∈ fields, ∀ w, Column.get (f.2.narrow start len) i = .ok w →
        f.2.content.type.Admits w := by
      intro f hf w hw
      have hle : rows ≤ f.2.len := h.here f hf
      have hfield := h.inside (w := f.2) (List.mem_map_of_mem hf)
      exact admits_of_get hfield (Nat.le_trans hrows hle) hi (ih f hf) hw
    refine .inr ⟨values, rfl, LogicalType.fieldsAdmit_iff.2 ?_⟩
    rw [fieldTypes_eq_map, List.forall₂_map_left_iff]
    -- Values and fields are in the same order, so each value is that of the field it is named after.
    refine ((List.forall₂_and_left _ _).2 ⟨hfields, mapM_eq_ok_iff.1 hvalues⟩).imp ?_
    rintro f value ⟨hadmits, hget⟩
    obtain ⟨w, hw, rfl⟩ := map_eq_ok_iff.1 hget
    exact ⟨rfl, hadmits w hw⟩
  | map key value slots child ih =>
    have hchild := h.inside (w := child) (by simp [windows])
    obtain ⟨⟨offset, count⟩, hr, hv⟩ := bind_eq_ok_iff.1 hv
    obtain ⟨pairs, hpairs, rfl⟩ := map_eq_ok_iff.1 hv
    have hle := (entryRange_eq_ok_iff.1 hr).2
    obtain ⟨hlen, hpairs⟩ := Outcome.collect_eq_ok_iff.1 hpairs
    refine .inr ⟨pairs, rfl, fun p hp ↦ ?_⟩
    obtain ⟨j, hj, rfl⟩ := List.mem_iff_getElem.1 hp
    -- The entry is a row of the structs, which are of the type of the entries.
    obtain ⟨entry, hget, hpair⟩ := bind_eq_ok_iff.1 (hpairs ⟨j, hlen ▸ hj⟩)
    obtain ⟨_, _, rfl⟩ := pairOf_eq_ok_iff.1 hpair
    have hentry := admits_of_get hchild hle (hlen ▸ hj) ih hget
    rw [h.here.2.2] at hentry
    obtain hnull | ⟨values, hvalues, hfields⟩ := hentry
    · simp at hnull
    · obtain rfl := Value.struct.inj hvalues
      exact ⟨hfields.1.2, hfields.2.1.2⟩
  | array length words child ih =>
    have hchild := h.inside (w := child) (by simp [windows])
    obtain rfl := Except.ok.inj hv
    have hle := array_row_le h.here (show start + i < rows by omega)
    exact .inr ⟨_, rfl, fun j w hw ↦ admits_of_get hchild hle j.isLt ih hw⟩
  | union words tags alternatives ih =>
    dsimp only [readValid] at hv
    split at hv
    · simp [Outcome.refuse] at hv
    next a ha =>
      obtain ⟨w, hw, rfl⟩ := map_eq_ok_iff.1 hv
      have hmem : a ∈ alternatives := List.mem_of_getElem? ha
      have hle : rows ≤ a.2.len := h.here.2 a hmem
      have hinside := h.inside (w := a.2) (List.mem_cons_of_mem _ (List.mem_map_of_mem hmem))
      have hadmits := admits_of_get hinside (Nat.le_trans hrows hle) hi (ih a hmem) hw
      refine .inr ⟨a.1, w, rfl, LogicalType.alternativesAdmit_iff.2 ?_⟩
      refine ⟨(a.1, a.2.content.type), ?_, rfl, hadmits⟩
      rw [fieldTypes_eq_map]
      exact List.mem_map_of_mem hmem

/-- Rows that can be read belong to the type of the layout. -/
theorem admits_of_read {layout : Layout} {rows start len i : Nat} {v : Value}
    (h : layout.Holds rows) (hrows : start + len ≤ rows) (hi : i < len)
    (hv : layout.read start len i = .ok v) : layout.type.Admits v := by
  rcases null_or_readValid_of_read h hrows hi hv with rfl | hv
  · exact LogicalType.admits_null _
  · exact admits_of_readValid h hrows hi hv

end Layout

namespace Column

variable {ok : Nat → Prop} {c d : Column}

theorem admits_of_getItem (h : c.Within ok) {i : Nat} {v : Value} (hv : c.getItem i = .ok v) :
    c.type.Admits v := by
  rcases Nat.lt_or_ge i c.len with hi | hi
  · rw [getItem_of_lt hi] at hv
    exact Layout.admits_of_read h.holds (Nat.le_refl _) hi hv
  · rw [getItem_of_le hi] at hv
    simp [Outcome.refuse] at hv

/-- An opened column has the rows and the type that were asked for, no deeper than the nesting limit,
and whatever can be read belongs to it: from the column, from any slice of it, and from every column
within reach, whose values belong to its own type. -/
theorem admits_of_decode {chunk : Chunk} {config : DecodeConfig} {id count : Nat} {t : LogicalType}
    (hc : decode chunk config id count t = .ok c) :
    c.len = count ∧ c.type = t ∧ t.depth ≤ config.maxNestingDepth ∧
      (∀ i v, c.getItem i = .ok v → t.Admits v) ∧
      (∀ a b, ∀ w : Column, Window.slice c a b = .ok w →
        w.len = b ∧ w.type = t ∧ ∀ i v, w.getItem i = .ok v → t.Admits v) ∧
      ∀ d, c.Reaches d → ∀ i v, d.getItem i = .ok v → d.type.Admits v := by
  have hopened := isOpened_of_decodeAt chunk.counts_true hc trivial
  have hdepth := depth_le_of_decodeAt hc
  refine ⟨hopened.len_eq, hopened.type_eq, by omega, fun i v hv ↦ ?_, fun a b w hw ↦ ?_, ?_⟩
  · exact hopened.type_eq ▸ admits_of_getItem hopened.within hv
  · obtain ⟨hle, rfl⟩ := Window.slice_eq_ok_iff.1 hw
    refine ⟨rfl, hopened.type_eq, fun i v hv ↦ ?_⟩
    exact hopened.type_eq ▸ admits_of_getItem (hopened.within.narrow (fun _ _ ↦ trivial) hle) hv
  · intro d hd i v hv
    exact admits_of_getItem (hopened.within.reaches (fun _ _ ↦ trivial) hd) hv

/-- One row of a union of a small integer and a decimal, and one of tag 2, which it does not have. -/
def smallOrDecimal : Chunk where
  vectors := #[
    { type := .union [("small", .fixed (.integer .tinyInt)), ("decimal", .decimal ⟨4, 1⟩)]
      children := [1, 2, 3] },
    { type := LogicalType.tagType, data := #[1, 2] },
    { type := .fixed (.integer .tinyInt), data := #[5, 6] },
    { type := .decimal ⟨4, 1⟩, data := #[0xff, 0xff, 0, 0] }]

/-- The first row is the decimal `-0.1`, which belongs to the union. -/
theorem smallOrDecimal_admits :
    ∃ c : Column,
      decode smallOrDecimal {} 0 2
          (.union [("small", .fixed (.integer .tinyInt)), ("decimal", .decimal ⟨4, 1⟩)]) = .ok c ∧
        c.getItem 0 = .ok (.union "decimal" (.decimal ⟨-1, 4, 1⟩)) ∧
        LogicalType.Admits
          (.union [("small", .fixed (.integer .tinyInt)), ("decimal", .decimal ⟨4, 1⟩)])
          (.union "decimal" (.decimal ⟨-1, 4, 1⟩)) := by
  obtain ⟨c, hc, hrow⟩ : ∃ c : Column,
      decode smallOrDecimal {} 0 2
          (.union [("small", .fixed (.integer .tinyInt)), ("decimal", .decimal ⟨4, 1⟩)]) = .ok c ∧
        c.getItem 0 = .ok (.union "decimal" (.decimal ⟨-1, 4, 1⟩)) := ⟨_, rfl, by rfl⟩
  obtain ⟨-, -, -, hadmits, -⟩ := admits_of_decode hc
  exact ⟨c, hc, hrow, hadmits 0 _ hrow⟩

end Column

end Columnar
