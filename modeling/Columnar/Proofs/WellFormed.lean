import Columnar.Proofs.MapsAndUnions

/-!
# Which vectors are opened

`Chunk.WellFormed` says what a vector has to be like for a number of rows of a type: enough bytes
for the slots, a bitmap with a bit for each row or none at all, and the children of the type, which
have to be well formed themselves, for the numbers of rows that they are opened with.

Opening a vector succeeds exactly if it is well formed (`Column.exists_decode_iff_wellFormed`), given
that the chunk can be in memory at all (`Chunk.InMemory`), that the type is within the nesting limit,
and that entries of lists are not looked at before they are read. So the other checks on the way, of
sizes that overflow and of the types and lengths of columns that a column is put together from,
refuse nothing more. The proof is by induction on the type; what a list or a struct adds to its
parts is said for any parts (`exists_list_iff`, `exists_struct_iff`), as maps and unions are those of
other parts.
-/

namespace Columnar

/-- The children of all vectors exist, and the sizes of their buffers are machine words. -/
structure Chunk.InMemory (chunk : Chunk) : Prop where
  child_lt : ∀ v ∈ chunk.vectors, ∀ child ∈ v.children, child < chunk.vectors.size
  size_lt : ∀ v ∈ chunk.vectors, v.data.size < sizeLimit

/-! ### Well-formed vectors -/

namespace Chunk

/-- Vector `id` exists, has a bit for each of `count` rows or no bitmap, and is as required. -/
def HasRows (chunk : Chunk) (id count : Nat) (required : RawVector → Prop) : Prop :=
  ∃ v, chunk.vectors[id]? = some v ∧ v.validity.covers count = true ∧ required v

mutual

/-- Vector `id` has what it takes to be `count` rows of a type. -/
def WellFormed (chunk : Chunk) : LogicalType → (id count : Nat) → Prop
  | .fixed kind, id, count => chunk.HasRows id count fun v ↦
    kind.width ≤ Column.slotWidth chunk kind ∧ count * Column.slotWidth chunk kind ≤ v.data.size
  | .string _, id, count => chunk.HasRows id count fun v ↦ count * StringSlot.width ≤ v.data.size
  | .decimal t, id, count => chunk.HasRows id count fun v ↦
    t.scale ≤ t.width ∧ ∃ width, t.physicalWidth? = some width ∧ count * width ≤ v.data.size
  | .enumeration t, id, count => chunk.HasRows id count fun v ↦ count * t.indexWidth ≤ v.data.size
  | .list element, id, count => chunk.HasRows id count fun v ↦
    count * entryWidth ≤ v.data.size ∧
      ∃ child, v.children[0]? = some child ∧ chunk.WellFormed element child v.childCount
  | .struct fields, id, count => chunk.HasRows id count fun v ↦
    chunk.FieldsWellFormed fields v.children count
  | .map key value, id, count => chunk.HasRows id count fun v ↦
    count * entryWidth ≤ v.data.size ∧ ∃ child, v.children[0]? = some child ∧
      chunk.HasRows child v.childCount fun entries ↦
        (∃ keys, entries.children[0]? = some keys ∧ chunk.WellFormed key keys v.childCount) ∧
        ∃ values, entries.children[1]? = some values ∧ chunk.WellFormed value values v.childCount
  | .array element length, id, count => chunk.HasRows id count fun v ↦
    count * length.toNat < sizeLimit ∧
      ∃ child, v.children[0]? = some child ∧ chunk.WellFormed element child (count * length.toNat)
  | .union alternatives, id, count => chunk.HasRows id count fun v ↦
    (∃ child, v.children[0]? = some child ∧
      chunk.HasRows child count fun tags ↦ count ≤ tags.data.size) ∧
    chunk.FieldsWellFormed alternatives v.children.tail count
  | .other _, _, _ => False

/-- There is a child for each field, in order, which has what it takes to be `count` rows of it. -/
def FieldsWellFormed (chunk : Chunk) :
    List (String × LogicalType) → (children : List Nat) → (count : Nat) → Prop
  | [], _, _ => True
  | (_, t) :: fields, children, count =>
    (∃ child, children[0]? = some child ∧ chunk.WellFormed t child count) ∧
      chunk.FieldsWellFormed fields children.tail count

end

variable {chunk : Chunk} {id count : Nat} {t : LogicalType} {v : RawVector}

theorem hasRows_iff (hv : chunk.vectors[id]? = some v) {required : RawVector → Prop} :
    chunk.HasRows id count required ↔ v.validity.covers count = true ∧ required v := by
  simp [HasRows, hv]

theorem fieldsWellFormed_iff {fields : List (String × LogicalType)} {children : List Nat} :
    chunk.FieldsWellFormed fields children count ↔
      ∀ (f : String × LogicalType) (i : Nat), fields[i]? = some f →
        ∃ child, children[i]? = some child ∧ chunk.WellFormed f.2 child count := by
  induction fields generalizing children with
  | nil => simp [FieldsWellFormed]
  | cons f fields ih =>
    rw [FieldsWellFormed, ih]
    simp only [List.getElem?_tail]
    constructor
    · rintro ⟨hf, hfields⟩ g i hg
      cases i with
      | zero => exact Option.some.inj hg ▸ hf
      | succ i => exact hfields g i hg
    · exact fun h ↦ ⟨h f 0 rfl, fun g i hg ↦ h g (i + 1) hg⟩

/-- Maps are well formed as the lists of key/value structs that they are stored as. -/
theorem wellFormed_map_iff {key value : LogicalType} :
    chunk.WellFormed (.map key value) id count ↔
      chunk.WellFormed (.list (.struct (LogicalType.mapEntry key value))) id count := by
  simp only [WellFormed, LogicalType.mapEntry, FieldsWellFormed, List.getElem?_tail, and_true]

/-- Unions are well formed as the structs of a tag and the alternatives. -/
theorem wellFormed_union_iff {alternatives : List (String × LogicalType)} :
    chunk.WellFormed (.union alternatives) id count ↔
      chunk.WellFormed (.struct (LogicalType.unionMembers alternatives)) id count := by
  have hwidth : Column.slotWidth chunk (.integer .uTinyInt) = 1 := rfl
  have hkind : (FixedKind.integer .uTinyInt).width = 1 := rfl
  simp only [WellFormed, LogicalType.unionMembers, FieldsWellFormed, LogicalType.tagType, hwidth,
    hkind, Nat.le_refl, Nat.mul_one, true_and]

/-- The slots that are asked for are there if the buffers are large enough. -/
theorem exists_slots_iff {width valueWidth : Nat} (hchunk : chunk.InMemory)
    (hv : chunk.vectors[id]? = some v) :
    (∃ w, chunk.slots id count width valueWidth = .ok w) ↔
      v.validity.covers count = true ∧ valueWidth ≤ width ∧ count * width ≤ v.data.size := by
  have hsize : v.data.size < sizeLimit := hchunk.size_lt v (Array.mem_of_getElem? hv)
  simp only [slots_eq_ok_iff]
  constructor
  · rintro ⟨w, hwidth, -, v', hv', hle, hcov, -⟩
    obtain rfl := Option.some.inj (hv.symm.trans hv')
    exact ⟨hcov, hwidth, hle⟩
  · rintro ⟨hcov, hwidth, hle⟩
    exact ⟨_, hwidth, Nat.lt_of_le_of_lt hle hsize, v, hv, hle, hcov, rfl⟩

end Chunk

namespace Column

variable {chunk : Chunk} {config : DecodeConfig} {depth id count : Nat} {t : LogicalType}
  {v : RawVector}

/-! ### Opening well-formed vectors -/

section OneLevel

variable (hv : chunk.vectors[id]? = some v) (hdepth : depth ≤ config.maxNestingDepth)

include hv hdepth

/-- A leaf is opened if it has a slot for each row. -/
theorem exists_leaf_iff {width valueWidth : Nat} {make : SlotWindow → Column}
    (hchunk : chunk.InMemory)
    (h : ∀ c, decodeAt chunk config depth id count t = .ok c ↔ depth ≤ config.maxNestingDepth ∧
      ∃ w, chunk.slots id count width valueWidth = .ok w ∧ c = make w) :
    (∃ c, decodeAt chunk config depth id count t = .ok c) ↔
      v.validity.covers count = true ∧ valueWidth ≤ width ∧ count * width ≤ v.data.size := by
  simp only [h, hdepth, true_and, ← Chunk.exists_slots_iff hchunk hv]
  exact ⟨fun ⟨_, w, hw, _⟩ ↦ ⟨w, hw⟩, fun ⟨w, hw⟩ ↦ ⟨_, w, hw, rfl⟩⟩

theorem exists_fixed_iff {kind : FixedKind} (hchunk : chunk.InMemory) :
    (∃ c, decodeAt chunk config depth id count (.fixed kind) = .ok c) ↔
      chunk.WellFormed (.fixed kind) id count := by
  rw [Chunk.WellFormed, Chunk.hasRows_iff hv]
  exact exists_leaf_iff hv hdepth hchunk fun _ ↦ decodeAt_fixed_eq_ok_iff

theorem exists_decimal_iff {type : DecimalType} (hchunk : chunk.InMemory) :
    (∃ c, decodeAt chunk config depth id count (.decimal type) = .ok c) ↔
      chunk.WellFormed (.decimal type) id count := by
  rw [Chunk.WellFormed, Chunk.hasRows_iff hv]
  simp only [decodeAt_decimal_eq_ok_iff, decodeDecimal_eq_ok_iff, hdepth, true_and]
  constructor
  · rintro ⟨c, hscale, width, w, hwidth, hw, -⟩
    obtain ⟨hcov, -, hsize⟩ := (Chunk.exists_slots_iff hchunk hv).1 ⟨w, hw⟩
    exact ⟨hcov, hscale, width, hwidth, hsize⟩
  · rintro ⟨hcov, hscale, width, hwidth, hsize⟩
    obtain ⟨w, hw⟩ := (Chunk.exists_slots_iff hchunk hv).2 ⟨hcov, Nat.le_refl width, hsize⟩
    exact ⟨_, hscale, width, w, hwidth, hw, rfl⟩

/-- A list is opened if it has a slot for each row and a child that is opened. -/
theorem exists_list_iff {element : LogicalType} (hchunk : chunk.InMemory)
    (hlazy : config.eagerListValidation = false)
    (h : ∀ child ∈ v.children,
      (∃ c, decodeAt chunk config (depth + 1) child v.childCount element = .ok c) ↔
        chunk.WellFormed element child v.childCount) :
    (∃ c, decodeAt chunk config depth id count (.list element) = .ok c) ↔
      chunk.WellFormed (.list element) id count := by
  rw [Chunk.WellFormed, Chunk.hasRows_iff hv]
  constructor
  · rintro ⟨c, hc⟩
    obtain ⟨w, child, childCount, elements, hw, hlist, helements, -⟩ :=
      decodeList_eq_ok_iff.1 (decodeAt_list_eq_ok_iff.1 hc).2
    obtain ⟨v', hv', hchild, rfl⟩ := Chunk.listChild_eq_ok_iff.1 hlist
    obtain rfl : v = v' := Option.some.inj (hv.symm.trans hv')
    obtain ⟨hcov, -, hsize⟩ := (Chunk.exists_slots_iff hchunk hv).1 ⟨w, hw⟩
    rw [List.head?_eq_getElem?] at hchild
    have helement := (h child (List.mem_of_getElem? hchild)).1 ⟨elements, helements⟩
    exact ⟨hcov, hsize, child, hchild, helement⟩
  · rintro ⟨hcov, hsize, child, hchild, helement⟩
    obtain ⟨w, hw⟩ := (Chunk.exists_slots_iff hchunk hv).2 ⟨hcov, Nat.le_refl entryWidth, hsize⟩
    obtain ⟨elements, helements⟩ := (h child (List.mem_of_getElem? hchild)).2 helement
    have hlist : chunk.listChild id = .ok (child, v.childCount) :=
      Chunk.listChild_eq_ok_iff.2 ⟨v, hv, by rwa [List.head?_eq_getElem?], rfl⟩
    have htype := (isOpened_of_decodeAt chunk.counts_true helements trivial).type_eq
    exact ⟨_, decodeAt_list_eq_ok_iff.2 ⟨hdepth, decodeList_eq_ok_iff.2
      ⟨w, child, _, elements, hw, hlist, helements, htype, rfl, by simp [hlazy]⟩⟩⟩

/-- A struct is opened if it has a child for each field that is opened. -/
theorem exists_struct_iff {fields : List (String × LogicalType)}
    (h : ∀ f ∈ fields, ∀ child ∈ v.children,
      (∃ c, decodeAt chunk config (depth + 1) child count f.2 = .ok c) ↔
        chunk.WellFormed f.2 child count) :
    (∃ c, decodeAt chunk config depth id count (.struct fields) = .ok c) ↔
      chunk.WellFormed (.struct fields) id count := by
  have hvalidity : chunk.validity id = v.validity := by simp [Chunk.validity, hv]
  rw [Chunk.WellFormed, Chunk.hasRows_iff hv, Chunk.fieldsWellFormed_iff]
  constructor
  · rintro ⟨c, hc⟩
    obtain ⟨-, hcov, columns, hcolumns, -⟩ := decodeAt_struct_eq_ok_iff_forall₂.1 hc
    refine ⟨hvalidity ▸ hcov, fun f i hf ↦ ?_⟩
    obtain ⟨col, child, hstruct, hcol⟩ :=
      exists_forall₂_iff.1 ⟨columns, hcolumns⟩ (f, i) (List.mem_zipIdx_iff_getElem?.2 hf)
    obtain ⟨v', hv', hchild⟩ := Chunk.structChild_eq_ok_iff.1 hstruct
    obtain rfl : v = v' := Option.some.inj (hv.symm.trans hv')
    have hfield := h f (List.mem_of_getElem? hf) child (List.mem_of_getElem? hchild)
    exact ⟨child, hchild, hfield.1 ⟨col, hcol⟩⟩
  · rintro ⟨hcov, hfields⟩
    have hexists : ∀ f ∈ fields.zipIdx, ∃ col, ∃ child, chunk.structChild id f.2 = .ok child ∧
        decodeAt chunk config (depth + 1) child count f.1.2 = .ok col := by
      rintro ⟨f, i⟩ hmem
      have hf : fields[i]? = some f := List.mem_zipIdx_iff_getElem?.1 hmem
      obtain ⟨child, hchild, hwf⟩ := hfields f i hf
      have hfield := h f (List.mem_of_getElem? hf) child (List.mem_of_getElem? hchild)
      obtain ⟨col, hcol⟩ := hfield.2 hwf
      exact ⟨col, child, Chunk.structChild_eq_ok_iff.2 ⟨v, hv, hchild⟩, hcol⟩
    obtain ⟨columns, hcolumns⟩ := exists_forall₂_iff.2 hexists
    exact ⟨_, decodeAt_struct_eq_ok_iff_forall₂.2
      ⟨hdepth, hvalidity.symm ▸ hcov, columns, hcolumns, rfl⟩⟩

/-- An array is opened if its child has as many rows as all arrays have together. -/
theorem exists_array_iff {element : LogicalType} {length : UInt64}
    (h : ∀ child ∈ v.children,
      (∃ c, decodeAt chunk config (depth + 1) child (count * length.toNat) element = .ok c) ↔
        chunk.WellFormed element child (count * length.toNat)) :
    (∃ c, decodeAt chunk config depth id count (.array element length) = .ok c) ↔
      chunk.WellFormed (.array element length) id count := by
  have hvalidity : chunk.validity id = v.validity := by simp [Chunk.validity, hv]
  rw [Chunk.WellFormed, Chunk.hasRows_iff hv]
  constructor
  · rintro ⟨c, hc⟩
    obtain ⟨hcov, hlt, child, elements, harray, helements, -⟩ :=
      decodeArray_eq_ok_iff.1 (decodeAt_array_eq_ok_iff.1 hc).2
    obtain ⟨v', hv', hchild⟩ := Chunk.arrayChild_eq_ok_iff.1 harray
    obtain rfl : v = v' := Option.some.inj (hv.symm.trans hv')
    rw [List.head?_eq_getElem?] at hchild
    have helement := (h child (List.mem_of_getElem? hchild)).1 ⟨elements, helements⟩
    exact ⟨hvalidity ▸ hcov, hlt, child, hchild, helement⟩
  · rintro ⟨hcov, hlt, child, hchild, helement⟩
    obtain ⟨elements, helements⟩ := (h child (List.mem_of_getElem? hchild)).2 helement
    have harray : chunk.arrayChild id = .ok child :=
      Chunk.arrayChild_eq_ok_iff.2 ⟨v, hv, by rwa [List.head?_eq_getElem?]⟩
    have hopened := isOpened_of_decodeAt chunk.counts_true helements trivial
    exact ⟨_, decodeAt_array_eq_ok_iff.2 ⟨hdepth, decodeArray_eq_ok_iff.2
      ⟨hvalidity.symm ▸ hcov, hlt, child, elements, harray, helements, hopened.type_eq,
        hopened.len_eq.ge, rfl⟩⟩⟩

end OneLevel

/-- At any level, a vector is opened if and only if it is well formed. The induction is on the type;
the nesting limit leaves room for the tag of a union, which may be deeper than the type says. -/
theorem exists_decodeAt_iff_wellFormed (hchunk : chunk.InMemory)
    (hlazy : config.eagerListValidation = false) (hid : id < chunk.vectors.size)
    (hdepth : depth + t.depth ≤ config.maxNestingDepth) :
    (∃ c, decodeAt chunk config depth id count t = .ok c) ↔ chunk.WellFormed t id count := by
  induction t using LogicalType.inductionOn generalizing depth id count with
  | fixed kind => exact exists_fixed_iff (Array.getElem?_eq_getElem hid) (by omega) hchunk
  | string kind =>
    have hv := Array.getElem?_eq_getElem hid
    rw [Chunk.WellFormed, Chunk.hasRows_iff hv, exists_leaf_iff hv (by omega) hchunk fun _ ↦
      decodeAt_string_eq_ok_iff, and_iff_right (Nat.le_refl _)]
  | decimal type => exact exists_decimal_iff (Array.getElem?_eq_getElem hid) (by omega) hchunk
  | enumeration type =>
    have hv := Array.getElem?_eq_getElem hid
    rw [Chunk.WellFormed, Chunk.hasRows_iff hv, exists_leaf_iff hv (by omega) hchunk fun _ ↦
      decodeAt_enumeration_eq_ok_iff, and_iff_right (Nat.le_refl _)]
  | list element ih =>
    rw [LogicalType.depth] at hdepth
    refine exists_list_iff (Array.getElem?_eq_getElem hid) (by omega) hchunk hlazy ?_
    exact fun child hchild ↦ ih (hchunk.child_lt _ (Array.getElem_mem hid) child hchild) (by omega)
  | struct fields ih =>
    rw [LogicalType.depth] at hdepth
    refine exists_struct_iff (Array.getElem?_eq_getElem hid) (by omega) fun f hf child hchild ↦ ?_
    have hlt := hchunk.child_lt _ (Array.getElem_mem hid) child hchild
    have hmax := LogicalType.maxDepth_le_iff.1 (Nat.le_refl (LogicalType.maxDepth fields)) f hf
    exact ih f hf hlt (by omega)
  | map key value ihKey ihValue =>
    rw [LogicalType.depth] at hdepth
    rw [exists_map_iff, Chunk.wellFormed_map_iff]
    refine exists_list_iff (Array.getElem?_eq_getElem hid) (by omega) hchunk hlazy ?_
    intro entries hentries
    have hlt := hchunk.child_lt _ (Array.getElem_mem hid) entries hentries
    refine exists_struct_iff (Array.getElem?_eq_getElem hlt) (by omega) fun f hf child hchild ↦ ?_
    have hchild := hchunk.child_lt _ (Array.getElem_mem hlt) child hchild
    rcases List.mem_pair.1 hf with rfl | rfl
    · exact ihKey hchild (by omega)
    · exact ihValue hchild (by omega)
  | array element length ih =>
    rw [LogicalType.depth] at hdepth
    refine exists_array_iff (Array.getElem?_eq_getElem hid) (by omega) ?_
    exact fun child hchild ↦ ih (hchunk.child_lt _ (Array.getElem_mem hid) child hchild) (by omega)
  | union alternatives ih =>
    rw [LogicalType.depth] at hdepth
    rw [exists_union_iff, Chunk.wellFormed_union_iff]
    refine exists_struct_iff (Array.getElem?_eq_getElem hid) (by omega) fun f hf child hchild ↦ ?_
    have hlt := hchunk.child_lt _ (Array.getElem_mem hid) child hchild
    rcases List.mem_cons.1 hf with rfl | hf
    · exact exists_fixed_iff (Array.getElem?_eq_getElem hlt) (by omega) hchunk
    · have hmax :=
        LogicalType.maxDepth_le_iff.1 (Nat.le_refl (LogicalType.maxDepth alternatives)) f hf
      exact ih f hf hlt (by omega)
  | other typeId =>
    refine iff_of_false ?_ (by simp [Chunk.WellFormed])
    rintro ⟨_, hc⟩
    exact decodeAt_other_ne_ok hc

/-- If the entries of lists are not looked at, and the nesting limit is beyond the type, a vector of
a chunk in memory is opened if and only if it is well formed. -/
theorem exists_decode_iff_wellFormed (hchunk : chunk.InMemory) (hid : id < chunk.vectors.size)
    (hdepth : t.depth < config.maxNestingDepth) (hlazy : config.eagerListValidation = false) :
    (∃ c, decode chunk config id count t = .ok c) ↔ chunk.WellFormed t id count :=
  exists_decodeAt_iff_wellFormed hchunk hlazy hid (by omega)

/-- There are enough entries for two maps, and not for three. -/
theorem nullEntry_wellFormed :
    nullEntry.InMemory ∧ 0 < nullEntry.vectors.size ∧
      (LogicalType.map LogicalType.tagType LogicalType.tagType).depth <
        ({} : DecodeConfig).maxNestingDepth ∧
      ({} : DecodeConfig).eagerListValidation = false ∧
      (∃ c, decode nullEntry {} 0 2 (.map LogicalType.tagType LogicalType.tagType) = .ok c) ∧
      ¬ ∃ c, decode nullEntry {} 0 3 (.map LogicalType.tagType LogicalType.tagType) = .ok c := by
  have hchunk : nullEntry.InMemory := ⟨by decide, by decide⟩
  have hid : 0 < nullEntry.vectors.size := by decide
  have hdepth : (LogicalType.map LogicalType.tagType LogicalType.tagType).depth <
      ({} : DecodeConfig).maxNestingDepth := by decide
  have htwo : nullEntry.WellFormed (.map LogicalType.tagType LogicalType.tagType) 0 2 :=
    ⟨_, rfl, rfl, by decide, 1, rfl, _, rfl, by decide,
      ⟨2, rfl, _, rfl, rfl, by decide, by decide⟩, 3, rfl, _, rfl, rfl, by decide, by decide⟩
  refine ⟨hchunk, hid, hdepth, rfl,
    (exists_decode_iff_wellFormed hchunk hid hdepth rfl).2 htwo, fun hopened ↦ ?_⟩
  obtain ⟨v, hv, -, hsize, -⟩ := (exists_decode_iff_wellFormed hchunk hid hdepth rfl).1 hopened
  obtain rfl := Option.some.inj hv
  exact absurd hsize (by decide)

end Column

end Columnar
