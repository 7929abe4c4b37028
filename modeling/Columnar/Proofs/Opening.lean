import Columnar.Column.Decode
import Columnar.Proofs.Outcome

/-!
# What opening a vector takes

Each step of opening a vector, read backwards: `…_eq_ok_iff` says exactly when the step succeeds and
what it makes. Nothing behind this module looks into the steps again.

The decoders of the fields of a struct are a list; `decodeChildren_eq_mapM` and
`fieldDecoders_eq_map` turn working through it into a map over the fields, each with its position.
-/

namespace Columnar

/-! ### Buffers of a chunk -/

namespace Chunk

variable {c : Chunk} {id count width valueWidth : Nat}

theorem vector_eq_ok_iff {v : RawVector} : c.vector id = .ok v ↔ c.vectors[id]? = some v := by
  cases h : c.vectors[id]? <;> simp [vector, h, Outcome.refuse]

theorem data_eq_ok_iff {size : Nat} {data : Array UInt8} :
    c.data id size = .ok data ↔
      ∃ v, c.vectors[id]? = some v ∧ (size ≤ v.data.size ∨ v.shortReads = true) ∧ data = v.data := by
  simp only [Chunk.data, bind_eq_ok_iff, vector_eq_ok_iff, Outcome.require_eq_ok, exists_const,
    pure_eq_ok, decide_eq_true_eq, Except.ok.injEq]
  exact exists_congr fun v ↦ and_congr_right fun _ ↦ and_congr_right fun _ ↦ eq_comm

theorem bitmap_eq_ok_iff {words : Bitmap} :
    c.bitmap id count = .ok words ↔ (c.validity id).covers count = true ∧ words = c.validity id := by
  simp only [bitmap, bind_eq_ok_iff, Outcome.require_eq_ok, exists_const, pure_eq_ok,
    Except.ok.injEq]
  exact and_congr_right fun _ ↦ eq_comm

theorem buffer_eq_ok_iff {data : Array UInt8} :
    c.buffer id count width = .ok data ↔ count * width < sizeLimit ∧
      ∃ v, c.vectors[id]? = some v ∧ count * width ≤ v.data.size ∧ data = v.data := by
  simp only [buffer, Outcome.require_eq_ok, exists_const, bind_eq_ok_iff, data_eq_ok_iff, pure_eq_ok,
    decide_eq_true_eq, Except.ok.injEq]
  refine and_congr_right fun _ ↦ ?_
  constructor
  · rintro ⟨_, ⟨v, hv, -, rfl⟩, hle, rfl⟩
    exact ⟨v, hv, hle, rfl⟩
  · rintro ⟨v, hv, hle, rfl⟩
    exact ⟨v.data, ⟨v, hv, .inl hle, rfl⟩, hle, rfl⟩

/-- Slots are had from a vector with enough bytes and enough words for all rows. -/
theorem slots_eq_ok_iff {w : SlotWindow} :
    c.slots id count width valueWidth = .ok w ↔
      valueWidth ≤ width ∧ count * width < sizeLimit ∧
        ∃ v, c.vectors[id]? = some v ∧ count * width ≤ v.data.size ∧
          v.validity.covers count = true ∧ w = .whole ⟨v.data, width, v.validity⟩ count := by
  simp only [slots, Slots.ofBuffer, Outcome.require_eq_ok, exists_const, bind_eq_ok_iff,
    buffer_eq_ok_iff, bitmap_eq_ok_iff, Outcome.assert_eq_ok, pure_eq_ok,
    decide_eq_true_eq, Except.ok.injEq]
  constructor
  · rintro ⟨hw, _, ⟨hlt, v, hv, hle, rfl⟩, _, ⟨hcov, rfl⟩, -, -, rfl⟩
    simp only [validity, hv, Option.bind_some] at hcov ⊢
    exact ⟨hw, hlt, v, rfl, hle, hcov, rfl⟩
  · rintro ⟨hw, hlt, v, hv, hle, hcov, rfl⟩
    have hval : c.validity id = v.validity := by simp [validity, hv]
    exact ⟨hw, v.data, ⟨hlt, v, hv, hle, rfl⟩, v.validity, ⟨by rwa [hval], hval.symm⟩, hw, hle, rfl⟩

theorem listChild_eq_ok_iff {child childCount : Nat} :
    c.listChild id = .ok (child, childCount) ↔
      ∃ v, c.vectors[id]? = some v ∧ v.children.head? = some child ∧ childCount = v.childCount := by
  simp only [listChild, bind_eq_ok_iff, vector_eq_ok_iff]
  refine exists_congr fun v ↦ and_congr_right fun _ ↦ ?_
  cases v.children <;> simp [Outcome.refuse, eq_comm]

theorem structChild_eq_ok_iff {index child : Nat} :
    c.structChild id index = .ok child ↔
      ∃ v, c.vectors[id]? = some v ∧ v.children[index]? = some child := by
  simp only [structChild, bind_eq_ok_iff, vector_eq_ok_iff]
  refine exists_congr fun v ↦ and_congr_right fun _ ↦ ?_
  cases v.children[index]? <;> simp [Outcome.refuse]

theorem arrayChild_eq_ok_iff {child : Nat} :
    c.arrayChild id = .ok child ↔
      ∃ v, c.vectors[id]? = some v ∧ v.children.head? = some child := by
  simp only [arrayChild, bind_eq_ok_iff, vector_eq_ok_iff]
  refine exists_congr fun v ↦ and_congr_right fun _ ↦ ?_
  cases v.children <;> simp [Outcome.refuse]

/-! ### Accesses that are refused without breaking off -/

theorem vector_unbroken : (c.vector id).Unbroken := by
  cases h : c.vectors[id]? <;> simp [vector, h]

theorem bitmap_unbroken : (c.bitmap id count).Unbroken :=
  (Outcome.unbroken_require _ _).bind fun _ _ ↦ Outcome.unbroken_ok _

theorem buffer_unbroken : (c.buffer id count width).Unbroken := by
  refine (Outcome.unbroken_require _ _).bind fun _ _ ↦ ?_
  refine Outcome.Unbroken.bind ?_ fun _ _ ↦ ?_
  · refine vector_unbroken.bind fun _ _ ↦ ?_
    exact (Outcome.unbroken_require _ _).bind fun _ _ ↦ Outcome.unbroken_ok _
  · exact (Outcome.unbroken_require _ _).bind fun _ _ ↦ Outcome.unbroken_ok _

/-- What the slots are cut from was checked to be long enough. -/
theorem slots_unbroken : (c.slots id count width valueWidth).Unbroken := by
  refine (Outcome.unbroken_require _ _).bind fun _ hwidth ↦ ?_
  refine buffer_unbroken.bind fun data hdata ↦ bitmap_unbroken.bind fun words _ ↦ ?_
  obtain ⟨-, v, -, hle, rfl⟩ := buffer_eq_ok_iff.1 hdata
  have hw : valueWidth ≤ width := by simpa using Outcome.require_eq_ok_iff.1 hwidth
  refine (Outcome.unbroken_assert (by simpa using hw)).bind fun _ _ ↦ ?_
  exact (Outcome.unbroken_assert (by simpa using hle)).bind fun _ _ ↦ Outcome.unbroken_ok _

theorem listChild_unbroken : (c.listChild id).Unbroken := by
  refine vector_unbroken.bind fun v _ ↦ ?_
  cases v.children <;> simp

theorem structChild_unbroken {index : Nat} : (c.structChild id index).Unbroken := by
  refine vector_unbroken.bind fun v _ ↦ ?_
  cases v.children[index]? <;> simp

theorem arrayChild_unbroken : (c.arrayChild id).Unbroken := by
  refine vector_unbroken.bind fun v _ ↦ ?_
  cases v.children <;> simp

end Chunk

/-! ### Columns made of columns -/

namespace Column

variable {chunk : Chunk} {config : DecodeConfig} {id count : Nat} {c : Column}

theorem slotWidth_congr {a b : Chunk} (h : a.booleanWidth = b.booleanWidth) (kind : FixedKind) :
    slotWidth a kind = slotWidth b kind := by
  cases kind with
  | boolean => exact h
  | _ => rfl

/-- Slots are as wide as the values in them, if there is a byte for a boolean. -/
theorem width_le_slotWidth (h : 1 ≤ chunk.booleanWidth) (kind : FixedKind) :
    kind.width ≤ slotWidth chunk kind := by
  cases kind with
  | boolean => exact h
  | _ => exact Nat.le_refl _

theorem checkDepth_eq_ok_iff {depth : Nat} {u : Unit} :
    checkDepth config depth = .ok u ↔ depth ≤ config.maxNestingDepth := by
  simp [checkDepth]

theorem checkDepth_unbroken {depth : Nat} : (checkDepth config depth).Unbroken :=
  Outcome.unbroken_require _ _

theorem ofList_eq_ok_iff {element : LogicalType} {entries : SlotWindow} {child : Column} :
    ofList element entries child = .ok c ↔
      child.type = element ∧ c = ⟨.list entries.content child, entries.start, entries.len⟩ := by
  simp [ofList, bind_eq_ok_iff, eq_comm (a := c)]

theorem checkFields_eq_ok_iff {len : Nat} {fields : List (String × LogicalType)}
    {columns : List Column} (h : columns.length = fields.length) :
    checkFields len fields columns = .ok () ↔
      List.Forall₂ (fun f col ↦ col.len = len ∧ Column.type col = f.2) fields columns := by
  induction fields generalizing columns with
  | nil =>
    have : columns = [] := by simpa using h
    simp [this, checkFields]
  | cons f fields ih =>
    obtain _ | ⟨col, columns⟩ := columns
    · simp at h
    · have hlen : columns.length = fields.length := by simpa using h
      simp [checkFields, bind_eq_ok_iff, ih hlen, and_assoc]

/-- A struct is made of columns that are, one by one, of the types of the fields and of its own
length. -/
theorem ofFields_eq_ok_iff {fields : List (String × LogicalType)} {words : Bitmap} {len : Nat}
    {columns : List Column} :
    ofFields fields words len columns = .ok c ↔
      List.Forall₂ (fun f col ↦ col.len = len ∧ Column.type col = f.2) fields columns ∧
        c = .whole (.struct words ((fields.map (·.1)).zip columns)) len := by
  simp only [ofFields, bind_eq_ok_iff, Outcome.require_eq_ok, exists_const, pure_eq_ok,
    decide_eq_true_eq, Except.ok.injEq]
  constructor
  · rintro ⟨hlen, ⟨⟩, hcheck, rfl⟩
    exact ⟨(checkFields_eq_ok_iff hlen).1 hcheck, rfl⟩
  · rintro ⟨hall, rfl⟩
    have hlen := hall.length_eq.symm
    exact ⟨hlen, (), (checkFields_eq_ok_iff hlen).2 hall, rfl⟩

theorem ofArray_eq_ok_iff {element : LogicalType} {length : UInt64} {words : Bitmap} {len : Nat}
    {child : Column} :
    ofArray element length words len child = .ok c ↔
      child.type = element ∧ len * length.toNat < Chunk.sizeLimit ∧
        len * length.toNat ≤ child.len ∧ c = .whole (.array length words child) len := by
  simp [ofArray, bind_eq_ok_iff, eq_comm (a := c), and_assoc]

theorem ofEntries_eq_ok_iff {key value : LogicalType} {slots : Slots} {child : Column}
    {start len : Nat} :
    ofEntries key value ⟨.list slots child, start, len⟩ = .ok c ↔
      child.type = .struct (LogicalType.mapEntry key value) ∧
        c = ⟨.map key value slots child, start, len⟩ := by
  simp [ofEntries, bind_eq_ok_iff, Column.type, eq_comm (a := c)]

/-! ### Fields, one after the other -/

theorem fieldDecoders_eq_map (depth count : Nat) (fields : List (String × LogicalType)) :
    fieldDecoders chunk config depth count fields =
      fields.map fun f id ↦ decodeAt chunk config depth id count f.2 := by
  induction fields with
  | nil => rfl
  | cons f fields ih =>
    obtain ⟨name, t⟩ := f
    rw [fieldDecoders, ih]
    rfl

theorem decodeChildren_eq_mapM (index : Nat) (decoders : List (Nat → Outcome Column)) :
    decodeChildren chunk id index decoders =
      (decoders.zipIdx index).mapM fun d ↦ (chunk.structChild id d.2 >>= d.1) := by
  induction decoders generalizing index with
  | nil => rfl
  | cons decoder rest ih =>
    simp only [decodeChildren, List.zipIdx_cons, List.mapM_cons, ih, bind_assoc]

/-- A struct is opened by opening the vector at each position by the decoder at that position. -/
theorem decodeStruct_eq_ok_iff {fields : List (String × LogicalType)}
    {decoders : List (Nat → Outcome Column)} :
    decodeStruct chunk id count fields decoders = .ok c ↔
      (chunk.validity id).covers count = true ∧ ∃ columns,
        List.Forall₂ (fun d col ↦ ∃ child, chunk.structChild id d.2 = .ok child ∧ d.1 child = .ok col)
          decoders.zipIdx columns ∧
        List.Forall₂ (fun f col ↦ col.len = count ∧ Column.type col = f.2) fields columns ∧
        c = .whole (.struct (chunk.validity id) ((fields.map (·.1)).zip columns)) count := by
  simp only [decodeStruct, bind_eq_ok_iff, Chunk.bitmap_eq_ok_iff, decodeChildren_eq_mapM,
    mapM_eq_ok_iff, ofFields_eq_ok_iff]
  constructor
  · rintro ⟨_, ⟨hcov, rfl⟩, columns, hcolumns, hfields, rfl⟩
    exact ⟨hcov, columns, hcolumns, hfields, rfl⟩
  · rintro ⟨hcov, columns, hcolumns, hfields, rfl⟩
    exact ⟨_, ⟨hcov, rfl⟩, columns, hcolumns, hfields, rfl⟩

/-- A list is opened by opening its child; with eager validation its entries have to be right. -/
theorem decodeList_eq_ok_iff {element : LogicalType} {decoder : Nat → Nat → Outcome Column} :
    decodeList chunk config id count element decoder = .ok c ↔
      ∃ slots child childCount elements,
        chunk.slots id count entryWidth entryWidth = .ok slots ∧
        chunk.listChild id = .ok (child, childCount) ∧ decoder child childCount = .ok elements ∧
        elements.type = element ∧
        c = ⟨.list slots.content elements, slots.start, slots.len⟩ ∧
        (config.eagerListValidation = true → c.validateEntries = .ok ()) := by
  simp only [decodeList, bind_eq_ok_iff, ofList_eq_ok_iff]
  constructor
  · rintro ⟨slots, hslots, ⟨child, childCount⟩, hchild, elements, helements, list, ⟨htype, rfl⟩, h⟩
    refine ⟨slots, child, childCount, elements, hslots, hchild, helements, htype, ?_⟩
    -- Lazily, entries are looked at only when they are read.
    by_cases heager : config.eagerListValidation = true
    · simp only [heager, if_true, bind_eq_ok_iff, pure_eq_ok, Except.ok.injEq] at h
      obtain ⟨⟨⟩, hvalid, rfl⟩ := h
      exact ⟨rfl, fun _ ↦ hvalid⟩
    · simp only [heager, Bool.false_eq_true, if_false, pure_eq_ok, Except.ok.injEq] at h
      exact ⟨h.symm, fun h ↦ absurd h heager⟩
  · rintro ⟨slots, child, childCount, elements, hslots, hchild, helements, htype, rfl, hvalid⟩
    refine ⟨slots, hslots, (child, childCount), hchild, elements, helements, _, ⟨htype, rfl⟩, ?_⟩
    by_cases heager : config.eagerListValidation = true
    · simp [heager, hvalid heager]
    · simp [heager]

theorem decodeArray_eq_ok_iff {element : LogicalType} {length : UInt64}
    {decoder : Nat → Nat → Outcome Column} :
    decodeArray chunk id count element length decoder = .ok c ↔
      (chunk.validity id).covers count = true ∧ count * length.toNat < Chunk.sizeLimit ∧
        ∃ child elements, chunk.arrayChild id = .ok child ∧
          decoder child (count * length.toNat) = .ok elements ∧ elements.type = element ∧
          count * length.toNat ≤ elements.len ∧
          c = .whole (.array length (chunk.validity id) elements) count := by
  simp only [decodeArray, bind_eq_ok_iff, Chunk.bitmap_eq_ok_iff, Outcome.require_eq_ok,
    exists_const, decide_eq_true_eq, ofArray_eq_ok_iff]
  constructor
  · rintro ⟨_, ⟨hcov, rfl⟩, hlt, child, hchild, elements, helements, htype, -, hle, rfl⟩
    exact ⟨hcov, hlt, child, elements, hchild, helements, htype, hle, rfl⟩
  · rintro ⟨hcov, hlt, child, elements, hchild, helements, htype, hle, rfl⟩
    exact ⟨_, ⟨hcov, rfl⟩, hlt, child, hchild, elements, helements, htype, hlt, hle, rfl⟩

theorem decodeDecimal_eq_ok_iff {t : DecimalType} :
    decodeDecimal chunk id count t = .ok c ↔
      t.scale ≤ t.width ∧ ∃ width w, t.physicalWidth? = some width ∧
        chunk.slots id count width width = .ok w ∧ c = ofDecimals t width w := by
  simp only [decodeDecimal, bind_eq_ok_iff, Outcome.require_eq_ok, exists_const, decide_eq_true_eq,
    DecimalType.physicalWidth]
  refine and_congr_right fun _ ↦ ?_
  cases t.physicalWidth? <;> simp [Outcome.refuse, bind_eq_ok_iff, eq_comm (a := c)]

/-- A union is made of a struct whose first field holds the tags. -/
theorem ofMembers_eq_ok_iff {alternatives : List (String × LogicalType)} {words : Bitmap}
    {fields : List (String × Column)} {start len : Nat} :
    ofMembers alternatives ⟨.struct words fields, start, len⟩ = .ok c ↔
      Layout.fieldTypes fields = LogicalType.unionMembers alternatives ∧
        ∃ name tags rest, fields = (name, ofFixed (.integer .uTinyInt) tags) :: rest ∧
          c = ⟨.union words tags rest, start, len⟩ := by
  simp only [ofMembers, bind_eq_ok_iff, Outcome.require_eq_ok, exists_const, decide_eq_true_eq]
  refine and_congr_right fun _ ↦ ?_
  constructor
  · intro h
    split at h
    next name slots tagStart tagLen rest _ =>
      exact ⟨name, ⟨slots, tagStart, tagLen⟩, rest, rfl, (Except.ok.inj h).symm⟩
    -- A first field that is not made of bytes, or none at all, gives no column.
    next => simp [Outcome.refuse] at h
    next => simp [Outcome.broken] at h
  · rintro ⟨name, tags, rest, rfl, rfl⟩
    rfl

/-! ### Vectors of each type -/

section DecodeAt

variable {depth : Nat}

theorem decodeAt_fixed_eq_ok_iff {kind : FixedKind} :
    decodeAt chunk config depth id count (.fixed kind) = .ok c ↔
      depth ≤ config.maxNestingDepth ∧
        ∃ w, chunk.slots id count (slotWidth chunk kind) kind.width = .ok w ∧ c = ofFixed kind w := by
  show (do
    checkDepth config depth
    return ofFixed kind (← chunk.slots id count (slotWidth chunk kind) kind.width)) = .ok c ↔ _
  simp [bind_eq_ok_iff, checkDepth_eq_ok_iff, eq_comm (a := c)]

theorem decodeAt_string_eq_ok_iff {kind : StringKind} :
    decodeAt chunk config depth id count (.string kind) = .ok c ↔
      depth ≤ config.maxNestingDepth ∧
        ∃ w, chunk.slots id count StringSlot.width StringSlot.width = .ok w ∧
          c = ofStrings kind w chunk.heap := by
  show (do
    checkDepth config depth
    return ofStrings kind (← chunk.slots id count StringSlot.width StringSlot.width) chunk.heap) =
      .ok c ↔ _
  simp [bind_eq_ok_iff, checkDepth_eq_ok_iff, eq_comm (a := c)]

theorem decodeAt_decimal_eq_ok_iff {t : DecimalType} :
    decodeAt chunk config depth id count (.decimal t) = .ok c ↔
      depth ≤ config.maxNestingDepth ∧ decodeDecimal chunk id count t = .ok c := by
  show (do checkDepth config depth; decodeDecimal chunk id count t) = .ok c ↔ _
  simp [bind_eq_ok_iff, checkDepth_eq_ok_iff]

theorem decodeAt_enumeration_eq_ok_iff {t : EnumType} :
    decodeAt chunk config depth id count (.enumeration t) = .ok c ↔
      depth ≤ config.maxNestingDepth ∧
        ∃ w, chunk.slots id count t.indexWidth t.indexWidth = .ok w ∧
          c = ofIndices t t.indexWidth w := by
  show (do
    checkDepth config depth
    return ofIndices t t.indexWidth (← chunk.slots id count t.indexWidth t.indexWidth)) = .ok c ↔ _
  simp [bind_eq_ok_iff, checkDepth_eq_ok_iff, eq_comm (a := c)]

theorem decodeAt_list_eq_ok_iff {element : LogicalType} :
    decodeAt chunk config depth id count (.list element) = .ok c ↔
      depth ≤ config.maxNestingDepth ∧
        decodeList chunk config id count element (fun child childCount ↦
          decodeAt chunk config (depth + 1) child childCount element) = .ok c := by
  show (do
    checkDepth config depth
    decodeList chunk config id count element fun child childCount ↦
      decodeAt chunk config (depth + 1) child childCount element) = .ok c ↔ _
  simp [bind_eq_ok_iff, checkDepth_eq_ok_iff]

/-- A struct is opened by opening the vector at the position of each field. -/
theorem decodeAt_struct_eq_ok_iff {fields : List (String × LogicalType)} :
    decodeAt chunk config depth id count (.struct fields) = .ok c ↔
      depth ≤ config.maxNestingDepth ∧ (chunk.validity id).covers count = true ∧ ∃ columns,
        List.Forall₂ (fun f col ↦ ∃ child, chunk.structChild id f.2 = .ok child ∧
          decodeAt chunk config (depth + 1) child count f.1.2 = .ok col) fields.zipIdx columns ∧
        List.Forall₂ (fun f col ↦ col.len = count ∧ Column.type col = f.2) fields columns ∧
        c = .whole (.struct (chunk.validity id) ((fields.map (·.1)).zip columns)) count := by
  show (do
    checkDepth config depth
    decodeStruct chunk id count fields (fieldDecoders chunk config (depth + 1) count fields)) =
      .ok c ↔ _
  simp only [bind_eq_ok_iff, checkDepth_eq_ok_iff, exists_const, decodeStruct_eq_ok_iff,
    fieldDecoders_eq_map, List.zipIdx_map, List.forall₂_map_left_iff, Prod.map]
  rfl

theorem decodeAt_array_eq_ok_iff {element : LogicalType} {length : UInt64} :
    decodeAt chunk config depth id count (.array element length) = .ok c ↔
      depth ≤ config.maxNestingDepth ∧
        decodeArray chunk id count element length (fun child childCount ↦
          decodeAt chunk config (depth + 1) child childCount element) = .ok c := by
  show (do
    checkDepth config depth
    decodeArray chunk id count element length fun child childCount ↦
      decodeAt chunk config (depth + 1) child childCount element) = .ok c ↔ _
  simp [bind_eq_ok_iff, checkDepth_eq_ok_iff]

/-- A map is opened as the list of its entries. -/
theorem decodeAt_map {key value : LogicalType} :
    decodeAt chunk config depth id count (.map key value) =
      (decodeAt chunk config depth id count (.list (.struct (LogicalType.mapEntry key value))) >>=
        ofEntries key value) :=
  (bind_assoc (checkDepth config depth) _ _).symm

/-- A union is opened as the struct of its tag and its alternatives. -/
theorem decodeAt_union {alternatives : List (String × LogicalType)} :
    decodeAt chunk config depth id count (.union alternatives) =
      (decodeAt chunk config depth id count (.struct (LogicalType.unionMembers alternatives)) >>=
        ofMembers alternatives) :=
  (bind_assoc (checkDepth config depth) _ _).symm

theorem decodeAt_other_ne_ok {typeId : TypeId} :
    decodeAt chunk config depth id count (.other typeId) ≠ .ok c := by
  show (do checkDepth config depth; Outcome.refuse (.unsupportedType typeId.name)) ≠ .ok c
  simp [bind_eq_ok_iff, Outcome.refuse]

end DecodeAt

end Column

end Columnar
