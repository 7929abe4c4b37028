import Columnar.Proofs.Packing
import Columnar.Proofs.Slicing

/-!
# Reading literals back

A vector of a chunk reads back as literals of a type (`Chunk.ReadsBack`) if it can be opened as a
column of the type, whose rows have the values of the literals. There is one law for each type: what
the buffers of the vector have to hold, and what its children have to read back as.

Lists and maps share the opening of their entries, structs and unions that of their fields; both are
stated before the laws (`exists_list`, `exists_struct`). A map is what the list of its entries is, and
a union what the struct of its members is, with rows of its own.
-/

namespace Columnar

theorem SameButRow.eq_ok {α : Type} {x y : Outcome α} {a : α} (h : SameButRow x y)
    (hy : y = .ok a) : x = .ok a := by
  rw [SameButRow, hy] at h
  cases x with
  | ok b => exact congrArg Except.ok (Except.ok.inj h)
  | error failure => cases h

namespace Column

variable {chunk : Chunk} {config : DecodeConfig} {depth id count : Nat} {t : LogicalType} {c : Column}

/-- A row of an opened column is null, or what the buffers hold. -/
theorem getItem_of_decodeAt (h : decodeAt chunk config depth id count t = .ok c) {i : Nat}
    (hi : i < count) :
    c.getItem i = if c.content.isValid i then c.content.readValid 0 count i else .ok .null := by
  have hopened := isOpened_of_decodeAt chunk.counts_true h trivial
  rw [hopened.within.getItem_eq (hopened.len_eq ▸ hi), isValid, hopened.start_eq, hopened.len_eq,
    Nat.zero_add]

/-- A run of rows of an opened column has the values of those rows. -/
theorem get_narrow_of_decodeAt (h : decodeAt chunk config depth id count t = .ok c) {a b j : Nat}
    {v : Value} (hab : a + b ≤ count) (hj : j < b) (hv : c.getItem (a + j) = .ok v) :
    Column.get (c.narrow a b) j = .ok v := by
  have hopened := isOpened_of_decodeAt chunk.counts_true h trivial
  have hnarrow := getItem_narrow hopened.within (hopened.len_eq ▸ hab) hj
  rw [← getItem_of_lt (show j < (c.narrow a b).len from hj)]
  exact hnarrow.eq_ok hv

end Column

namespace Chunk

open Column

variable {chunk : Chunk} {config : DecodeConfig} {depth id : Nat} {v : RawVector}
  {values : List Literal}

/-- The vector can be opened, and each row has the value of its literal. -/
def ReadsBack (chunk : Chunk) (config : DecodeConfig) (depth id : Nat) (t : LogicalType)
    (values : List Literal) : Prop :=
  ∃ c : Column, decodeAt chunk config depth id values.length t = .ok c ∧
    ∀ i l, values[i]? = some l → c.getItem i = .ok (t.valueOf l)

/-- It is enough that the column is valid where a literal is not null, and has its value there. -/
theorem ReadsBack.of_valid {t : LogicalType} {c : Column}
    (h : decodeAt chunk config depth id values.length t = .ok c)
    (hrows : ∀ i l, values[i]? = some l → c.content.isValid i = !l.isNull ∧
      (l ≠ .null → c.content.readValid 0 values.length i = .ok (t.valueOf l))) :
    ReadsBack chunk config depth id t values := by
  refine ⟨c, h, fun i l hl ↦ ?_⟩
  obtain ⟨hi, -⟩ := List.getElem?_eq_some_iff.1 hl
  obtain ⟨hvalid, hrow⟩ := hrows i l hl
  rw [getItem_of_decodeAt h hi, hvalid]
  by_cases hnull : l = .null
  · rw [hnull, LogicalType.valueOf_null]
    rfl
  · rw [Literal.isNull_eq_false hnull, hrow hnull]
    rfl

/-! ### Leaves -/

theorem readsBack_fixed {kind : FixedKind} (hdepth : depth ≤ config.maxNestingDepth)
    (hv : chunk.vectors[id]? = some v)
    (h : v.Stores (slotWidth chunk kind) values fun l slot ↦ kind.decode slot = l.scalar)
    (hwidth : kind.width ≤ slotWidth chunk kind)
    (hsize : values.length * slotWidth chunk kind < sizeLimit) :
    ReadsBack chunk config depth id (.fixed kind) values := by
  obtain ⟨s, hslots, hrows⟩ := slots_of_stores hv h hwidth hsize
  refine .of_valid (decodeAt_fixed_eq_ok_iff.2 ⟨hdepth, _, hslots, rfl⟩) fun i l hl ↦ ?_
  obtain ⟨hvalid, hslot⟩ := hrows i l hl
  refine ⟨hvalid, fun hne ↦ ?_⟩
  show Except.ok (kind.decode (s.bytes (0 + i))) = _
  rw [Nat.zero_add, hslot hne, LogicalType.valueOf]

theorem readsBack_string {kind : StringKind} (hdepth : depth ≤ config.maxNestingDepth)
    (hv : chunk.vectors[id]? = some v)
    (h : v.Stores StringSlot.width values fun l slot ↦
      ∃ bytes, StringSlot.payload? chunk.heap slot = some bytes ∧
        ∀ row, kind.decode row bytes = .ok l.stringValue)
    (hsize : values.length * StringSlot.width < sizeLimit) :
    ReadsBack chunk config depth id (.string kind) values := by
  obtain ⟨s, hslots, hrows⟩ := slots_of_stores hv h (Nat.le_refl _) hsize
  refine .of_valid (decodeAt_string_eq_ok_iff.2 ⟨hdepth, _, hslots, rfl⟩) fun i l hl ↦ ?_
  obtain ⟨hvalid, hslot⟩ := hrows i l hl
  refine ⟨hvalid, fun hne ↦ ?_⟩
  obtain ⟨bytes, hbytes, hdecode⟩ := hslot hne
  show (Layout.string kind s chunk.heap).readValid 0 values.length i = _
  rw [Layout.readValid, Nat.zero_add, hbytes, LogicalType.valueOf]
  exact hdecode i

theorem readsBack_decimal {t : DecimalType} {width : Nat} (hdepth : depth ≤ config.maxNestingDepth)
    (hv : chunk.vectors[id]? = some v) (hscale : t.scale ≤ t.width)
    (hwidth : t.physicalWidth? = some width)
    (h : v.Stores width values fun l slot ↦
      Value.decimal ⟨LittleEndian.toInt (slot.take width), t.width, t.scale⟩ = t.valueOf l)
    (hsize : values.length * width < sizeLimit) :
    ReadsBack chunk config depth id (.decimal t) values := by
  obtain ⟨s, hslots, hrows⟩ := slots_of_stores hv h (Nat.le_refl _) hsize
  have hopen := decodeDecimal_eq_ok_iff.2 ⟨hscale, width, _, hwidth, hslots, rfl⟩
  refine .of_valid (decodeAt_decimal_eq_ok_iff.2 ⟨hdepth, hopen⟩) fun i l hl ↦ ?_
  obtain ⟨hvalid, hslot⟩ := hrows i l hl
  refine ⟨hvalid, fun hne ↦ ?_⟩
  show Except.ok (Value.decimal ⟨LittleEndian.toInt ((s.bytes (0 + i)).take width), _, _⟩) = _
  rw [Nat.zero_add, hslot hne, LogicalType.valueOf]

theorem readsBack_enumeration {t : EnumType} (hdepth : depth ≤ config.maxNestingDepth)
    (hv : chunk.vectors[id]? = some v)
    (h : v.Stores t.indexWidth values fun l slot ↦
      t.decode (LittleEndian.toNat (slot.take t.indexWidth)) = .ok (t.valueOf l))
    (hsize : values.length * t.indexWidth < sizeLimit) :
    ReadsBack chunk config depth id (.enumeration t) values := by
  obtain ⟨s, hslots, hrows⟩ := slots_of_stores hv h (Nat.le_refl _) hsize
  refine .of_valid (decodeAt_enumeration_eq_ok_iff.2 ⟨hdepth, _, hslots, rfl⟩) fun i l hl ↦ ?_
  obtain ⟨hvalid, hslot⟩ := hrows i l hl
  refine ⟨hvalid, fun hne ↦ ?_⟩
  show t.decode (LittleEndian.toNat ((s.bytes (0 + i)).take t.indexWidth)) = _
  rw [Nat.zero_add, hslot hne, LogicalType.valueOf]

/-! ### Lists and maps -/

/-- Entries within the child pass eager validation. -/
theorem validateEntries_of_rows {slots : Slots} {w : Column} {elements : List Literal}
    (hholds : slots.Holds values.length)
    (h : ∀ i l, values[i]? = some l → slots.words.isValid i = !l.isNull ∧
      (l ≠ .null → LiesAt elements l.items (slots.bytes i))) (hlen : w.len = elements.length) :
    validateEntries ⟨.list slots w, 0, values.length⟩ = .ok () := by
  refine forM_eq_ok_iff.2 fun i hi ↦ ?_
  have hi : i < values.length := List.mem_range.1 hi
  obtain ⟨hvalid, hslot⟩ := h i _ (List.getElem?_eq_getElem hi)
  show (Layout.listRange slots 0 values.length i w.len >>= fun _ ↦ pure ()) = .ok ()
  rw [Layout.listRange_bind_of_holds hholds (Nat.le_of_eq (Nat.zero_add _)) hi, Nat.zero_add, hvalid]
  by_cases hnull : values[i] = .null
  · rw [hnull]
    rfl
  · obtain ⟨offset, hentry, -⟩ := (hslot hnull).entryRange_eq_ok
    rw [hlen, hentry]
    split <;> rfl

/-- The column of a vector of lists: the elements of each list are a run of rows of the child. -/
theorem exists_list {element : LogicalType} {child : Nat} {elements : List Literal}
    (hdepth : depth ≤ config.maxNestingDepth) (hv : chunk.vectors[id]? = some v)
    (hchild : v.children.head? = some child) (hcount : v.childCount = elements.length)
    (h : v.Stores entryWidth values fun l slot ↦ LiesAt elements l.items slot)
    (hsize : values.length * entryWidth < sizeLimit)
    (helements : ReadsBack chunk config (depth + 1) child element elements) :
    ∃ (slots : Slots) (w : Column),
      decodeAt chunk config depth id values.length (.list element) =
          .ok ⟨.list slots w, 0, values.length⟩ ∧ w.type = element ∧
        ∀ i l, values[i]? = some l → slots.words.isValid i = !l.isNull ∧
          (l ≠ .null → ∃ offset, entryRange (slots.bytes i) w.len = .ok (offset, l.items.length) ∧
            ∀ (j : Nat) item, l.items[j]? = some item →
              Column.get (w.narrow offset l.items.length) j = .ok (element.valueOf item)) := by
  obtain ⟨s, hslots, hrows⟩ := slots_of_stores hv h (Nat.le_refl _) hsize
  obtain ⟨w, hw, hitems⟩ := helements
  have hopened := isOpened_of_decodeAt chunk.counts_true hw trivial
  obtain ⟨-, -, -, -, hholds⟩ := slots_spec hslots
  refine ⟨s, w, ?_, hopened.type_eq, fun i l hl ↦ ?_⟩
  · refine decodeAt_list_eq_ok_iff.2 ⟨hdepth, decodeList_eq_ok_iff.2 ?_⟩
    have hlist : chunk.listChild id = .ok (child, elements.length) :=
      listChild_eq_ok_iff.2 ⟨v, hv, hchild, hcount.symm⟩
    exact ⟨_, child, _, w, hslots, hlist, hw, hopened.type_eq, rfl, fun _ ↦
      validateEntries_of_rows hholds hrows hopened.len_eq⟩
  · obtain ⟨hvalid, hslot⟩ := hrows i l hl
    refine ⟨hvalid, fun hne ↦ ?_⟩
    obtain ⟨offset, hentry, hle, hat⟩ := (hslot hne).entryRange_eq_ok
    refine ⟨offset, by rw [hopened.len_eq, hentry], fun j item hj ↦ ?_⟩
    obtain ⟨hlt, -⟩ := List.getElem?_eq_some_iff.1 hj
    exact get_narrow_of_decodeAt hw hle hlt (hitems _ _ (hat j item hj))

theorem readsBack_list {element : LogicalType} {child : Nat} {elements : List Literal}
    (hdepth : depth ≤ config.maxNestingDepth) (hv : chunk.vectors[id]? = some v)
    (hchild : v.children.head? = some child) (hcount : v.childCount = elements.length)
    (h : v.Stores entryWidth values fun l slot ↦ LiesAt elements l.items slot)
    (hsize : values.length * entryWidth < sizeLimit)
    (helements : ReadsBack chunk config (depth + 1) child element elements)
    (haccepts : ∀ l ∈ values, (LogicalType.list element).Accepts l) :
    ReadsBack chunk config depth id (.list element) values := by
  obtain ⟨slots, w, hw, htype, hrows⟩ := exists_list hdepth hv hchild hcount h hsize helements
  refine .of_valid hw fun i l hl ↦ ?_
  obtain ⟨hvalid, hrow⟩ := hrows i l hl
  refine ⟨hvalid, fun hne ↦ ?_⟩
  obtain ⟨offset, hentry, hitems⟩ := hrow hne
  rcases LogicalType.accepts_list_iff.1 (haccepts l (List.mem_of_getElem? hl)) with rfl | ⟨items, rfl, -⟩
  · exact absurd rfl hne
  · show (Layout.list slots w).readValid 0 values.length i = _
    rw [Layout.readValid, Nat.zero_add, hentry, htype, LogicalType.valueOf]
    refine congrArg (fun row ↦ Except.ok (Value.list element items.length row)) (funext fun j ↦ ?_)
    exact hitems j _ (List.getElem?_eq_getElem j.isLt)

theorem valueOf_pair (key value : LogicalType) (a b : Literal) :
    (LogicalType.struct (LogicalType.mapEntry key value)).valueOf (.struct [a, b]) =
      .struct [("key", key.valueOf a), ("value", value.valueOf b)] := by
  simp [LogicalType.valueOf, LogicalType.fieldValues, LogicalType.mapEntry]

/-- A vector of maps is one of lists of pairs. -/
theorem readsBack_map {key value : LogicalType} {child : Nat} {elements : List Literal}
    (hdepth : depth ≤ config.maxNestingDepth) (hv : chunk.vectors[id]? = some v)
    (hchild : v.children.head? = some child) (hcount : v.childCount = elements.length)
    (h : v.Stores entryWidth (values.map Literal.entries) fun l slot ↦ LiesAt elements l.items slot)
    (hsize : values.length * entryWidth < sizeLimit)
    (helements : ReadsBack chunk config (depth + 1) child (.struct (LogicalType.mapEntry key value))
      elements)
    (haccepts : ∀ l ∈ values, (LogicalType.map key value).Accepts l) :
    ReadsBack chunk config depth id (.map key value) values := by
  have hlen : (values.map Literal.entries).length = values.length := List.length_map _
  obtain ⟨slots, w, hw, htype, hrows⟩ :=
    exists_list hdepth hv hchild hcount h (hlen ▸ hsize) helements
  rw [hlen] at hw
  have hmap : decodeAt chunk config depth id values.length (.map key value) =
      .ok ⟨.map key value slots w, 0, values.length⟩ := by
    rw [decodeAt_map, hw, ok_bind]
    exact ofEntries_eq_ok_iff.2 ⟨htype, rfl⟩
  refine .of_valid hmap fun i l hl ↦ ?_
  have hl' : (values.map Literal.entries)[i]? = some l.entries := by rw [List.getElem?_map, hl]; rfl
  obtain ⟨hvalid, hrow⟩ := hrows i _ hl'
  rcases LogicalType.accepts_map_iff.1 (haccepts l (List.mem_of_getElem? hl)) with rfl | ⟨pairs, rfl, -⟩
  · exact ⟨hvalid, fun hne ↦ absurd rfl hne⟩
  · refine ⟨hvalid, fun _ ↦ ?_⟩
    obtain ⟨offset, hentry, hitems⟩ := hrow (by simp [Literal.entries])
    -- Every element is a struct, and so it is a pair again.
    let items := pairs.map fun p ↦ Literal.struct [p.1, p.2]
    have hpairs : Outcome.collect items.length (fun j ↦ do
        pairOf i j (← Column.get (w.narrow offset items.length) j)) =
          .ok (pairs.map fun p ↦ (key.valueOf p.1, value.valueOf p.2)) := by
      refine Outcome.collect_eq_ok_iff.2 ⟨by simp [items], fun j ↦ ?_⟩
      have hj : j < pairs.length := by simpa [items] using j.isLt
      have hitem : items[j.val]? = some (.struct [pairs[j].1, pairs[j].2]) := by
        rw [List.getElem?_map, List.getElem?_eq_getElem hj]
        rfl
      have hget : Column.get (w.narrow offset items.length) j = .ok _ := hitems j _ hitem
      rw [hget, ok_bind, valueOf_pair]
      simp [pairOf]
    show (Layout.map key value slots w).readValid 0 values.length i = _
    rw [Layout.readValid, Nat.zero_add, hentry, LogicalType.valueOf]
    exact congrArg (Value.map <$> ·) hpairs

/-! ### Bitmaps of nested vectors -/

theorem validity_of_vector (hv : chunk.vectors[id]? = some v) : chunk.validity id = v.validity := by
  simp [validity, hv]

theorem covers_of_vector (hv : chunk.vectors[id]? = some v)
    (hvalidity : v.validity = Encoder.bitmapOf values) :
    (chunk.validity id).covers values.length = true := by
  rw [validity_of_vector hv, hvalidity]
  exact Encoder.covers_bitmapOf values

theorem isValid_of_vector (hv : chunk.vectors[id]? = some v)
    (hvalidity : v.validity = Encoder.bitmapOf values) {i : Nat} {l : Literal}
    (hl : values[i]? = some l) : (chunk.validity id).isValid i = !l.isNull := by
  rw [validity_of_vector hv, hvalidity]
  exact Encoder.isValid_bitmapOf hl

/-! ### Arrays -/

theorem length_elements {element : LogicalType} {length : UInt64}
    (haccepts : ∀ l ∈ values, (LogicalType.array element length).Accepts l) :
    ∀ items ∈ values.map (Literal.elements length.toNat), items.length = length.toNat := by
  intro items hitems
  obtain ⟨l, hl, rfl⟩ := List.mem_map.1 hitems
  exact (LogicalType.accepts_elements (haccepts l hl)).1

theorem readsBack_array {element : LogicalType} {length : UInt64} {child : Nat}
    (hdepth : depth ≤ config.maxNestingDepth) (hv : chunk.vectors[id]? = some v)
    (hchild : v.children.head? = some child) (hvalidity : v.validity = Encoder.bitmapOf values)
    (hsize : values.length * length.toNat < sizeLimit)
    (helements : ReadsBack chunk config (depth + 1) child element
      (values.flatMap (Literal.elements length.toNat)))
    (haccepts : ∀ l ∈ values, (LogicalType.array element length).Accepts l) :
    ReadsBack chunk config depth id (.array element length) values := by
  obtain ⟨w, hw, hitems⟩ := helements
  have hlength := length_elements haccepts
  have hcount : (values.flatMap (Literal.elements length.toNat)).length =
      values.length * length.toNat := by
    rw [List.flatMap_def, length_flatten_of_length_eq hlength, List.length_map]
  rw [hcount] at hw
  have hopened := isOpened_of_decodeAt chunk.counts_true hw trivial
  have harray : decodeArray chunk id values.length element length (fun child childCount ↦
      decodeAt chunk config (depth + 1) child childCount element) = .ok _ :=
    decodeArray_eq_ok_iff.2 ⟨covers_of_vector hv hvalidity, hsize, child, w,
      arrayChild_eq_ok_iff.2 ⟨v, hv, hchild⟩, hw, hopened.type_eq,
      Nat.le_of_eq hopened.len_eq.symm, rfl⟩
  refine .of_valid (decodeAt_array_eq_ok_iff.2 ⟨hdepth, harray⟩) fun i l hl ↦ ?_
  refine ⟨isValid_of_vector hv hvalidity hl, fun hne ↦ ?_⟩
  obtain ⟨hi, -⟩ := List.getElem?_eq_some_iff.1 hl
  rcases LogicalType.accepts_array_iff.1 (haccepts l (List.mem_of_getElem? hl)) with
    rfl | ⟨items, rfl, hitemsLength, -⟩
  · exact absurd rfl hne
  · show (Layout.array length (chunk.validity id) w).readValid 0 values.length i = _
    rw [Layout.readValid, Nat.zero_add, hopened.type_eq, LogicalType.valueOf]
    refine congrArg (fun row ↦ Except.ok (Value.array element length.toNat row)) (funext fun j ↦ ?_)
    have hpart : (values.map (Literal.elements length.toNat))[i]? = some items := by
      rw [List.getElem?_map, hl]
      rfl
    -- Null rows have elements too, so row `i` starts behind `i` times the length.
    have hitem : (values.flatMap (Literal.elements length.toNat))[i * length.toNat + j]? =
        some (items.getD j .null) := by
      have hj : j < items.length := Nat.lt_of_lt_of_eq j.isLt hitemsLength.symm
      rw [List.flatMap_def, getElem?_flatten hlength hpart j.isLt, List.getD_eq_getElem?_getD,
        List.getElem?_eq_getElem hj]
      rfl
    have hle : i * length.toNat + length.toNat ≤ values.length * length.toNat :=
      mul_add_le_mul hi length.toNat
    exact get_narrow_of_decodeAt hw hle j.isLt (hitems _ _ hitem)

/-! ### Structs and unions -/

/-- Columns that belong to fields by their positions are named after them. -/
theorem forall₂_zip {R : (String × LogicalType) × Nat → Column → Prop}
    {fields : List (String × LogicalType)} {index : Nat} {columns : List Column}
    (h : List.Forall₂ R (fields.zipIdx index) columns) :
    List.Forall₂ (fun c f ↦ c.1 = f.1.1 ∧ R f c.2) ((fields.map (·.1)).zip columns)
      (fields.zipIdx index) := by
  induction fields generalizing index columns with
  | nil => cases h; exact .nil
  | cons f fields ih =>
    rw [List.zipIdx_cons] at h ⊢
    cases h with
    | cons hf hrest => exact .cons ⟨rfl, hf⟩ (ih hrest)

/-- The column of a vector of structs: its fields are the columns of the children, by position. -/
theorem exists_struct {fields : List (String × LogicalType)}
    (hdepth : depth ≤ config.maxNestingDepth) (hv : chunk.vectors[id]? = some v)
    (hvalidity : v.validity = Encoder.bitmapOf values)
    (hfields : ∀ f ∈ fields.zipIdx, ∃ child, v.children[f.2]? = some child ∧
      ReadsBack chunk config (depth + 1) child f.1.2 (values.map (Literal.field f.2))) :
    ∃ columns : List Column,
      decodeAt chunk config depth id values.length (.struct fields) =
          .ok (.whole (.struct v.validity ((fields.map (·.1)).zip columns)) values.length) ∧
        List.Forall₂ (fun f col ↦
          (∃ child, decodeAt chunk config (depth + 1) child values.length f.1.2 = .ok col) ∧
            ∀ i l, values[i]? = some l → col.getItem i = .ok (f.1.2.valueOf (l.field f.2)))
          fields.zipIdx columns := by
  have hexists : ∀ f ∈ fields.zipIdx, ∃ col : Column, ∃ child, v.children[f.2]? = some child ∧
      decodeAt chunk config (depth + 1) child values.length f.1.2 = .ok col ∧
      ∀ i l, values[i]? = some l → col.getItem i = .ok (f.1.2.valueOf (l.field f.2)) := by
    intro f hf
    obtain ⟨child, hchild, col, hcol, hrows⟩ := hfields f hf
    rw [List.length_map] at hcol
    refine ⟨col, child, hchild, hcol, fun i l hl ↦ hrows i _ ?_⟩
    rw [List.getElem?_map, hl]
    rfl
  obtain ⟨columns, hcolumns⟩ := exists_forall₂ hexists
  refine ⟨columns, decodeAt_struct_eq_ok_iff_forall₂.2
    ⟨hdepth, covers_of_vector hv hvalidity, columns, ?_, ?_⟩, ?_⟩
  · refine hcolumns.imp fun f col hcol ↦ ?_
    obtain ⟨child, hchild, hdecode, -⟩ := hcol
    exact ⟨child, structChild_eq_ok_iff.2 ⟨v, hv, hchild⟩, hdecode⟩
  · rw [validity_of_vector hv]
  · refine hcolumns.imp fun f col hcol ↦ ?_
    obtain ⟨child, -, hdecode, hrows⟩ := hcol
    exact ⟨⟨child, hdecode⟩, hrows⟩

theorem readsBack_struct {fields : List (String × LogicalType)}
    (hdepth : depth ≤ config.maxNestingDepth) (hv : chunk.vectors[id]? = some v)
    (hvalidity : v.validity = Encoder.bitmapOf values)
    (hfields : ∀ f ∈ fields.zipIdx, ∃ child, v.children[f.2]? = some child ∧
      ReadsBack chunk config (depth + 1) child f.1.2 (values.map (Literal.field f.2)))
    (haccepts : ∀ l ∈ values, (LogicalType.struct fields).Accepts l) :
    ReadsBack chunk config depth id (.struct fields) values := by
  obtain ⟨columns, hstruct, hcolumns⟩ := exists_struct hdepth hv hvalidity hfields
  refine .of_valid hstruct fun i l hl ↦ ?_
  refine ⟨hvalidity ▸ Encoder.isValid_bitmapOf hl, fun hne ↦ ?_⟩
  obtain ⟨hi, -⟩ := List.getElem?_eq_some_iff.1 hl
  rcases LogicalType.accepts_struct_iff.1 (haccepts l (List.mem_of_getElem? hl)) with
    rfl | ⟨lits, rfl, -⟩
  · exact absurd rfl hne
  · have hfields : ((fields.map (·.1)).zip columns).mapM (fun f ↦
        (f.1, ·) <$> Column.get (f.2.narrow 0 values.length) i) =
          .ok (LogicalType.fieldValues fields 0 (.struct lits)) := by
      rw [LogicalType.fieldValues_eq_map, mapM_eq_ok_iff, List.forall₂_map_right_iff]
      refine (forall₂_zip hcolumns).imp fun c f hcol ↦ ?_
      obtain ⟨hname, ⟨child, hdecode⟩, hrows⟩ := hcol
      have hrow : c.2.getItem (0 + i) = _ := (Nat.zero_add i).symm ▸ hrows i _ hl
      rw [get_narrow_of_decodeAt hdecode (Nat.le_of_eq (Nat.zero_add _)) hi hrow, hname]
      rfl
    show (Layout.struct _ _).readValid 0 values.length i = _
    rw [Layout.readValid, LogicalType.valueOf]
    exact congrArg (Value.struct <$> ·) hfields

/-- The byte of a tag that is read as a number is that number. -/
theorem tagOf_of_getItem {tags : SlotWindow} {count i n : Nat}
    (h : decodeAt chunk config depth id count LogicalType.tagType =
      .ok (ofFixed (.integer .uTinyInt) tags)) (hi : i < count)
    (hn : getItem (ofFixed (.integer .uTinyInt) tags) i = .ok (.integer .uTinyInt n)) :
    tags.content.words.isValid (tags.start + i) = true ∧
      tagOf (tags.content.bytes (tags.start + i)) = n := by
  have hstart : tags.start = 0 := (isOpened_of_decodeAt chunk.counts_true h trivial).start_eq
  rw [getItem_of_decodeAt h hi] at hn
  rw [hstart, Nat.zero_add]
  split at hn
  next hvalid =>
    refine ⟨hvalid, ?_⟩
    have hvalue : Value.integer .uTinyInt (LittleEndian.toNat
        ((tags.content.bytes (0 + i)).take 1)) = .integer .uTinyInt n := Except.ok.inj hn
    rw [Nat.zero_add] at hvalue
    injection hvalue with _ hvalue
    exact Int.ofNat_inj.1 hvalue
  next => simp at hn

/-- A vector of unions is one of structs of a tag and the alternatives. -/
theorem readsBack_union {alternatives : List (String × LogicalType)}
    (hdepth : depth ≤ config.maxNestingDepth) (hv : chunk.vectors[id]? = some v)
    (hvalidity : v.validity = Encoder.bitmapOf (values.map (Literal.members alternatives.length)))
    (hfields : ∀ f ∈ (LogicalType.unionMembers alternatives).zipIdx, ∃ child,
      v.children[f.2]? = some child ∧ ReadsBack chunk config (depth + 1) child f.1.2
        ((values.map (Literal.members alternatives.length)).map (Literal.field f.2)))
    (haccepts : ∀ l ∈ values, (LogicalType.union alternatives).Accepts l) :
    ReadsBack chunk config depth id (.union alternatives) values := by
  have hlen : (values.map (Literal.members alternatives.length)).length = values.length :=
    List.length_map _
  obtain ⟨columns, hstruct, hcolumns⟩ := exists_struct hdepth hv hvalidity hfields
  rw [hlen] at hstruct hcolumns
  rw [LogicalType.unionMembers, List.zipIdx_cons] at hcolumns
  obtain ⟨tagColumn, rest, ⟨⟨tagChild, htagDecode⟩, htagRows⟩, hrest, rfl⟩ :=
    List.forall₂_cons_left_iff.1 hcolumns
  -- The tags were opened as bytes, and so they are a column of slots.
  obtain ⟨-, tags, -, rfl⟩ := decodeAt_fixed_eq_ok_iff.1 htagDecode
  have hunion : decodeAt chunk config depth id values.length (.union alternatives) =
      .ok (.whole (.union v.validity tags ((alternatives.map (·.1)).zip rest)) values.length) := by
    -- The members were opened as the struct that they are checked to be.
    have htypes := (isOpened_of_decodeAt chunk.counts_true hstruct trivial).type_eq
    rw [decodeAt_union, hstruct, ok_bind]
    exact ofMembers_eq_ok_iff.2 ⟨LogicalType.struct.inj htypes, _, tags, _, rfl, rfl⟩
  refine .of_valid hunion fun i l hl ↦ ?_
  obtain ⟨hi, -⟩ := List.getElem?_eq_some_iff.1 hl
  have hl' : (values.map (Literal.members alternatives.length))[i]? =
      some (l.members alternatives.length) := by
    rw [List.getElem?_map, hl]
    rfl
  have hwords : v.validity.isValid i = !(l.members alternatives.length).isNull :=
    hvalidity ▸ Encoder.isValid_bitmapOf hl'
  rcases LogicalType.accepts_union_iff.1 (haccepts l (List.mem_of_getElem? hl)) with
    rfl | ⟨tag, member, a, rfl, ha, -⟩
  · refine ⟨?_, fun hne ↦ absurd rfl hne⟩
    show (v.validity.isValid i && _) = _
    rw [hwords]
    rfl
  · obtain ⟨htagValid, htag⟩ := tagOf_of_getItem htagDecode hi (htagRows i _ hl')
    refine ⟨?_, fun _ ↦ ?_⟩
    · show (v.validity.isValid i && tags.content.words.isValid (tags.start + i)) = true
      rw [hwords, htagValid]
      rfl
    · -- The alternative at the tag is the only one with a literal of its own.
      have hmember : ∃ col : Column, ((alternatives.map (·.1)).zip rest)[tag.toNat]? = some (a.1, col) ∧
          Column.get (col.narrow 0 values.length) i = .ok (a.2.valueOf member) := by
        obtain ⟨col, hcol, ⟨child, hdecode⟩, hrows⟩ := exists_getElem?_of_forall₂ hrest ha
        have hrow : col.getItem (0 + i) = .ok (a.2.valueOf member) := by
          obtain ⟨hlt, -⟩ := List.getElem?_eq_some_iff.1 ha
          have hselected := Literal.field_members_union tag member hlt
          rw [Nat.zero_add, hrows i _ hl', Nat.zero_add, Nat.add_comm, hselected, if_pos rfl]
        refine ⟨col, List.getElem?_zip_eq_some.2 ⟨?_, hcol⟩, ?_⟩
        · rw [List.getElem?_map, ha]
          rfl
        · exact get_narrow_of_decodeAt hdecode (Nat.le_of_eq (Nat.zero_add _)) hi hrow
      obtain ⟨col, hcol, hget⟩ := hmember
      show (Layout.union v.validity tags ((alternatives.map (·.1)).zip rest)).readValid 0
        values.length i = _
      rw [Layout.readValid, Nat.zero_add, htag]
      simp only [hcol, hget, LogicalType.valueOf, LogicalType.memberValue_of_getElem? ha]
      rfl

end Chunk

end Columnar
