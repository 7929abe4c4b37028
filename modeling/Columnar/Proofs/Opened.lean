import Columnar.Proofs.Extent
import Columnar.Proofs.Opening

/-!
# What an opened column is

`Column.IsOpened` says what opening a vector makes: a column of the rows and of the type that were
asked for, whose windows lie within their buffers at every level. The predicate `ok` is any property
of row numbers that all machine words have; the number of rows of each column inside has it as well,
as long as the chunk keeps to it where it says how many rows a list has (`Chunk.Counts`).

The proof that a vector is opened this way (`isOpened_of_decodeAt`) is an induction on the type. The
cases of maps and unions are those of the lists and structs they are stored as, since those columns
hold the same windows (`IsOpened.map`, `IsOpened.union`).
-/

namespace Columnar

/-- All machine words and all the numbers of list elements that the chunk records are `ok`. -/
structure Chunk.Counts (chunk : Chunk) (ok : Nat → Prop) : Prop where
  words : ∀ n < Chunk.sizeLimit, ok n
  children : ∀ {id : Nat} {v : RawVector}, chunk.vectors[id]? = some v → ok v.childCount

/-- Any chunk will do if all numbers are `ok`. -/
theorem Chunk.counts_true (chunk : Chunk) : chunk.Counts fun _ ↦ True where
  words _ _ := trivial
  children _ := trivial

theorem LogicalType.maxDepth_le_iff {fields : List (String × LogicalType)} {n : Nat} :
    LogicalType.maxDepth fields ≤ n ↔ ∀ f ∈ fields, f.2.depth ≤ n := by
  induction fields with
  | nil => simp [LogicalType.maxDepth]
  | cons f fields ih => rw [LogicalType.maxDepth, Nat.max_le, ih, List.forall_mem_cons]

theorem LogicalType.depth_le_maxDepth {fields : List (String × LogicalType)}
    {f : String × LogicalType} (hf : f ∈ fields) : f.2.depth ≤ LogicalType.maxDepth fields :=
  LogicalType.maxDepth_le_iff.1 (Nat.le_refl _) f hf

/-- Slots that are had from a chunk are all of its first `count` slots. -/
theorem Chunk.slots_spec {chunk : Chunk} {id count width valueWidth : Nat} {w : SlotWindow}
    (h : chunk.slots id count width valueWidth = .ok w) :
    w.start = 0 ∧ w.len = count ∧ w.content.width = width ∧ valueWidth ≤ width ∧
      w.content.Holds count := by
  obtain ⟨hwidth, hlt, v, -, hle, -, rfl⟩ := Chunk.slots_eq_ok_iff.1 h
  exact ⟨rfl, rfl, rfl, hwidth, hle, hlt⟩

namespace Column

variable {chunk : Chunk} {config : DecodeConfig} {ok : Nat → Prop} {depth id count : Nat}
  {t : LogicalType} {c : Column}

/-- The column starts at the first row of its buffers, has the given type and number of rows, and
lies within its buffers at every level, with no more than an `ok` number of rows. -/
structure IsOpened (ok : Nat → Prop) (count : Nat) (t : LogicalType) (c : Column) : Prop where
  start_eq : c.start = 0
  len_eq : c.len = count
  type_eq : c.type = t
  everywhere : c.content.Everywhere (fun layout rows ↦ layout.Fits rows ∧ ok rows) count

namespace IsOpened

theorem within (h : c.IsOpened ok count t) : c.Within ok := by
  rw [Within, h.start_eq, h.len_eq, Nat.zero_add]
  exact h.everywhere

/-- A column without columns inside lies within its buffers if its slots do. -/
theorem of_leaf {layout : Layout} {w : SlotWindow} (hstart : w.start = 0) (hlen : w.len = count)
    (htype : layout.type = t) (hfits : layout.Fits count) (hok : ok count)
    (hleaf : layout.windows = []) : IsOpened ok count t ⟨layout, w.start, w.len⟩ where
  start_eq := hstart
  len_eq := hlen
  type_eq := htype
  everywhere := .intro ⟨hfits, hok⟩ (by simp [hleaf])

/-- Maps have the window of the lists they are stored as. -/
theorem map {key value : LogicalType} {slots : Slots} {child : Column} {start len : Nat}
    (h : IsOpened ok count (.list (.struct (LogicalType.mapEntry key value)))
      ⟨.list slots child, start, len⟩) :
    IsOpened ok count (.map key value) ⟨.map key value slots child, start, len⟩ where
  start_eq := h.start_eq
  len_eq := h.len_eq
  type_eq := rfl
  everywhere := by
    have hchild : child.content.type = .struct (LogicalType.mapEntry key value) :=
      LogicalType.list.inj h.type_eq
    have hfits := h.everywhere.here
    exact .intro ⟨⟨hfits.1.1, hfits.1.2, hchild⟩, hfits.2⟩ fun _ hw ↦ h.everywhere.inside hw

/-- Unions have the window of the structs they are stored as, whose first field holds the tags. -/
theorem union {alternatives : List (String × LogicalType)} {words : Bitmap} {name : String}
    {tags : SlotWindow} {rest : List (String × Column)} {start len : Nat}
    (h : IsOpened ok count (.struct (LogicalType.unionMembers alternatives))
      ⟨.struct words ((name, ofFixed (.integer .uTinyInt) tags) :: rest), start, len⟩) :
    IsOpened ok count (.union alternatives) ⟨.union words tags rest, start, len⟩ where
  start_eq := h.start_eq
  len_eq := h.len_eq
  type_eq := by
    have htypes := LogicalType.struct.inj h.type_eq
    exact congrArg LogicalType.union (List.cons.inj htypes).2
  everywhere := by
    have hfields : ∀ f ∈ (name, ofFixed (.integer .uTinyInt) tags) :: rest, count ≤ f.2.len :=
      h.everywhere.here.1
    have htags : count ≤ tags.len := hfields (name, ofFixed (.integer .uTinyInt) tags) (by simp)
    exact .intro ⟨⟨htags, fun a ha ↦ hfields a (by simp [ha])⟩, h.everywhere.here.2⟩
      fun _ hw ↦ h.everywhere.inside hw

end IsOpened

/-- Columns of the types of the fields, with their names, are fields of those types. -/
theorem fieldTypes_zip {fields : List (String × LogicalType)} {columns : List Column}
    (h : List.Forall₂ (fun f col ↦ Column.type col = f.2) fields columns) :
    Layout.fieldTypes ((fields.map (·.1)).zip columns) = fields := by
  induction h with
  | nil => rfl
  | @cons f col fields columns hcol _ ih =>
    rw [Layout.fieldTypes_eq_map] at ih ⊢
    simp only [List.map_cons, List.zip_cons_cons, ih]
    exact congrArg (· :: fields) (Prod.ext rfl hcol)

/-! ### Opening one level -/

theorem isOpened_ofFixed {kind : FixedKind} {width : Nat} {w : SlotWindow}
    (h : chunk.slots id count width kind.width = .ok w) (hok : ok count) :
    IsOpened ok count (.fixed kind) (ofFixed kind w) := by
  obtain ⟨hstart, hlen, hwidth, hle, hholds⟩ := Chunk.slots_spec h
  exact .of_leaf hstart hlen rfl ⟨hwidth ▸ hle, hholds⟩ hok rfl

/-- Opening a list whose elements are opened right. -/
theorem isOpened_of_decodeList {element : LogicalType} {decoder : Nat → Nat → Outcome Column}
    (h : decodeList chunk config id count element decoder = .ok c) (hcounts : chunk.Counts ok)
    (hok : ok count)
    (ih : ∀ {child childCount elements}, decoder child childCount = .ok elements → ok childCount →
      IsOpened ok childCount element elements) : IsOpened ok count (.list element) c := by
  obtain ⟨w, child, childCount, elements, hw, hchild, helements, htype, rfl, -⟩ :=
    decodeList_eq_ok_iff.1 h
  obtain ⟨v, hv, -, rfl⟩ := Chunk.listChild_eq_ok_iff.1 hchild
  obtain ⟨hstart, hlen, hwidth, -, hholds⟩ := Chunk.slots_spec hw
  have hopened := ih helements (hcounts.children hv)
  refine ⟨hstart, hlen, congrArg LogicalType.list htype, .intro ⟨⟨hwidth, hholds⟩, hok⟩ ?_⟩
  intro w hw
  obtain rfl : w = elements := by simpa [Layout.windows] using hw
  exact hopened.within

theorem isOpened_of_decodeArray {element : LogicalType} {length : UInt64}
    {decoder : Nat → Nat → Outcome Column}
    (h : decodeArray chunk id count element length decoder = .ok c) (hcounts : chunk.Counts ok)
    (hok : ok count)
    (ih : ∀ {child childCount elements}, decoder child childCount = .ok elements → ok childCount →
      IsOpened ok childCount element elements) : IsOpened ok count (.array element length) c := by
  obtain ⟨-, hlt, child, elements, -, helements, htype, hle, rfl⟩ := decodeArray_eq_ok_iff.1 h
  have hopened := ih helements (hcounts.words _ hlt)
  refine ⟨rfl, rfl, congrArg (LogicalType.array · length) htype, .intro ⟨⟨hle, hlt⟩, hok⟩ ?_⟩
  intro w hw
  obtain rfl : w = elements := by simpa [Layout.windows, Window.whole] using hw
  exact hopened.within

/-- The columns inside a struct were opened as its fields. -/
theorem exists_decodeAt_of_mem_struct {fields : List (String × LogicalType)} {w : Column}
    (h : decodeAt chunk config depth id count (.struct fields) = .ok c)
    (hw : w ∈ c.content.windows) :
    ∃ f ∈ fields, ∃ child, decodeAt chunk config (depth + 1) child count f.2 = .ok w := by
  obtain ⟨-, -, columns, hcolumns, hfields, rfl⟩ := decodeAt_struct_eq_ok_iff.1 h
  have hlen : columns.length ≤ (fields.map (·.1)).length := by simpa using hfields.length_eq.ge
  have hmem : w ∈ columns := by
    rwa [Window.whole, Layout.windows, List.map_snd_zip hlen] at hw
  obtain ⟨f, hf, child, -, hdecode⟩ := exists_mem_of_forall₂ hcolumns hmem
  exact ⟨f.1, (List.mem_zipIdx' hf).2 ▸ List.getElem_mem _, child, hdecode⟩

/-- Opening a struct whose fields are opened right. -/
theorem isOpened_of_decodeStruct {fields : List (String × LogicalType)}
    (h : decodeAt chunk config depth id count (.struct fields) = .ok c) (hok : ok count)
    (ih : ∀ f ∈ fields, ∀ {child col}, decodeAt chunk config (depth + 1) child count f.2 = .ok col →
      IsOpened ok count f.2 col) : IsOpened ok count (.struct fields) c := by
  have hinside : ∀ w ∈ c.content.windows, ∃ f ∈ fields, IsOpened ok count f.2 w := by
    intro w hw
    obtain ⟨f, hf, child, hdecode⟩ := exists_decodeAt_of_mem_struct h hw
    exact ⟨f, hf, ih f hf hdecode⟩
  obtain ⟨-, -, columns, -, hfields, rfl⟩ := decodeAt_struct_eq_ok_iff.1 h
  refine ⟨rfl, rfl, ?_, .intro ⟨?_, hok⟩ ?_⟩
  · exact congrArg LogicalType.struct (fieldTypes_zip (hfields.imp fun _ _ h ↦ h.2))
  · intro f hf
    obtain ⟨_, -, hcol⟩ := hinside f.2 (List.mem_map_of_mem hf)
    exact Nat.le_of_eq hcol.len_eq.symm
  · intro w hw
    obtain ⟨_, -, hcol⟩ := hinside w hw
    exact hcol.within

/-- Opening a vector gives a column of the rows and the type that were asked for, which lies within
its buffers at every level. -/
theorem isOpened_of_decodeAt (hcounts : chunk.Counts ok)
    (h : decodeAt chunk config depth id count t = .ok c) (hok : ok count) :
    c.IsOpened ok count t := by
  induction t using LogicalType.inductionOn generalizing depth id count c with
  | fixed kind =>
    obtain ⟨-, w, hw, rfl⟩ := decodeAt_fixed_eq_ok_iff.1 h
    exact isOpened_ofFixed hw hok
  | string kind =>
    obtain ⟨-, w, hw, rfl⟩ := decodeAt_string_eq_ok_iff.1 h
    obtain ⟨hstart, hlen, hwidth, -, hholds⟩ := Chunk.slots_spec hw
    exact .of_leaf hstart hlen rfl ⟨hwidth, hholds⟩ hok rfl
  | decimal type =>
    obtain ⟨-, width, w, hphysical, hw, rfl⟩ :=
      decodeDecimal_eq_ok_iff.1 (decodeAt_decimal_eq_ok_iff.1 h).2
    obtain ⟨hstart, hlen, hwidth, -, hholds⟩ := Chunk.slots_spec hw
    exact .of_leaf hstart hlen rfl ⟨hphysical, hwidth, hholds⟩ hok rfl
  | enumeration type =>
    obtain ⟨-, w, hw, rfl⟩ := decodeAt_enumeration_eq_ok_iff.1 h
    obtain ⟨hstart, hlen, hwidth, -, hholds⟩ := Chunk.slots_spec hw
    exact .of_leaf hstart hlen rfl ⟨rfl, hwidth, hholds⟩ hok rfl
  | list element ih =>
    exact isOpened_of_decodeList (decodeAt_list_eq_ok_iff.1 h).2 hcounts hok ih
  | struct fields ih =>
    exact isOpened_of_decodeStruct h hok fun f hf _ _ hf' ↦ ih f hf hf' hok
  | map key value ihKey ihValue =>
    rw [decodeAt_map, bind_eq_ok_iff] at h
    obtain ⟨entries, hentries, h⟩ := h
    have hlist := (decodeAt_list_eq_ok_iff.1 hentries).2
    -- The structs inside have no hypothesis of their own; those of the key and the value make one.
    have hopened := isOpened_of_decodeList hlist hcounts hok fun hstruct hok ↦
      isOpened_of_decodeStruct hstruct hok fun f hf _ _ hf' ↦ by
        rcases List.mem_pair.1 hf with rfl | rfl
        · exact ihKey hf' hok
        · exact ihValue hf' hok
    obtain ⟨w, _, _, elements, -, -, -, -, rfl, -⟩ := decodeList_eq_ok_iff.1 hlist
    obtain ⟨-, rfl⟩ := ofEntries_eq_ok_iff.1 h
    exact hopened.map
  | array element length ih =>
    exact isOpened_of_decodeArray (decodeAt_array_eq_ok_iff.1 h).2 hcounts hok ih
  | union alternatives ih =>
    rw [decodeAt_union, bind_eq_ok_iff] at h
    obtain ⟨members, hmembers, h⟩ := h
    -- The first field is the column of tags, and all others are alternatives.
    have hopened := isOpened_of_decodeStruct hmembers hok fun f hf _ _ hf' ↦ by
      rcases List.mem_cons.1 hf with rfl | hf
      · obtain ⟨-, w, hw, rfl⟩ := decodeAt_fixed_eq_ok_iff.1 hf'
        exact isOpened_ofFixed hw hok
      · exact ih f hf hf' hok
    obtain ⟨-, -, columns, -, -, rfl⟩ := decodeAt_struct_eq_ok_iff.1 hmembers
    obtain ⟨-, name, tags, rest, hfields, rfl⟩ := ofMembers_eq_ok_iff.1 h
    rw [hfields] at hopened
    exact hopened.union
  | other id => exact absurd h decodeAt_other_ne_ok

/-- Columns that are opened for the fields of a struct have the types and the rows that they should
have, so a struct is opened whenever all its fields are. -/
theorem decodeAt_struct_eq_ok_iff_forall₂ {fields : List (String × LogicalType)} :
    decodeAt chunk config depth id count (.struct fields) = .ok c ↔
      depth ≤ config.maxNestingDepth ∧ (chunk.validity id).covers count = true ∧ ∃ columns,
        List.Forall₂ (fun f col ↦ ∃ child, chunk.structChild id f.2 = .ok child ∧
          decodeAt chunk config (depth + 1) child count f.1.2 = .ok col) fields.zipIdx columns ∧
        c = .whole (.struct (chunk.validity id) ((fields.map (·.1)).zip columns)) count := by
  rw [decodeAt_struct_eq_ok_iff]
  refine and_congr_right fun _ ↦ and_congr_right fun _ ↦ exists_congr fun columns ↦
    and_congr_right fun hcolumns ↦ and_iff_right ?_
  rw [← List.zipIdx_map_fst 0 fields, List.forall₂_map_left_iff]
  refine hcolumns.imp fun f col hcol ↦ ?_
  obtain ⟨child, -, hdecode⟩ := hcol
  have hopened := isOpened_of_decodeAt chunk.counts_true hdecode trivial
  exact ⟨hopened.len_eq, hopened.type_eq⟩

/-! ### Levels -/

/-- Every field was opened, one level further down. -/
theorem exists_of_decodeStruct {fields : List (String × LogicalType)}
    (h : decodeAt chunk config depth id count (.struct fields) = .ok c) {f : String × LogicalType}
    (hf : f ∈ fields) : ∃ child col, decodeAt chunk config (depth + 1) child count f.2 = .ok col := by
  obtain ⟨-, -, columns, hcolumns, -⟩ := decodeAt_struct_eq_ok_iff.1 h
  obtain ⟨i, hi, rfl⟩ := List.mem_iff_getElem.1 hf
  have hmem : (fields[i], i) ∈ fields.zipIdx := by
    rw [List.mem_zipIdx_iff_getElem?]
    exact List.getElem?_eq_getElem hi
  obtain ⟨col, child, -, hcol⟩ := exists_forall₂_iff.1 ⟨columns, hcolumns⟩ _ hmem
  exact ⟨child, col, hcol⟩

/-- A struct is within the nesting limit when its fields are. -/
theorem depth_le_of_decodeStruct {fields : List (String × LogicalType)}
    (h : decodeAt chunk config depth id count (.struct fields) = .ok c)
    (ih : ∀ f ∈ fields, ∀ {id count c}, decodeAt chunk config (depth + 1) id count f.2 = .ok c →
      depth + 1 + f.2.depth ≤ config.maxNestingDepth + 1) :
    depth + (1 + LogicalType.maxDepth fields) ≤ config.maxNestingDepth + 1 := by
  -- Without fields, the level of the struct itself is all there is.
  have hdepth : depth ≤ config.maxNestingDepth := (decodeAt_struct_eq_ok_iff.1 h).1
  have hmax : LogicalType.maxDepth fields ≤ config.maxNestingDepth - depth := by
    refine LogicalType.maxDepth_le_iff.2 fun f hf ↦ ?_
    obtain ⟨child, col, hcol⟩ := exists_of_decodeStruct h hf
    have := ih f hf hcol
    omega
  omega

/-- No level of an opened type is beyond the nesting limit. -/
theorem depth_le_of_decodeAt (h : decodeAt chunk config depth id count t = .ok c) :
    depth + t.depth ≤ config.maxNestingDepth + 1 := by
  induction t using LogicalType.inductionOn generalizing depth id count c with
  | fixed kind => exact Nat.succ_le_succ (decodeAt_fixed_eq_ok_iff.1 h).1
  | string kind => exact Nat.succ_le_succ (decodeAt_string_eq_ok_iff.1 h).1
  | decimal type => exact Nat.succ_le_succ (decodeAt_decimal_eq_ok_iff.1 h).1
  | enumeration type => exact Nat.succ_le_succ (decodeAt_enumeration_eq_ok_iff.1 h).1
  | list element ih =>
    obtain ⟨-, _, _, _, -, -, helements, -⟩ :=
      decodeList_eq_ok_iff.1 (decodeAt_list_eq_ok_iff.1 h).2
    have := ih helements
    rw [LogicalType.depth]
    omega
  | struct fields ih =>
    rw [LogicalType.depth]
    exact depth_le_of_decodeStruct h fun f hf _ _ _ h ↦ ih f hf h
  | map key value ihKey ihValue =>
    rw [decodeAt_map, bind_eq_ok_iff] at h
    obtain ⟨entries, hentries, -⟩ := h
    obtain ⟨-, _, _, _, -, -, hstructs, -⟩ :=
      decodeList_eq_ok_iff.1 (decodeAt_list_eq_ok_iff.1 hentries).2
    -- A map takes a level for its pairs, below its own.
    have := depth_le_of_decodeStruct hstructs fun f hf _ _ _ hf' ↦ by
      rcases List.mem_pair.1 hf with rfl | rfl
      · exact ihKey hf'
      · exact ihValue hf'
    simp only [LogicalType.maxDepth, Nat.max_zero, LogicalType.mapEntry] at this
    rw [LogicalType.depth]
    omega
  | array element length ih =>
    obtain ⟨-, -, _, _, -, helements, -⟩ :=
      decodeArray_eq_ok_iff.1 (decodeAt_array_eq_ok_iff.1 h).2
    have := ih helements
    rw [LogicalType.depth]
    omega
  | union alternatives ih =>
    rw [decodeAt_union, bind_eq_ok_iff] at h
    obtain ⟨members, hmembers, -⟩ := h
    have := depth_le_of_decodeStruct hmembers fun f hf _ _ _ hf' ↦ by
      rcases List.mem_cons.1 hf with rfl | hf
      · exact Nat.succ_le_succ (decodeAt_fixed_eq_ok_iff.1 hf').1
      · exact ih f hf hf'
    have hle : LogicalType.maxDepth alternatives ≤
        LogicalType.maxDepth (LogicalType.unionMembers alternatives) := Nat.le_max_right _ _
    rw [LogicalType.depth]
    omega
  | other id => exact absurd h decodeAt_other_ne_ok

end Column

end Columnar
