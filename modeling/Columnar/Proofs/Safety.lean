import Columnar.Proofs.Blame

/-!
# Reading never breaks off

A value is *settled* (`Value.Settled`) if no row inside it, at any level, breaks off when it is read;
a row is settled (`Value.RowSettled`) if it is refused with an error to report, or holds a settled
value. The rows of a column within its buffers are settled (`Column.rowSettled_getItem`), by induction
on the layout: a valid row is read from buffers that hold it, and the rows of lists and arrays inside
are rows of columns within their buffers again. Showing them as JSON blames the bytes if it fails
(`Column.blamesData_rowToJson`), and so does not break off.

Opening a vector does not break off either (`Column.decodeAt_unbroken`), whatever the chunk: buffers
are measured before they are cut, and the columns a column is put together from have the types they
were opened with. Since no step leads out of the buffers, nothing that is done with an opened column
can break off.
-/

namespace Columnar

namespace Value

mutual

/-- No row inside the value breaks off when it is read, and the digits of a decimal and the bits of a
bit string are where its text is taken from. -/
def Settled : Value → Prop
  | .decimal d => d.scale.toNat < d.padded.length
  | .bit b => ∀ i < b.length, 1 + (i + b.padding.toNat) / 8 < b.bytes.length
  | .list _ _ row | .array _ _ row => ∀ i, RowSettled (row i)
  | .struct fields => FieldsSettled fields
  | .map pairs => PairsSettled pairs
  | .union _ value => value.Settled
  | _ => True

/-- Reading the row does not break off, and neither does reading any row inside its value. -/
def RowSettled : Except Failure Value → Prop
  | .ok value => value.Settled
  | .error failure => ∀ detail, failure ≠ .breach detail

/-- All fields have settled values. -/
def FieldsSettled : List (String × Value) → Prop
  | [] => True
  | (_, value) :: rest => value.Settled ∧ FieldsSettled rest

/-- All pairs are of settled values. -/
def PairsSettled : List (Value × Value) → Prop
  | [] => True
  | (key, value) :: rest => (key.Settled ∧ value.Settled) ∧ PairsSettled rest

end

theorem rowSettled_iff {row : Outcome Value} :
    RowSettled row ↔ row.Unbroken ∧ ∀ v, row = .ok v → v.Settled := by
  cases row <;> simp [RowSettled, Outcome.Unbroken]

theorem RowSettled.unbroken {row : Outcome Value} (h : RowSettled row) : row.Unbroken :=
  (rowSettled_iff.1 h).1

theorem settled_struct_iff {fields : List (String × Value)} :
    (Value.struct fields).Settled ↔ ∀ f ∈ fields, f.2.Settled := by
  rw [Settled]
  induction fields with
  | nil => simp [FieldsSettled]
  | cons f rest ih => rw [FieldsSettled, ih, List.forall_mem_cons]

theorem settled_map_iff {pairs : List (Value × Value)} :
    (Value.map pairs).Settled ↔ ∀ p ∈ pairs, p.1.Settled ∧ p.2.Settled := by
  rw [Settled]
  induction pairs with
  | nil => simp [PairsSettled]
  | cons p rest ih => rw [PairsSettled, ih, List.forall_mem_cons]

end Value

/-! ### Leaves -/

open Value (RowSettled rowSettled_iff)

theorem FixedKind.settled_decode (kind : FixedKind) (slot : List UInt8) :
    (kind.decode slot).Settled := by
  cases kind <;> simp [FixedKind.decode, Value.Settled]

theorem StringKind.rowSettled_decode (kind : StringKind) (row : Nat) (bytes : List UInt8) :
    RowSettled (kind.decode row bytes) := by
  rw [rowSettled_iff]
  cases kind with
  | varchar =>
    refine ⟨(Text.Utf8.blamesData_decode row bytes).unbroken.map _, fun v hv ↦ ?_⟩
    obtain ⟨s, -, rfl⟩ := map_eq_ok_iff.1 hv
    exact trivial
  | blob => exact ⟨Outcome.unbroken_ok _, fun v hv ↦ Except.ok.inj hv ▸ trivial⟩
  | bit =>
    refine ⟨(BitString.blamesData_ofBytes bytes).unbroken.map _, fun v hv ↦ ?_⟩
    obtain ⟨b, -, rfl⟩ := map_eq_ok_iff.1 hv
    exact fun i hi ↦ BitString.place_lt hi

theorem EnumType.rowSettled_decode (t : EnumType) (index : Nat) : RowSettled (t.decode index) := by
  rw [EnumType.decode]
  split
  · exact trivial
  · simp [Outcome.refuse, RowSettled]

/-! ### Rows -/

namespace Layout

theorem rowSettled_read_of_readValid {layout : Layout} {rows start len i : Nat}
    (h : layout.Holds rows) (hrows : start + len ≤ rows) (hi : i < len)
    (hvalid : RowSettled (layout.readValid start len i)) : RowSettled (layout.read start len i) := by
  rw [read_eq h hrows hi]
  split
  · exact hvalid
  · exact trivial

/-- A row of a column inside is settled if the valid rows of its layout are. -/
theorem rowSettled_get {w : Column} {offset count j : Nat} (h : w.content.Holds (w.start + w.len))
    (hle : offset + count ≤ w.len) (hj : j < count)
    (ih : ∀ {rows start len i : Nat}, w.content.Holds rows → start + len ≤ rows → i < len →
      RowSettled (w.content.readValid start len i)) :
    RowSettled (Column.get (w.narrow offset count) j) := by
  have hrows : w.start + offset + count ≤ w.start + w.len := by omega
  exact rowSettled_read_of_readValid h hrows hj (ih h hrows hj)

/-- Valid rows of a layout that holds them are settled. The induction is on the layout; what is inside
is asked about the rows of its own window. -/
theorem rowSettled_readValid {layout : Layout} {rows start len i : Nat} (h : layout.Holds rows)
    (hrows : start + len ≤ rows) (hi : i < len) : RowSettled (layout.readValid start len i) := by
  induction layout using Layout.inductionOn generalizing rows start len i with
  | fixed kind slots => exact kind.settled_decode _
  | string kind slots heap =>
    rw [readValid]
    split
    · exact trivial
    · exact kind.rowSettled_decode _ _
  | decimal type width slots => exact Decimal.scale_lt_length_padded _
  | enumeration type width slots => exact type.rowSettled_decode _
  | list slots child ih =>
    have hchild := h.inside (w := child) (by simp [windows])
    refine rowSettled_iff.2 ⟨?_, fun v hv ↦ ?_⟩
    · exact entryRange_unbroken.bind fun _ _ ↦ Outcome.unbroken_ok _
    · obtain ⟨⟨offset, count⟩, hr, hv⟩ := bind_eq_ok_iff.1 hv
      obtain rfl := Except.ok.inj hv
      exact fun j ↦ rowSettled_get hchild (entryRange_eq_ok_iff.1 hr).2 j.isLt ih
  | struct words fields ih =>
    have hfields : ∀ f ∈ fields, RowSettled (Column.get (f.2.narrow start len) i) := by
      intro f hf
      have hle : rows ≤ f.2.len := h.here f hf
      have hfield := h.inside (w := f.2) (List.mem_map_of_mem hf)
      exact rowSettled_get hfield (Nat.le_trans hrows hle) hi (ih f hf)
    refine rowSettled_iff.2 ⟨?_, fun v hv ↦ ?_⟩
    · exact (Outcome.Unbroken.mapM fun f hf ↦ (hfields f hf).unbroken.map _).map _
    · obtain ⟨values, hvalues, rfl⟩ := map_eq_ok_iff.1 hv
      refine Value.settled_struct_iff.2 fun value hvalue ↦ ?_
      obtain ⟨f, hf, hget⟩ := exists_mem_of_forall₂ (mapM_eq_ok_iff.1 hvalues) hvalue
      obtain ⟨w, hw, rfl⟩ := map_eq_ok_iff.1 hget
      exact (rowSettled_iff.1 (hfields f hf)).2 w hw
  | map key value slots child ih =>
    have hchild := h.inside (w := child) (by simp [windows])
    have hentry : ∀ {offset count}, offset + count ≤ child.len → ∀ j : Fin count,
        RowSettled (Column.get (child.narrow offset count) j) :=
      fun hle j ↦ rowSettled_get hchild hle j.isLt ih
    refine rowSettled_iff.2 ⟨?_, fun v hv ↦ ?_⟩
    · refine entryRange_unbroken.bind fun r hr ↦ (Outcome.Unbroken.collect fun j ↦ ?_).map _
      obtain ⟨offset, count⟩ := r
      have hle := (entryRange_eq_ok_iff.1 hr).2
      exact (hentry hle j).unbroken.bind fun _ _ ↦
        (blamesData_pairOf _ _ _).unbroken
    · obtain ⟨⟨offset, count⟩, hr, hv⟩ := bind_eq_ok_iff.1 hv
      obtain ⟨pairs, hpairs, rfl⟩ := map_eq_ok_iff.1 hv
      obtain ⟨hlen, hpairs⟩ := Outcome.collect_eq_ok_iff.1 hpairs
      refine Value.settled_map_iff.2 fun p hp ↦ ?_
      obtain ⟨j, hj, rfl⟩ := List.mem_iff_getElem.1 hp
      -- The pair is what the struct in this entry holds, and that struct is settled.
      obtain ⟨entry, hget, hpair⟩ := bind_eq_ok_iff.1 (hpairs ⟨j, hlen ▸ hj⟩)
      obtain ⟨_, _, rfl⟩ := pairOf_eq_ok_iff.1 hpair
      have hsettled := (rowSettled_iff.1 (hentry (entryRange_eq_ok_iff.1 hr).2 _)).2 _ hget
      exact ⟨hsettled.1, hsettled.2.1⟩
  | array length words child ih =>
    have hchild := h.inside (w := child) (by simp [windows])
    have hle := array_row_le h.here (show start + i < rows by omega)
    exact fun j ↦ rowSettled_get hchild hle j.isLt ih
  | union words tags alternatives ih =>
    dsimp only [readValid]
    split
    · -- A tag without an alternative is an error of the data, and not a break.
      simp [Outcome.refuse, RowSettled]
    next a ha =>
      have hmem : a ∈ alternatives := List.mem_of_getElem? ha
      have hle : rows ≤ a.2.len := h.here.2 a hmem
      have hinside := h.inside (w := a.2) (List.mem_cons_of_mem _ (List.mem_map_of_mem hmem))
      have hget := rowSettled_get hinside (Nat.le_trans hrows hle) hi (ih a hmem)
      refine rowSettled_iff.2 ⟨hget.unbroken.map _, fun v hv ↦ ?_⟩
      obtain ⟨w, hw, rfl⟩ := map_eq_ok_iff.1 hv
      exact (rowSettled_iff.1 hget).2 w hw

/-- Rows of a layout that holds them are settled. -/
theorem rowSettled_read {layout : Layout} {rows start len i : Nat} (h : layout.Holds rows)
    (hrows : start + len ≤ rows) (hi : i < len) : RowSettled (layout.read start len i) :=
  rowSettled_read_of_readValid h hrows hi (rowSettled_readValid h hrows hi)

end Layout

namespace Column

variable {chunk : Chunk} {config : DecodeConfig} {ok : Nat → Prop} {depth id count : Nat}
  {t : LogicalType} {c : Column}

/-- Every row of a column within its buffers is settled, and a row past its end is refused. -/
theorem rowSettled_getItem (h : c.Within ok) (i : Nat) : RowSettled (c.getItem i) := by
  rcases Nat.lt_or_ge i c.len with hi | hi
  · rw [getItem_of_lt hi]
    exact Layout.rowSettled_read h.holds (Nat.le_refl _) hi
  · rw [getItem_of_le hi]
    simp [Outcome.refuse, RowSettled]

/-- A row in range is read and shown without breaking off, and a row past the end is not read. -/
theorem rowToJson_unbroken [Uuid.Library] (h : c.Within ok) (i : Nat) : (c.rowToJson i).Unbroken := by
  rcases Nat.lt_or_ge i c.len with hi | hi
  · exact (blamesData_rowToJson h hi).unbroken
  · rw [rowToJson, getItem_of_le hi]
    exact Outcome.unbroken_refuse _

theorem toJson_unbroken [Uuid.Library] (h : c.Within ok) : c.toJson.Unbroken :=
  (blamesData_toJson h).unbroken

/-! ### Opening -/

theorem checkFields_unbroken {len : Nat} {fields : List (String × LogicalType)}
    {columns : List Column} : (checkFields len fields columns).Unbroken := by
  induction fields generalizing columns with
  | nil => exact Outcome.unbroken_ok _
  | cons f fields ih =>
    obtain _ | ⟨col, columns⟩ := columns
    · exact Outcome.unbroken_ok _
    · refine (Outcome.unbroken_require _ _).bind fun _ _ ↦ ?_
      exact (Outcome.unbroken_require _ _).bind fun _ _ ↦ ih

theorem ofFields_unbroken {fields : List (String × LogicalType)} {words : Bitmap} {len : Nat}
    {columns : List Column} : (ofFields fields words len columns).Unbroken := by
  refine (Outcome.unbroken_require _ _).bind fun _ _ ↦ ?_
  exact checkFields_unbroken.bind fun _ _ ↦ Outcome.unbroken_ok _

theorem ofEntries_unbroken {key value : LogicalType} {entries : Column} :
    (ofEntries key value entries).Unbroken := by
  rw [ofEntries]
  split
  · exact (Outcome.unbroken_require _ _).bind fun _ _ ↦ Outcome.unbroken_ok _
  · exact Outcome.unbroken_refuse _

/-- Members that passed the check of their types do have a field for the tags. -/
theorem ofMembers_unbroken {alternatives : List (String × LogicalType)} {members : Column} :
    (ofMembers alternatives members).Unbroken := by
  rw [ofMembers]
  split
  next words fields _ =>
    refine (Outcome.unbroken_require _ _).bind fun _ hcheck ↦ ?_
    split
    · exact Outcome.unbroken_ok _
    · exact Outcome.unbroken_refuse _
    · -- Without a field, there would be no tags among the types that were compared.
      simp [Layout.fieldTypes, LogicalType.unionMembers, Outcome.refuse] at hcheck
  · exact Outcome.unbroken_refuse _

theorem decodeStruct_unbroken {fields : List (String × LogicalType)}
    {decoders : List (Nat → Outcome Column)} (h : ∀ d ∈ decoders, ∀ child, (d child).Unbroken) :
    (decodeStruct chunk id count fields decoders).Unbroken := by
  refine Chunk.bitmap_unbroken.bind fun words _ ↦ Outcome.Unbroken.bind ?_ fun _ _ ↦ ofFields_unbroken
  rw [decodeChildren_eq_mapM]
  refine Outcome.Unbroken.mapM fun d hd ↦ Chunk.structChild_unbroken.bind fun child _ ↦ ?_
  exact h d.1 ((List.mem_zipIdx' hd).2 ▸ List.getElem_mem _) child

/-- The entries of lists are looked for in slots that were cut to have them. -/
theorem validateEntries_unbroken {slots : Slots} {child : Column} {len : Nat}
    (h : slots.Holds len) : (validateEntries ⟨.list slots child, 0, len⟩).Unbroken := by
  refine Outcome.Unbroken.forM fun i hi ↦ ?_
  have hlt : i < len := List.mem_range.1 hi
  rw [Layout.listRange_bind_of_holds h (by simp) hlt]
  split
  · exact Layout.entryRange_unbroken.bind fun _ _ ↦ Outcome.unbroken_ok _
  · exact Outcome.unbroken_ok _

theorem decodeList_unbroken {element : LogicalType} {decoder : Nat → Nat → Outcome Column}
    (h : ∀ child childCount, (decoder child childCount).Unbroken) :
    (decodeList chunk config id count element decoder).Unbroken := by
  refine Chunk.slots_unbroken.bind fun w hw ↦ Chunk.listChild_unbroken.bind fun child _ ↦ ?_
  refine (h _ _).bind fun elements _ ↦ Outcome.Unbroken.bind (Outcome.unbroken_require _ _ |>.bind
    fun _ _ ↦ Outcome.unbroken_ok _) fun list hlist ↦ ?_
  obtain ⟨-, rfl⟩ := ofList_eq_ok_iff.1 hlist
  obtain ⟨hstart, hlen, -, -, hholds⟩ := Chunk.slots_spec hw
  rw [hstart, hlen]
  split
  · exact (validateEntries_unbroken hholds).bind fun _ _ ↦ Outcome.unbroken_ok _
  · exact Outcome.unbroken_ok _

theorem decodeArray_unbroken {element : LogicalType} {length : UInt64}
    {decoder : Nat → Nat → Outcome Column} (h : ∀ child childCount, (decoder child childCount).Unbroken) :
    (decodeArray chunk id count element length decoder).Unbroken := by
  refine Chunk.bitmap_unbroken.bind fun _ _ ↦ (Outcome.unbroken_require _ _).bind fun _ _ ↦ ?_
  refine Chunk.arrayChild_unbroken.bind fun child _ ↦ (h _ _).bind fun elements _ ↦ ?_
  refine (Outcome.unbroken_require _ _).bind fun _ _ ↦ ?_
  exact (Outcome.unbroken_require _ _).bind fun _ _ ↦ Outcome.unbroken_ok _

theorem decodeDecimal_unbroken {t : DecimalType} : (decodeDecimal chunk id count t).Unbroken := by
  refine (Outcome.unbroken_require _ _).bind fun _ _ ↦ ?_
  split
  · exact Outcome.unbroken_refuse _
  · exact Chunk.slots_unbroken.bind fun _ _ ↦ Outcome.unbroken_ok _

/-- Opening a struct does not break off if opening its fields does not. -/
theorem decodeAt_struct_unbroken {fields : List (String × LogicalType)}
    (h : ∀ f ∈ fields, ∀ child, (decodeAt chunk config (depth + 1) child count f.2).Unbroken) :
    (decodeAt chunk config depth id count (.struct fields)).Unbroken := by
  rw [decodeAt]
  refine checkDepth_unbroken.bind fun _ _ ↦ decodeStruct_unbroken fun d hd child ↦ ?_
  rw [fieldDecoders_eq_map, List.mem_map] at hd
  obtain ⟨f, hf, rfl⟩ := hd
  exact h f hf child

/-- Opening a vector does not break off, whatever the chunk holds. -/
theorem decodeAt_unbroken : (decodeAt chunk config depth id count t).Unbroken := by
  induction t using LogicalType.inductionOn generalizing depth id count with
  | fixed kind =>
    rw [decodeAt]
    exact checkDepth_unbroken.bind fun _ _ ↦ Chunk.slots_unbroken.bind fun _ _ ↦ Outcome.unbroken_ok _
  | string kind =>
    rw [decodeAt]
    exact checkDepth_unbroken.bind fun _ _ ↦ Chunk.slots_unbroken.bind fun _ _ ↦ Outcome.unbroken_ok _
  | decimal type =>
    rw [decodeAt]
    exact checkDepth_unbroken.bind fun _ _ ↦ decodeDecimal_unbroken
  | enumeration type =>
    rw [decodeAt]
    exact checkDepth_unbroken.bind fun _ _ ↦ Chunk.slots_unbroken.bind fun _ _ ↦ Outcome.unbroken_ok _
  | list element ih =>
    rw [decodeAt]
    exact checkDepth_unbroken.bind fun _ _ ↦ decodeList_unbroken fun _ _ ↦ ih
  | struct fields ih => exact decodeAt_struct_unbroken fun f hf _ ↦ ih f hf
  | map key value ihKey ihValue =>
    rw [decodeAt_map, decodeAt]
    refine Outcome.Unbroken.bind ?_ fun _ _ ↦ ofEntries_unbroken
    refine checkDepth_unbroken.bind fun _ _ ↦ decodeList_unbroken fun _ _ ↦ ?_
    refine decodeAt_struct_unbroken fun f hf _ ↦ ?_
    rcases List.mem_pair.1 hf with rfl | rfl
    · exact ihKey
    · exact ihValue
  | array element length ih =>
    rw [decodeAt]
    exact checkDepth_unbroken.bind fun _ _ ↦ decodeArray_unbroken fun _ _ ↦ ih
  | union alternatives ih =>
    rw [decodeAt_union]
    refine Outcome.Unbroken.bind (decodeAt_struct_unbroken fun f hf child ↦ ?_) fun _ _ ↦
      ofMembers_unbroken
    rcases List.mem_cons.1 hf with rfl | hf
    · rw [decodeAt]
      exact checkDepth_unbroken.bind fun _ _ ↦ Chunk.slots_unbroken.bind fun _ _ ↦
        Outcome.unbroken_ok _
    · exact ih f hf
  | other id =>
    rw [decodeAt]
    exact checkDepth_unbroken.bind fun _ _ ↦ Outcome.unbroken_refuse _

/-! ### Everything that is done with an opened column -/

/-- Whatever the chunk, opening a vector does not break off, and neither does anything that is done
with a column within reach of the opened one: reading a row, be it in range or not, showing it or
all rows as JSON, and going on to further columns. No number that is computed on the way to a row is
beyond a machine word, and no byte that is cut out for it is beyond its buffer. -/
theorem unbroken_of_reaches [Uuid.Library] (chunk : Chunk) (config : DecodeConfig) (id count : Nat)
    (t : LogicalType) (hchildren : ∀ v ∈ chunk.vectors, v.childCount < Chunk.sizeLimit)
    (hcount : count < Chunk.sizeLimit) :
    (decode chunk config id count t).Unbroken ∧
      ∀ c d, decode chunk config id count t = .ok c → c.Reaches d →
        (∀ i, RowSettled (d.getItem i) ∧ (d.rowToJson i).Unbroken) ∧ d.toJson.Unbroken ∧
        (∀ a : Access, a.InRange d → (d.access a).Unbroken) ∧
        ∀ i < d.len, d.content.Counted (d.start + i) ∧ d.content.Supplies (d.start + i) := by
  refine ⟨decodeAt_unbroken, fun c d hc hd ↦ ?_⟩
  -- What is opened first has numbers of rows that are machine words, and steps only lower them.
  have hcounts : chunk.Counts (· < Chunk.sizeLimit) :=
    ⟨fun _ h ↦ h, fun hv ↦ hchildren _ (Array.mem_of_getElem? hv)⟩
  have hopened : c.Within (· < Chunk.sizeLimit) := (isOpened_of_decodeAt hcounts hc hcount).within
  have hwithin : d.Within (· < Chunk.sizeLimit) :=
    hopened.reaches (fun hn hle ↦ Nat.lt_of_le_of_lt hle hn) hd
  exact ⟨fun i ↦ ⟨rowSettled_getItem hwithin i, rowToJson_unbroken hwithin i⟩,
    toJson_unbroken hwithin, fun a ha ↦ access_unbroken hwithin ha,
    fun i hi ↦ ⟨hwithin.counted hi, hwithin.holds.supplies (Nat.add_lt_add_left hi _)⟩⟩

/-- One list of two bytes in a chunk that says that the list has many more of them. -/
def longEntry : Chunk where
  vectors := #[
    { type := .list (.fixed (.integer .tinyInt))
      data := (LittleEndian.ofNat 8 1 ++ LittleEndian.ofNat 8 (Chunk.sizeLimit - 1)).toArray
      children := [1]
      childCount := 2 },
    { type := .fixed (.integer .tinyInt), data := #[7, 9] }]

/-- The list is opened, and reading it is refused without breaking off. -/
theorem longEntry_unbroken :
    (∀ v ∈ longEntry.vectors, v.childCount < Chunk.sizeLimit) ∧ 1 < Chunk.sizeLimit ∧
      ∃ c, decode longEntry {} 0 1 (.list (.fixed (.integer .tinyInt))) = .ok c ∧
        c.getItem 0 = Outcome.refuse (.data .listEntry) ∧ c.toJson.Unbroken := by
  have hchildren : ∀ v ∈ longEntry.vectors, v.childCount < Chunk.sizeLimit := by decide
  have hcount : 1 < Chunk.sizeLimit := by decide
  obtain ⟨c, hc, hget⟩ : ∃ c, decode longEntry {} 0 1 (.list (.fixed (.integer .tinyInt))) = .ok c ∧
      c.getItem 0 = Outcome.refuse (.data .listEntry) := ⟨_, rfl, rfl⟩
  have hreads := (unbroken_of_reaches longEntry {} 0 1 _ hchildren hcount).2 c c hc .refl
  exact ⟨hchildren, hcount, c, hc, hget, hreads.2.1⟩

end Column

end Columnar
