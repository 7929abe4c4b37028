import Columnar.Proofs.Arena
import Columnar.Proofs.Encoded
import Columnar.View

/-!
# Decoding undoes encoding

A chunk that was built column by column from literals that fit their types is accepted by a view, and
every row of every column is the value of its literal (`Builder.exists_view_of_build`). Adding a
column keeps the columns before it (`Builder.HasColumns`), and by induction all of them are there in
the end.

Two things stand between the literals and their values that are not in the literals: the limits of
the view, which have to be valid and high enough, and memory, which has to be there for every buffer
and to give payloads addresses of 64 bits at which they have no byte in common. Of the allocator that
is there if no other one is given, the latter is proved and not asked for.
-/

namespace Columnar

/-- The column can be encoded with `rows` rows: there are columns of its type, its literals fit, and
there is memory for them. -/
structure ColumnLiteral.Encodable (booleanWidth padding rows : Nat) (column : ColumnLiteral) :
    Prop where
  length_eq : column.2.length = rows
  storable : column.1.Storable
  accepts : ∀ l ∈ column.2, column.1.Accepts l
  affordable : column.1.Affordable booleanWidth padding column.2

namespace Builder

/-- No column and no payload has been added. -/
structure Fresh (b : Builder) : Prop where
  columns_eq : b.columns = []
  rowCount_eq : b.rowCount? = none
  heap_eq : b.heap = #[]

/-- The columns of the builder keep the literals of the given ones, which all have `rows` rows. -/
structure HasColumns (b : Builder) (rows : Nat) (columns : List ColumnLiteral) : Prop where
  rowCount_eq : b.rowCount? = columns.head?.map fun _ ↦ rows
  keeps : List.Forall₂ (fun column id ↦ b.Keeps (column.1.depth + 1) column.1 column.2 id) columns
    b.columns

/-- An empty chunk is fresh, whatever the width of its booleans and the padding of its lists. -/
theorem exists_fresh {booleanWidth : Nat} (h : 0 < booleanWidth) (listPadding : Nat) :
    ∃ b, empty? booleanWidth listPadding = some b ∧ b.Fresh ∧ b.booleanWidth = booleanWidth ∧
      b.listPadding = listPadding :=
  ⟨_, dif_pos h, ⟨rfl, rfl, rfl⟩, rfl, rfl⟩

theorem Fresh.hasColumns {b : Builder} (h : b.Fresh) (rows : Nat) : b.HasColumns rows [] where
  rowCount_eq := h.rowCount_eq
  keeps := by rw [h.columns_eq]; exact .nil

/-- Payloads that are put behind the last one have no byte in common. -/
theorem Precedes.apart_of_behindLast {b b' : Builder} (h : b.Precedes b') (hb : b.Fresh)
    (hplace : b.place = Heap.behindLast) : b'.heap.Apart := by
  have hplaced := h.placed
  rw [addressIn, hplace] at hplaced
  have hlaid : b.heap.Laid := by rw [Heap.Laid, hb.heap_eq]; exact .nil
  exact (hplaced.laid hlaid).apart

end Builder

namespace Encoder

variable {b : Builder} {rows : Nat} {columns : List ColumnLiteral}

/-- Adding a column keeps the columns before it. -/
theorem run_addColumn {column : ColumnLiteral} (h : b.HasColumns rows columns)
    (hcolumn : column.Encodable b.booleanWidth b.listPadding rows) :
    ∃ b', (addColumn column.1 column.2).run b = (.ok (), b') ∧
      b'.HasColumns rows (columns ++ [column]) ∧ b'.booleanWidth = b.booleanWidth ∧
        b'.listPadding = b.listPadding := by
  have hcount : b.rowCount? = none ∨ b.rowCount? = some column.2.length := by
    rw [h.rowCount_eq, hcolumn.length_eq]
    cases columns with
    | nil => exact .inl rfl
    | cons first rest => exact .inr rfl
  let counted : Builder := { b with rowCount? := some column.2.length }
  obtain ⟨id, b', hrun, hgrows, hkeeps⟩ := keepsAll column.1 (b := counted) hcolumn.storable
    hcolumn.accepts hcolumn.affordable
  let added : Builder := { b' with columns := b'.columns ++ [id] }
  have hadd : (addColumn column.1 column.2).run b = (.ok (), added) := by
    have hexpect : (expectRows column.2.length).run b = (.ok (), counted) :=
      run_expectRows_eq_ok_iff.2 ⟨hcount, rfl⟩
    rw [addColumn, run_bind hexpect, run_bind (run_adapt_eq_ok_iff.2 hrun)]
    rfl
  -- Which columns there are, and how many rows, is nothing that a vector depends on.
  have hlater : ∀ chunk : Chunk, chunk.Extends added → chunk.Extends b' :=
    fun _ hc ↦ ⟨hc.vectors, hc.heap, hc.apart, hc.addressable, hc.booleanWidth_eq⟩
  have hearlier : ∀ chunk : Chunk, chunk.Extends counted → chunk.Extends b :=
    fun _ hc ↦ ⟨hc.vectors, hc.heap, hc.apart, hc.addressable, hc.booleanWidth_eq⟩
  refine ⟨added, hadd, ⟨?_, ?_⟩, hgrows.booleanWidth_eq, hgrows.listPadding_eq⟩
  · show b'.rowCount? = _
    rw [hgrows.rowCount_eq]
    show some column.2.length = _
    rw [hcolumn.length_eq]
    cases columns <;> rfl
  · show List.Forall₂ _ _ (b'.columns ++ [id])
    rw [hgrows.columns_eq]
    refine List.rel_append ?_ (.cons ?_ .nil)
    · refine h.keeps.imp fun _ _ hold ↦ ?_
      exact hold.of_extends hgrows.vectors fun _ hc ↦ hearlier _ ((hlater _ hc).of_grows hgrows)
    · exact hkeeps.of_extends (fun _ _ hv ↦ hv) hlater

/-- Adding columns one after the other adds them all. -/
theorem run_addColumns {rest : List ColumnLiteral} (h : b.HasColumns rows columns)
    (hrest : ∀ column ∈ rest, column.Encodable b.booleanWidth b.listPadding rows) :
    ∃ b', (rest.forM fun column ↦ addColumn column.1 column.2).run b = (.ok (), b') ∧
      b'.HasColumns rows (columns ++ rest) := by
  induction rest generalizing b columns with
  | nil => exact ⟨b, rfl, by rwa [List.append_nil]⟩
  | cons column rest ih =>
    obtain ⟨hcolumn, hrest⟩ := List.forall_mem_cons.1 hrest
    obtain ⟨b₁, hrun, hcolumns, hwidth, hpadding⟩ := run_addColumn h hcolumn
    obtain ⟨b₂, hrun', hall⟩ := ih hcolumns (by rwa [hwidth, hpadding])
    refine ⟨b₂, ?_, by rwa [List.append_cons]⟩
    rw [List.forM_eq_forM, List.forM_cons, run_bind hrun]
    exact hrun'

/-- Adding columns, successfully or not, leaves everything before them in place. -/
theorem precedes_addColumns (columns : List ColumnLiteral) :
    Preserves Builder.Precedes (columns.forM fun column ↦ addColumn column.1 column.2) := by
  induction columns with
  | nil => exact preserves_pure ()
  | cons column rest ih =>
    rw [List.forM_eq_forM, List.forM_cons]
    exact (precedes_addColumn column.1 column.2).bind fun _ ↦ ih

end Encoder

/-! ### Views -/

namespace View

/-- A column of a view is opened if its vector can be, with the type that is reported for it. -/
theorem column_eq {view : View} {index id : Nat} {v : RawVector}
    (hid : view.chunk.columns[index]? = some id) (hv : view.chunk.vectors[id]? = some v) :
    view.column index = Column.decode view.chunk view.config id view.rowCount v.type := by
  obtain ⟨hlt, -⟩ := List.getElem?_eq_some_iff.1 hid
  have hindex : Outcome.require (index < view.columnCount) (.argument .columnIndex) = .ok () :=
    Outcome.require_eq_ok_iff.2 (decide_eq_true hlt)
  have htype : view.chunk.logicalType id = .ok v.type := by
    rw [Chunk.logicalType, Chunk.vector_eq_ok_iff.2 hv]
    rfl
  rw [column, columnVector, hindex, ok_bind, Chunk.column, hid, ok_bind, Column.decodeReported, htype,
    ok_bind]

/-- A valid configuration that allows for the rows admits the chunk. -/
theorem ofChunk_eq_ok {chunk : Chunk} {config : DecodeConfig} (hconfig : config.validate = .ok ())
    (hrows : chunk.rowCount ≤ config.vectorSize) : ofChunk chunk config = .ok ⟨chunk, config⟩ := by
  rw [ofChunk, hconfig, ok_bind, Outcome.require_eq_ok_iff.2 (decide_eq_true hrows), ok_bind]
  rfl

end View

/-! ### Chunks that are built and opened -/

namespace Builder

/-- A view of a chunk reads the literals that were written, if its limits are valid and high enough and
the payloads of the chunk lie apart, at addresses of 64 bits. -/
theorem HasColumns.exists_view {b : Builder} {rows : Nat} {columns : List ColumnLiteral}
    (h : b.HasColumns rows columns) (hrows : ∀ column ∈ columns, column.2.length = rows)
    {config : DecodeConfig} (hapart : b.heap.Apart) (haddress : b.heap.Addressable)
    (hconfig : config.validate = .ok ()) (hsize : rows ≤ config.vectorSize)
    (hdepth : ∀ column ∈ columns, column.1.depth < config.maxNestingDepth) :
    ∃ view, View.ofChunk b.toChunk config = .ok view ∧ view.columnCount = columns.length ∧
      ∀ index t values, columns[index]? = some (t, values) →
        ∃ c, view.column index = .ok c ∧ view.rowCount = rows ∧ c.len = rows ∧ c.type = t ∧
          ∀ i l, values[i]? = some l → c.getItem i = .ok (t.valueOf l) := by
  have hextends : b.toChunk.Extends b :=
    ⟨fun _ _ hv ↦ hv, fun _ hp ↦ hp, hapart, haddress, rfl⟩
  -- A chunk without columns has no rows, whatever `rows` is.
  have hcount : b.toChunk.rowCount = (columns.head?.map fun _ ↦ rows).getD 0 := by
    rw [← h.rowCount_eq]
    rfl
  have hle : b.toChunk.rowCount ≤ config.vectorSize := by
    rw [hcount]
    cases columns with
    | nil => exact Nat.zero_le _
    | cons first rest => exact hsize
  refine ⟨⟨b.toChunk, config⟩, View.ofChunk_eq_ok hconfig hle, h.keeps.length_eq.symm, ?_⟩
  intro index t values hindex
  obtain ⟨hlt, hcolumn⟩ := List.getElem?_eq_some_iff.1 hindex
  have hmem : (t, values) ∈ columns := List.mem_of_getElem? hindex
  have hrowCount : b.toChunk.rowCount = rows := by
    rw [hcount]
    cases columns with
    | nil => simp at hlt
    | cons first rest => rfl
  obtain ⟨hlength, hget⟩ := List.forall₂_iff_get.1 h.keeps
  have hid : index < b.columns.length := hlength ▸ hlt
  have hkeeps : b.Keeps (t.depth + 1) t values b.columns[index] := by
    have := hget index hlt hid
    rwa [List.get_eq_getElem, hcolumn] at this
  -- Opening starts on the first level, so one level more than the type has must be allowed.
  have hlevels : 1 + (t.depth + 1) ≤ config.maxNestingDepth + 1 := by
    have hlt : t.depth < config.maxNestingDepth := hdepth _ hmem
    omega
  have hread : b.toChunk.ReadsBack config 1 b.columns[index] t values :=
    hkeeps.readsBack hextends hlevels
  obtain ⟨v, hv, htype⟩ := hkeeps.type_eq
  obtain ⟨c, hc, hvalues⟩ := hread
  have hopened := Column.isOpened_of_decodeAt b.toChunk.counts_true hc trivial
  rw [hrows _ hmem] at hc hopened
  refine ⟨c, ?_, hrowCount, hopened.len_eq, hopened.type_eq, hvalues⟩
  rw [View.column_eq (List.getElem?_eq_getElem hid) hv, htype]
  show Column.decodeAt b.toChunk config 1 b.columns[index] b.toChunk.rowCount t = .ok c
  rw [hrowCount, hc]

/-- Columns of literals that fit their types are all there when they have been added. Wherever the
allocator puts payloads, they lie apart if it puts each one behind the last. -/
theorem exists_hasColumns_of_build {b : Builder} (hb : b.Fresh) {rows : Nat}
    {columns : List ColumnLiteral}
    (hcolumns : ∀ column ∈ columns, column.Encodable b.booleanWidth b.listPadding rows) :
    ∃ b' : Builder, b.build (columns.forM fun column ↦ Encoder.addColumn column.1 column.2) =
        .ok b'.toChunk ∧
      b'.HasColumns rows columns ∧ (b.place = Heap.behindLast → b'.heap.Apart) := by
  obtain ⟨b', hrun, hall⟩ := Encoder.run_addColumns (hb.hasColumns rows) hcolumns
  rw [List.nil_append] at hall
  have hb' : b.Precedes b' := (Encoder.precedes_addColumns columns).of_run hrun
  exact ⟨b', by rw [build, hrun], hall, hb'.apart_of_behindLast hb⟩

/-- Decoding undoes encoding. Columns of literals that fit their types make a chunk, which a view
accepts under any valid configuration that allows for its rows and for one level more than its types
have. Every column can be opened, with its type and as many rows as there are literals, and every row
has the value of its literal. Wherever the allocator puts the payloads of the chunk, they have to lie
at addresses of 64 bits and apart, as they do if each is put behind the last one. -/
theorem exists_view_of_build {b : Builder} (hb : b.Fresh) {rows : Nat} {columns : List ColumnLiteral}
    (hcolumns : ∀ column ∈ columns, column.Encodable b.booleanWidth b.listPadding rows) :
    ∃ chunk, b.build (columns.forM fun column ↦ Encoder.addColumn column.1 column.2) = .ok chunk ∧
      (b.place = Heap.behindLast → chunk.heap.Apart) ∧
      ∀ config : DecodeConfig, chunk.heap.Apart → chunk.heap.Addressable → config.validate = .ok () →
        rows ≤ config.vectorSize → (∀ column ∈ columns, column.1.depth < config.maxNestingDepth) →
        ∃ view, View.ofChunk chunk config = .ok view ∧ view.columnCount = columns.length ∧
          ∀ index t values, columns[index]? = some (t, values) →
            ∃ c, view.column index = .ok c ∧ view.rowCount = rows ∧ c.len = rows ∧ c.type = t ∧
              ∀ i l, values[i]? = some l → c.getItem i = .ok (t.valueOf l) := by
  obtain ⟨b', hbuild, hall, hapart⟩ := exists_hasColumns_of_build hb hcolumns
  refine ⟨b'.toChunk, hbuild, hapart, fun config hapart haddress hconfig hsize hdepth ↦ ?_⟩
  have hrows := fun column hcolumn ↦ (hcolumns column hcolumn).length_eq
  exact hall.exists_view hrows hapart haddress hconfig hsize hdepth

/-- Booleans of two bytes, and one unused row behind the elements of lists. -/
def padded : Builder := { booleanWidth := 2, listPadding := 1, booleanWidth_pos := by decide }

/-- Two rows of lists of blobs, of which one is on the heap, next to two rows of unions. -/
def listsAndUnions : List ColumnLiteral := [
  (.list (.string .blob), [.list [.blob (List.replicate 20 7), .null, .blob [1]], .null]),
  (.union [("number", LogicalType.tagType), ("flag", .fixed .boolean)],
    [.null, .union 1 (.boolean true)])]

theorem encodable_listsAndUnions :
    ∀ column ∈ listsAndUnions, column.Encodable padded.booleanWidth padded.listPadding 2 := by
  intro column hcolumn
  rcases List.mem_pair.1 hcolumn with rfl | rfl
  · refine ⟨rfl, trivial, fun l hl ↦ ?_, by decide, by decide, trivial⟩
    rcases List.mem_pair.1 hl with rfl | rfl
    · refine LogicalType.accepts_list_iff.2 (.inr ⟨_, rfl, ?_⟩)
      simp only [List.forall_mem_cons, List.not_mem_nil, false_implies, implies_true, and_true]
      have hlong : (List.replicate 20 (7 : UInt8)).length < UInt32.size := by decide
      have hshort : [(1 : UInt8)].length < UInt32.size := by decide
      exact ⟨.inr hlong, .inl rfl, .inr hshort⟩
    · exact LogicalType.accepts_null _
  · refine ⟨rfl, ⟨trivial, trivial, trivial⟩, fun l hl ↦ ?_, by decide, ⟨by decide, trivial⟩,
      ⟨by decide, by decide⟩, trivial⟩
    rcases List.mem_pair.1 hl with rfl | rfl
    · exact LogicalType.accepts_null _
    · exact LogicalType.accepts_union_iff.2 (.inr ⟨1, _, _, rfl, rfl, .inr trivial⟩)

instance (heap : Heap) : Decidable heap.Addressable :=
  inferInstanceAs (Decidable (∀ p ∈ heap, p.address + p.bytes.size ≤ UInt64.size))

theorem addressable_listsAndUnions {chunk : Chunk}
    (h : padded.build (listsAndUnions.forM fun column ↦ Encoder.addColumn column.1 column.2) =
      .ok chunk) : chunk.heap.Addressable := by
  have hall : (match padded.build (listsAndUnions.forM fun column ↦
      Encoder.addColumn column.1 column.2) with
    | .ok chunk => decide chunk.heap.Addressable
    | .error _ => false) = true := by
    decide +kernel
  rw [h] at hall
  exact of_decide_eq_true hall

/-- Both columns can be opened with eager validation, and have the rows that were written. -/
theorem listsAndUnions_view :
    ∃ chunk view, ∃ lists unions : Column,
      padded.Fresh ∧
        padded.build (listsAndUnions.forM fun column ↦ Encoder.addColumn column.1 column.2) =
          .ok chunk ∧ chunk.heap.Apart ∧ chunk.heap.Addressable ∧
        View.ofChunk chunk { eagerListValidation := true } = .ok view ∧
        view.column 0 = .ok lists ∧ lists.len = 2 ∧ lists.getItem 1 = .ok .null ∧
        view.column 1 = .ok unions ∧ unions.getItem 0 = .ok .null ∧
        unions.getItem 1 = .ok (.union "flag" (.boolean true)) := by
  have hfresh : padded.Fresh := ⟨rfl, rfl, rfl⟩
  obtain ⟨chunk, hbuild, hapart, hview⟩ := exists_view_of_build hfresh encodable_listsAndUnions
  have haddress := addressable_listsAndUnions hbuild
  obtain ⟨view, hopen, -, hcolumns⟩ :=
    hview { eagerListValidation := true } (hapart rfl) haddress rfl (by decide) (by decide)
  obtain ⟨lists, hlists, -, hlen, -, hlistRows⟩ := hcolumns 0 _ _ rfl
  obtain ⟨unions, hunions, -, -, -, hunionRows⟩ := hcolumns 1 _ _ rfl
  exact ⟨chunk, view, lists, unions, hfresh, hbuild, hapart rfl, haddress, hopen, hlists, hlen,
    hlistRows 1 _ rfl, hunions, hunionRows 0 _ rfl, hunionRows 1 _ rfl⟩

/-- Booleans of so many bytes that there is no memory for one. -/
def tooWide : Builder := { booleanWidth := Encoding.memoryLimit, booleanWidth_pos := by decide }

/-- Limits and memory have to be asked for. No view admits a chunk without rows if its limit for rows
is zero, and a column of one row cannot be encoded if there is no memory for the row. -/
theorem refused_at_limits :
    (∃ chunk, ({} : Builder).build ([((.fixed .boolean, []) : ColumnLiteral)].forM fun column ↦
        Encoder.addColumn column.1 column.2) = .ok chunk ∧ chunk.rowCount = 0 ∧
      View.ofChunk chunk { vectorSize := 0 } = Outcome.refuse (.argument .positiveSize)) ∧
    tooWide.Fresh ∧
      tooWide.build ([((.fixed .boolean, [.boolean true]) : ColumnLiteral)].forM fun column ↦
        Encoder.addColumn column.1 column.2) = .error .breach :=
  ⟨⟨_, rfl, rfl, rfl⟩, ⟨rfl, rfl, rfl⟩, rfl⟩

end Builder

end Columnar
