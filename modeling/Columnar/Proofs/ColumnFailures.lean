import Columnar.Proofs.Blame
import Columnar.Proofs.Footprint
import Columnar.Proofs.Refusals
import Columnar.Proofs.RoundTrip

/-!
# Columns that cannot be opened

Whoever asks a view for one of its columns has done nothing wrong, so if the column cannot be
opened, the failure should be about the chunk (`DecodeError.ConcernsChunk`): its bytes are corrupt,
or it has a type that nothing decodes or that nests too deeply.

It is, with one exception. The number of rows of a child vector is what the chunk says it is, and if
their bytes or items are more than a size can count (`Chunk.Overflows`), then the failure is about
the argument `item_count`, which nobody has given. `View.column_failure` says that there is no other
way for an argument to be blamed.
-/

namespace Columnar

/-- The failure is about a chunk or the types in it, and not about the arguments of a call. -/
inductive DecodeError.ConcernsChunk : DecodeError → Prop where
  | corruption {cause : DecodeError} (h : cause.isCorruption = true) : ConcernsChunk cause
  | unsupported (name : String) : ConcernsChunk (.unsupportedType name)
  | nesting (limit : Nat) : ConcernsChunk (.nestingTooDeep limit)

theorem DecodeError.not_concernsChunk_invalidArgument {subject detail : String} :
    ¬ ConcernsChunk (.invalidArgument subject detail) := by
  rintro ⟨⟨⟩⟩

namespace Chunk

/-- All vectors that are named in the chunk, as columns or as children, exist. -/
structure NamesVectors (chunk : Chunk) : Prop where
  column_lt : ∀ id ∈ chunk.columns, id < chunk.vectors.size
  child_lt : ∀ v ∈ chunk.vectors, ∀ child ∈ v.children, child < chunk.vectors.size

/-- The request is for more bytes of slots, or for more items of arrays, than a size can count. -/
inductive Overflows (chunk : Chunk) (r : Request) : Prop where
  | bytes {width : Nat} (h : chunk.slotWidth? r.type = some width)
    (hsize : sizeLimit ≤ r.count * width)
  | items {t : LogicalType} {length : UInt64} (h : r.type = .array t length)
    (hsize : sizeLimit ≤ r.count * length.toNat)

variable {chunk : Chunk} {config : DecodeConfig} {r s : Request} {cause : DecodeError}

theorem NamesVectors.lt_of_isChild {id child : Nat} (hnames : chunk.NamesVectors)
    (h : chunk.IsChild id child) : child < chunk.vectors.size := by
  obtain ⟨v, hv, hchild⟩ := h
  exact hnames.child_lt v (Array.mem_of_getElem? hv) child hchild

/-- Requests for vectors that exist only lead to more of them. -/
theorem NamesVectors.lt_of_leadsTo (hnames : chunk.NamesVectors) (h : chunk.LeadsTo r s)
    (hid : r.id < chunk.vectors.size) : s.id < chunk.vectors.size := by
  cases h with
  | element hchild => exact hnames.lt_of_isChild (isChild_of_listChild hchild)
  | field _ hchild => exact hnames.lt_of_isChild (isChild_of_structChild hchild)
  | item hchild => exact hnames.lt_of_isChild (isChild_of_arrayChild hchild)
  | entries | members => exact hid

/-- All vectors that are asked for exist. The induction is on the requests from the first on. -/
theorem NamesVectors.lt_of_reach (hnames : chunk.NamesVectors)
    (h : Relation.ReflTransGen chunk.LeadsTo r s) (hid : r.id < chunk.vectors.size) :
    s.id < chunk.vectors.size := by
  induction h with
  | refl => exact hid
  | tail _ hstep ih => exact hnames.lt_of_leadsTo hstep ih

/-- What a request for an existing vector is refused for is about the chunk, unless more rows of it
are asked for than a size can count. -/
theorem Refuses.concernsChunk_or_overflows (hwidth : 1 ≤ chunk.booleanWidth)
    (hid : r.id < chunk.vectors.size) (h : chunk.Refuses config r cause) :
    cause.ConcernsChunk ∨
      chunk.Overflows r ∧ ∃ detail, cause = .invalidArgument "item_count" detail := by
  cases h with
  | level => exact .inl (.nesting _)
  | unsupported => exact .inl (.unsupported _)
  | byteLength h hsize => exact .inr ⟨.bytes h hsize, _, rfl⟩
  | childCount h hsize => exact .inr ⟨.items h hsize, _, rfl⟩
  | slotWidth _ hlt => exact absurd hlt (Nat.not_lt.2 (Column.width_le_slotWidth hwidth _))
  | vector h => exact absurd hid (Nat.not_lt.2 (Array.getElem?_eq_none_iff.1 h))
  | decimalScale | decimalWidth | data | shortRead | bitmap | listChild | structChild | arrayChild
  | listEntry => exact .inl (.corruption rfl)

end Chunk

namespace View

variable {view : View} {chunk : Chunk} {config : DecodeConfig} {index : Nat} {failure : Failure}

/-- The first request for a column: all rows of its vector, with the type that is reported
for it. -/
inductive Requests (view : View) (index : Nat) : Request → Prop where
  | column {id : Nat} {v : RawVector} (hid : view.chunk.columns[index]? = some id)
    (hv : view.chunk.vectors[id]? = some v) : Requests view index ⟨1, id, view.rowCount, v.type⟩

/-- If a column of a view cannot be opened, then the failure is about the chunk, or it is about the
number of rows of a vector that was asked for on the way, which are more than a size can count. -/
theorem column_failure (hwidth : 1 ≤ chunk.booleanWidth) (hnames : chunk.NamesVectors)
    (hview : ofChunk chunk config = .ok view) (hindex : index < view.columnCount)
    (hfailure : view.column index = .error failure) :
    ∃ cause, failure = .error cause ∧
      (cause.ConcernsChunk ∨
        (∃ detail, cause = .invalidArgument "item_count" detail) ∧
          ∃ r s, view.Requests index r ∧ Relation.ReflTransGen chunk.LeadsTo r s ∧
            chunk.Overflows s) := by
  obtain rfl := eq_of_ofChunk hview
  obtain ⟨id, hid⟩ : ∃ id, chunk.columns[index]? = some id := ⟨_, List.getElem?_eq_getElem hindex⟩
  have hlt : id < chunk.vectors.size := hnames.column_lt id (List.mem_of_getElem? hid)
  have hv : chunk.vectors[id]? = some chunk.vectors[id] := Array.getElem?_eq_getElem hlt
  rw [column_eq hid hv] at hfailure
  obtain ⟨s, cause, hreach, hrefused, rfl⟩ :=
    Column.failsOnly_decodeAt ⟨1, id, chunk.rowCount, _⟩ failure hfailure
  refine ⟨cause, rfl, ?_⟩
  obtain hchunk | ⟨hover, hdetail⟩ :=
    hrefused.concernsChunk_or_overflows hwidth (hnames.lt_of_reach hreach hlt)
  · exact .inl hchunk
  · exact .inr ⟨hdetail, _, s, .column hid hv, hreach, hover⟩

/-- No row of lists, and `n` numbers for their elements, of which there are no bytes. -/
def countedElements (n : Nat) : Chunk where
  vectors := #[
    { type := .fixed (.integer .bigInt) },
    { type := .list (.fixed (.integer .bigInt)), children := [0], childCount := n }]
  columns := [1]

/-- Up to the largest number whose bytes can be counted, the missing bytes are what is wrong. With
one more, an argument is. -/
theorem countedElements_column_failure :
    1 ≤ (countedElements (2 ^ 61)).booleanWidth ∧ (countedElements (2 ^ 61)).NamesVectors ∧
      ofChunk (countedElements (2 ^ 61)) {} = .ok ⟨countedElements (2 ^ 61), {}⟩ ∧
      0 < (View.mk (countedElements (2 ^ 61)) {}).columnCount ∧
      (View.mk (countedElements (2 ^ 61 - 1)) {}).column 0 =
        Outcome.refuse (.missing "vector data") ∧
      (View.mk (countedElements (2 ^ 61)) {}).column 0 =
        Outcome.refuse (.invalidArgument "item_count" "byte length overflows usize") ∧
      ∃ r s, (View.mk (countedElements (2 ^ 61)) {}).Requests 0 r ∧
        Relation.ReflTransGen (countedElements (2 ^ 61)).LeadsTo r s ∧
          (countedElements (2 ^ 61)).Overflows s := by
  have hnames : (countedElements (2 ^ 61)).NamesVectors := ⟨by decide, by decide⟩
  have hview : ofChunk (countedElements (2 ^ 61)) {} = .ok ⟨countedElements (2 ^ 61), {}⟩ := rfl
  have hrefused : (View.mk (countedElements (2 ^ 61)) {}).column 0 =
      Outcome.refuse (.invalidArgument "item_count" "byte length overflows usize") := rfl
  refine ⟨by decide, hnames, hview, by decide, rfl, hrefused, ?_⟩
  obtain ⟨cause, hcause, hchunk | ⟨-, hover⟩⟩ :=
    column_failure (by decide) hnames hview (by decide) hrefused
  · obtain rfl := Failure.error.inj hcause
    exact absurd hchunk DecodeError.not_concernsChunk_invalidArgument
  · exact hover

end View

end Columnar
