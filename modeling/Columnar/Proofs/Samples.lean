import Columnar.Proofs.RoundTrip
import Columnar.Sample

/-!
# The samples can be built and read

All literals of the samples belong to their types: the least and the largest integer of each kind,
the decimals of as many nines as their types have digits, and the rest. So every sample is built,
wherever the allocator puts its payloads, and a view of it has the rows that its description says
(`Sample.exists_view`).
-/

namespace Columnar

/-- The scaled integers of a type have room for all numbers of as many digits as it declares. -/
theorem DecimalType.signedRange_of_natAbs_lt {t : DecimalType} {width : Nat} {n : Int}
    (h : t.physicalWidth? = some width) (hn : n.natAbs < 10 ^ t.width.toNat) :
    SignedRange width n := by
  have hroom : 10 ^ t.width.toNat ≤ Nat.pow 2 (8 * width - 1) := by
    have hpow : ∀ {digits bits : Nat}, t.width.toNat ≤ digits → 10 ^ digits ≤ Nat.pow 2 bits →
        10 ^ t.width.toNat ≤ Nat.pow 2 bits :=
      fun hle hroom ↦ Nat.le_trans (Nat.pow_le_pow_right (by decide) hle) hroom
    rw [physicalWidth?] at h
    split_ifs at h with h0 h4 h9 h18 h38
    · cases h; exact hpow h4 (by decide)
    · cases h; exact hpow h9 (by decide)
    · cases h; exact hpow h18 (by decide)
    · cases h; exact hpow h38 (by decide)
  exact ⟨by omega, by omega⟩

namespace Sample

/-- A column of three rows that fit its type can be encoded. -/
theorem encodable_of_accepts {t : LogicalType} {first second third : Literal}
    (hstorable : t.Storable) (hfirst : t.Accepts first) (hsecond : t.Accepts second)
    (hthird : t.Accepts third) (hafford : t.Affordable 1 0 [first, second, third]) :
    ColumnLiteral.Encodable 1 0 3 (t, [first, second, third]) where
  length_eq := rfl
  storable := hstorable
  accepts := by simp [hfirst, hsecond, hthird]
  affordable := hafford

/-- A column of two values and null can be encoded if the values fit its type. -/
theorem encodable_extremes {t : LogicalType} {least greatest : Literal} (hstorable : t.Storable)
    (hleast : t.Accepts least) (hgreatest : t.Accepts greatest)
    (hafford : t.Affordable 1 0 [least, greatest, .null]) :
    ColumnLiteral.Encodable 1 0 3 (t, [least, greatest, .null]) :=
  encodable_of_accepts hstorable hleast hgreatest (LogicalType.accepts_null t) hafford

/-- There is memory for three literals. -/
theorem length_lt_memoryLimit {α : Type} (a b c : α) :
    [a, b, c].length * Encoder.literalSize < Encoding.memoryLimit := by
  show 3 * Encoder.literalSize < Encoding.memoryLimit
  decide

theorem encodable_integerExtremes (kind : IntegerKind) :
    ColumnLiteral.Encodable 1 0 3 (integerExtremes kind) := by
  have hleast : kind.Contains kind.least := by cases kind <;> decide
  have hgreatest : kind.Contains (kind.bound - 1) := by cases kind <;> decide
  exact encodable_extremes trivial (.inr ⟨rfl, hleast⟩) (.inr ⟨rfl, hgreatest⟩)
    ⟨length_lt_memoryLimit .., trivial⟩

theorem encodable_temporalExtremes {kind : TemporalKind} {least greatest : Int}
    (hleast : SignedRange kind.width least) (hgreatest : SignedRange kind.width greatest) :
    ColumnLiteral.Encodable 1 0 3 (temporalExtremes kind least greatest) :=
  encodable_extremes trivial (.inr ⟨rfl, hleast⟩) (.inr ⟨rfl, hgreatest⟩)
    ⟨length_lt_memoryLimit .., trivial⟩

/-- The decimals of as many nines as a type has digits fit the type. -/
theorem encodable_decimalExtremes {width scale : UInt8} (hpos : 1 ≤ width.toNat)
    (hle : width.toNat ≤ 38) (hscale : scale ≤ width) :
    ColumnLiteral.Encodable 1 0 3 (decimalExtremes width scale) := by
  obtain ⟨size, hsize⟩ : ∃ size, DecimalType.physicalWidth? ⟨width, scale⟩ = some size :=
    DecimalType.physicalWidth?_eq_some_iff.2 ⟨hpos, hle⟩
  have haccepts : ∀ n : Int, n.natAbs < 10 ^ width.toNat →
      (LogicalType.decimal ⟨width, scale⟩).Accepts (.decimal n) :=
    fun n hn ↦ .inr ⟨size, n, hsize, DecimalType.signedRange_of_natAbs_lt hsize hn, rfl⟩
  have hten : 0 < Nat.pow 10 width.toNat := Nat.pow_pos (by decide)
  have hpow : Nat.pow 10 width.toNat = 10 ^ width.toNat := rfl
  exact encodable_extremes ⟨hpos, hle, hscale⟩ (haccepts _ (by omega)) (haccepts _ (by omega))
    ⟨length_lt_memoryLimit .., trivial⟩

theorem encodable_timeTz : ColumnLiteral.Encodable 1 0 3 timeTz := by
  have hleast : TimeTz.IsPacked ⟨0, 57599⟩ := ⟨by decide, by decide, by decide⟩
  have hgreatest : TimeTz.IsPacked ⟨86400000000, -57599⟩ := ⟨by decide, by decide, by decide⟩
  exact encodable_extremes trivial (.inr hleast) (.inr hgreatest) ⟨length_lt_memoryLimit .., trivial⟩

theorem encodable_intList : ∀ column ∈ intList, column.Encodable 1 0 3 := by
  have hint : ∀ n : Int, IntegerKind.integer.Contains n →
      (int .integer).Accepts (.integer .integer n) := fun n hn ↦ .inr ⟨rfl, hn⟩
  refine List.forall_mem_singleton.2 (encodable_of_accepts trivial ?_ ?_
    (LogicalType.accepts_null _) ?_)
  · exact LogicalType.accepts_list_iff.2 (.inr ⟨[], rfl, by simp⟩)
  · refine LogicalType.accepts_list_iff.2 (.inr ⟨_, rfl, ?_⟩)
    simp only [List.forall_mem_cons, List.not_mem_nil, false_implies, implies_true, and_true]
    exact ⟨hint _ (by decide), hint _ (by decide), LogicalType.accepts_null _,
      LogicalType.accepts_null _, hint _ (by decide)⟩
  · exact ⟨length_lt_memoryLimit .., by decide, trivial⟩

theorem encodable_nameOrAge : ∀ column ∈ nameOrAge, column.Encodable 1 0 3 := by
  refine List.forall_mem_singleton.2 (encodable_of_accepts ⟨trivial, trivial, trivial⟩ ?_ ?_
    (LogicalType.accepts_null _) ?_)
  · refine LogicalType.accepts_union_iff.2 (.inr ⟨0, _, _, rfl, rfl, .inr ?_⟩)
    show "Frank".utf8ByteSize < UInt32.size
    decide
  · exact LogicalType.accepts_union_iff.2 (.inr ⟨1, _, _, rfl, rfl, .inr ⟨rfl, by decide⟩⟩)
  · exact ⟨length_lt_memoryLimit .., ⟨by decide, trivial⟩, ⟨by decide, trivial⟩, trivial⟩

theorem encodable_bits : ∀ column ∈ bits, column.Encodable 1 0 3 := by
  refine List.forall_mem_singleton.2 (encodable_extremes trivial (.inr ?_) (.inr ?_)
    ⟨length_lt_memoryLimit .., trivial⟩)
  · exact ⟨by decide, by simp, by decide⟩
  · exact ⟨by decide, by simp, by decide⟩

theorem encodable_allTypes : ∀ column ∈ allTypes, column.Encodable 1 0 3 := by
  refine List.forall_mem_append.2 ⟨List.forall_mem_cons.2 ⟨?_, List.forall_mem_map.2 fun kind _ ↦
    encodable_integerExtremes kind⟩, ?_⟩
  · exact encodable_extremes trivial (.inr trivial) (.inr trivial)
      ⟨length_lt_memoryLimit .., by decide⟩
  simp only [List.forall_mem_cons, List.not_mem_nil, false_implies, implies_true, and_true]
  refine ⟨encodable_temporalExtremes (by decide) (by decide),
    encodable_temporalExtremes (by decide) (by decide),
    encodable_temporalExtremes (by decide) (by decide),
    encodable_temporalExtremes (by decide) (by decide),
    encodable_temporalExtremes (by decide) (by decide),
    encodable_temporalExtremes (by decide) (by decide), encodable_timeTz,
    encodable_temporalExtremes (by decide) (by decide), ?float, ?double,
    encodable_decimalExtremes (by decide) (by decide) (by decide), ?uuid, ?interval, ?varchar, ?blob,
    ?enumeration⟩
  case float | double | uuid =>
    exact encodable_extremes trivial (.inr trivial) (.inr trivial)
      ⟨length_lt_memoryLimit .., trivial⟩
  case interval =>
    exact encodable_extremes trivial (.inr ⟨by decide, by decide, by decide⟩)
      (.inr ⟨by decide, by decide, by decide⟩) ⟨length_lt_memoryLimit .., trivial⟩
  case varchar | blob =>
    have hshort : ∀ {n : Nat}, n ≤ 31 → n < UInt32.size := fun h ↦ Nat.lt_of_le_of_lt h (by decide)
    exact encodable_extremes trivial (.inr (hshort (by decide))) (.inr (hshort (by decide)))
      ⟨length_lt_memoryLimit .., trivial⟩
  case enumeration =>
    exact encodable_extremes trivial (.inr ⟨0, by decide, by decide +kernel⟩)
      (.inr ⟨1, by decide, by decide +kernel⟩) ⟨length_lt_memoryLimit .., trivial⟩

theorem encodable_of_mem {name : String} {sample : List ColumnLiteral}
    (h : (name, sample) ∈ columns) : ∀ column ∈ sample, column.Encodable 1 0 3 := by
  have hdecimals : ∀ column ∈ decimals, column.Encodable 1 0 3 := by
    simp only [decimals, List.forall_mem_cons, List.not_mem_nil, false_implies, implies_true,
      and_true]
    exact ⟨encodable_decimalExtremes (by decide) (by decide) (by decide),
      encodable_decimalExtremes (by decide) (by decide) (by decide),
      encodable_decimalExtremes (by decide) (by decide) (by decide),
      encodable_decimalExtremes (by decide) (by decide) (by decide)⟩
  simp only [columns, List.mem_cons, List.not_mem_nil, or_false, Prod.mk.injEq] at h
  rcases h with ⟨-, rfl⟩ | ⟨-, rfl⟩ | ⟨-, rfl⟩ | ⟨-, rfl⟩ | ⟨-, rfl⟩ | ⟨-, rfl⟩
  · exact encodable_intList
  · exact encodable_nameOrAge
  · exact hdecimals
  · exact List.forall_mem_singleton.2 encodable_timeTz
  · exact encodable_bits
  · exact encodable_allTypes

/-- No sample has a type of more than two levels. -/
theorem depth_le_of_mem {name : String} {sample : List ColumnLiteral}
    (h : (name, sample) ∈ columns) : ∀ column ∈ sample, column.1.depth ≤ 2 := by
  have hall : ∀ s ∈ columns, ∀ column ∈ s.2, column.1.depth ≤ 2 := by decide +kernel
  exact hall _ h

/-- Every sample is built by a builder with booleans of one byte and no padding behind lists, whatever
its allocator. A view of it that allows for three rows and for three levels has the rows that were
written. -/
theorem exists_view {name : String} {sample : List ColumnLiteral} (h : (name, sample) ∈ columns)
    {b : Builder} (hb : b.Fresh) (hwidth : b.booleanWidth = 1) (hpadding : b.listPadding = 0) :
    ∃ b' : Builder, b.build (sample.forM fun column ↦ Encoder.addColumn column.1 column.2) =
        .ok b'.toChunk ∧ (b.place = Heap.behindLast → b'.heap.Apart) ∧
      ∀ config : DecodeConfig, b'.heap.Apart → b'.heap.Addressable → config.validate = .ok () →
        3 ≤ config.vectorSize → 3 ≤ config.maxNestingDepth →
        ∃ view, View.ofChunk b'.toChunk config = .ok view ∧ view.columnCount = sample.length ∧
          ∀ index t values, sample[index]? = some (t, values) →
            ∃ c, view.column index = .ok c ∧ view.rowCount = 3 ∧ c.len = 3 ∧ c.type = t ∧
              ∀ i l, values[i]? = some l → c.getItem i = .ok (t.valueOf l) := by
  have hencodable := encodable_of_mem h
  obtain ⟨b', hbuild, hall, hapart⟩ :=
    Builder.exists_hasColumns_of_build hb (by rwa [hwidth, hpadding])
  refine ⟨b', hbuild, hapart, fun config hapart haddress hconfig hsize hdepth ↦ ?_⟩
  refine hall.exists_view (fun column hcolumn ↦ (hencodable column hcolumn).length_eq) hapart haddress
    hconfig hsize fun column hcolumn ↦ ?_
  exact Nat.lt_of_le_of_lt (depth_le_of_mem h column hcolumn) hdepth

end Sample

end Columnar
