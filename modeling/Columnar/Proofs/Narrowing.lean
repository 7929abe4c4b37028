import Columnar.Proofs.Numbers

/-!
# Numbers that are cut to their column

A decimal literal is an integer of any size, and so is the index of a dictionary entry, while the
slots of a column are as wide as its digits or its dictionary call for. The encoder cuts a number to
the width of its slot and does not look at what it cuts off. What is read back is the residue of the
number (`Column.residue_of_addColumn`): the one nearest to zero for a decimal, and the least one for
an index. It is the number that was written only if the slot has room for it.

The number that is read instead is as good as any other. An index that lies past the dictionary can
come back as one that lies within it, and no error is left to tell.
-/

namespace Columnar

open LittleEndian

namespace LittleEndian

variable {width : Nat}

/-- The numbers that are kept in two's complement are those in range. -/
theorem bmod_eq_self_iff (hwidth : 0 < width) {n : Int} :
    n.bmod (256 ^ width) = n ↔ SignedRange width n := by
  rw [← toInt_ofInt]
  exact ⟨fun h ↦ h ▸ signedRange_toInt hwidth (length_ofInt width n),
    toInt_ofInt_of_signedRange hwidth⟩

theorem mod_eq_self_iff {k : Nat} : k % 256 ^ width = k ↔ k < 256 ^ width :=
  Nat.mod_eq_iff_lt (Nat.pow_pos (by decide)).ne'

end LittleEndian

namespace Column

open Encoder (addColumn)

variable {b b' : Builder} {config : DecodeConfig} {values : List Literal} {width : Nat}

/-- The last column of the builder encodes the literals. -/
theorem exists_vector_of_addColumn {t : LogicalType} (ht : t.HasNumbers width)
    (h : (addColumn t values).run b = (.ok (), b')) :
    ∃ id v, b'.columns.getLast? = some id ∧ b'.vectors[id]? = some v ∧
      v.EncodesNumbers t width values := by
  obtain ⟨-, data, hdata, rfl⟩ := (Encoder.run_addColumn_numbers ht).1 h
  exact ⟨_, _, List.getLast?_concat, Array.getElem?_push_size,
    Encoder.encodesNumbers_of_encodeSlots ht hdata⟩

/-- A number that is not null is read from its own bytes. -/
theorem bytes_of_encodesNumbers {t : LogicalType} {v : RawVector}
    (hv : v.EncodesNumbers t width values) {i : Nat} {l : Literal} {bytes : List UInt8}
    (ht : t.HasNumbers width) (hl : values[i]? = some l) (hne : l ≠ .null)
    (hbytes : t.encodeNumber width l = .ok bytes) :
    v.validity.isValid i = true ∧ (v.slots width).bytes i = bytes := by
  have hslot := hv.slotOf_eq i l hl
  rw [Encoder.slotOf_eq_ok ht hne hbytes] at hslot
  exact ⟨by rw [hv.isValid_eq i l hl, Literal.isNull_eq_false hne]; rfl, (Except.ok.inj hslot).symm⟩

theorem residue_of_addDecimals {t : DecimalType} (hscale : t.scale ≤ t.width)
    (hwidth : t.physicalWidth? = some width) (hconfig : 1 ≤ config.maxNestingDepth)
    (h : (addColumn (.decimal t) values).run b = (.ok (), b')) :
    ∃ id c, b'.columns.getLast? = some id ∧
      decode b'.toChunk config id values.length (.decimal t) = .ok c ∧
      ∀ i n, values[i]? = some (.decimal n) →
        c.getItem i = .ok (.decimal ⟨n.bmod (256 ^ width), t.width, t.scale⟩) := by
  have ht : (LogicalType.decimal t).HasNumbers width := .decimal hscale hwidth
  obtain ⟨id, v, hid, hv, hnumbers⟩ := exists_vector_of_addColumn ht h
  obtain ⟨c, hc, -, hrows⟩ := @exists_decode_decimal b'.toChunk config v id values.length width t
    hscale hwidth hconfig hv hnumbers.hasSlots
  refine ⟨id, c, hid, hc, fun i n hn ↦ ?_⟩
  obtain ⟨hvalid, hbytes⟩ := bytes_of_encodesNumbers hnumbers ht hn (by simp) rfl
  rw [hrows i (List.getElem?_eq_some_iff.1 hn).1, hvalid, if_pos rfl, hbytes, toInt_ofInt]

theorem residue_of_addIndices {t : EnumType} (hconfig : 1 ≤ config.maxNestingDepth)
    (h : (addColumn (.enumeration t) values).run b = (.ok (), b')) :
    ∃ id c, b'.columns.getLast? = some id ∧
      decode b'.toChunk config id values.length (.enumeration t) = .ok c ∧
      ∀ i k, values[i]? = some (.enumIndex k) →
        c.index i = .ok (some (k % 256 ^ t.indexWidth)) := by
  have ht : (LogicalType.enumeration t).HasNumbers t.indexWidth := .enumeration
  obtain ⟨id, v, hid, hv, hnumbers⟩ := exists_vector_of_addColumn ht h
  obtain ⟨c, hc, -, hrows⟩ := @exists_decode_enumeration b'.toChunk config v id values.length t
    hconfig hv hnumbers.hasSlots
  refine ⟨id, c, hid, hc, fun i k hk ↦ ?_⟩
  obtain ⟨hvalid, hbytes⟩ := bytes_of_encodesNumbers hnumbers ht hk (by simp) rfl
  rw [hrows i (List.getElem?_eq_some_iff.1 hk).1, hvalid, if_pos rfl, hbytes, toNat_ofNat]

/-- Decimals and dictionary indices that have been added as a column are read as their residues. A
decimal is the one that was written if and only if it is in the range of the bytes of the column, and
an index is if and only if it is less than the number of different indices of the column. -/
theorem residue_of_addColumn (hconfig : 1 ≤ config.maxNestingDepth) :
    (∀ (t : DecimalType) (width : Nat) (values : List Literal) (b b' : Builder),
      t.scale ≤ t.width → t.physicalWidth? = some width →
      (addColumn (.decimal t) values).run b = (.ok (), b') →
      ∃ id c, b'.columns.getLast? = some id ∧
        decode b'.toChunk config id values.length (.decimal t) = .ok c ∧
        ∀ i n, values[i]? = some (.decimal n) →
          c.getItem i = .ok (.decimal ⟨n.bmod (256 ^ width), t.width, t.scale⟩) ∧
          (n.bmod (256 ^ width) = n ↔ SignedRange width n)) ∧
    ∀ (t : EnumType) (values : List Literal) (b b' : Builder),
      (addColumn (.enumeration t) values).run b = (.ok (), b') →
      ∃ id c, b'.columns.getLast? = some id ∧
        decode b'.toChunk config id values.length (.enumeration t) = .ok c ∧
        ∀ i k, values[i]? = some (.enumIndex k) →
          c.index i = .ok (some (k % 256 ^ t.indexWidth)) ∧
          (k % 256 ^ t.indexWidth = k ↔ k < 256 ^ t.indexWidth) := by
  refine ⟨fun t width values b b' hscale hwidth h ↦ ?_, fun t values b b' h ↦ ?_⟩
  · obtain ⟨id, c, hid, hc, hrows⟩ := residue_of_addDecimals hscale hwidth hconfig h
    have hpos := DecimalType.pos_of_physicalWidth hwidth
    exact ⟨id, c, hid, hc, fun i n hn ↦ ⟨hrows i n hn, bmod_eq_self_iff hpos⟩⟩
  · obtain ⟨id, c, hid, hc, hrows⟩ := residue_of_addIndices hconfig h
    exact ⟨id, c, hid, hc, fun i k hk ↦ ⟨hrows i k hk, mod_eq_self_iff⟩⟩

/-- Decimals of four digits, of which the second one is too large for two bytes. -/
abbrev largeDecimals : List Literal := [.decimal 32767, .decimal 40000]

/-- Indices of which neither has an entry in a dictionary of three, and the second one has no place in
a byte. -/
abbrev largeIndices : List Literal := [.enumIndex 3, .enumIndex 256]

/-- The decimal that is too large is read as another one. The index that is too large for its slot is
read as that of the first entry, while the other one is refused for want of an entry. -/
theorem largeNumbers_residue :
    let t : DecimalType := ⟨4, 1⟩
    let e : EnumType := .ofValues #["a", "b", "c"]
    (∃ b id c, (addColumn (.decimal t) largeDecimals).run default = (.ok (), b) ∧
      b.columns.getLast? = some id ∧ decode b.toChunk {} id 2 (.decimal t) = .ok c ∧
      c.getItem 0 = .ok (.decimal ⟨32767, 4, 1⟩) ∧ c.getItem 1 = .ok (.decimal ⟨-25536, 4, 1⟩)) ∧
    ∃ b id c, (addColumn (.enumeration e) largeIndices).run default = (.ok (), b) ∧
      b.columns.getLast? = some id ∧ decode b.toChunk {} id 2 (.enumeration e) = .ok c ∧
      c.index 0 = .ok (some 3) ∧ c.getItem 0 = Outcome.refuse (.invalidEnumIndex 3 3) ∧
      c.index 1 = .ok (some 0) ∧ c.getItem 1 = .ok (.enumeration "a") := by
  intro t e
  obtain ⟨hdecimals, hindices⟩ := @residue_of_addColumn {} (by decide)
  obtain ⟨id, c, hid, hc, hrows⟩ := hdecimals t 2 largeDecimals default _ (by decide) rfl rfl
  obtain ⟨id', c', hid', hc', hrows'⟩ := hindices e largeIndices default _ rfl
  have hfits : Int.bmod 32767 (256 ^ 2) = 32767 := by decide
  have hcut : Int.bmod 40000 (256 ^ 2) = -25536 := by decide
  have hdecimal := (hrows 0 _ rfl).1
  have hdecimal' := (hrows 1 _ rfl).1
  rw [hfits] at hdecimal
  rw [hcut] at hdecimal'
  have hwidth : e.indexWidth = 1 := rfl
  have hindex := (hrows' 0 _ rfl).1
  have hindex' := (hrows' 1 _ rfl).1
  rw [hwidth] at hindex hindex'
  obtain rfl : 0 = id' := Option.some.inj hid'
  have hread : c'.getItem 0 = Outcome.refuse (.invalidEnumIndex 3 3) ∧
      c'.getItem 1 = .ok (.enumeration "a") := by
    obtain rfl := Except.ok.inj hc'
    exact ⟨rfl, rfl⟩
  exact ⟨⟨_, id, c, rfl, hid, hc, hdecimal, hdecimal'⟩,
    ⟨_, 0, c', rfl, hid', hc', hindex, hread.1, hindex', hread.2⟩⟩

end Column

end Columnar
