import Columnar.Column.Json
import Columnar.Proofs.Typing
import Columnar.Scalar.UuidStandard

/-!
# Failing reads blame the bytes

An opened column can only be read from in ways that its caller has a right to, so if a row in range
cannot be read, or what was read cannot be shown as JSON, then the bytes are to blame
(`DecodeError.isCorruption`): the checks of arguments and types that the readers make on their way
inside never fail.

Reading a row and showing it are proved together, as one computation
(`Layout.blamesData_toJson_of_readValid`), by induction on the layout: a list is shown by reading and
showing its rows, which is the same computation for the column inside.
-/

namespace Columnar

/-- Whether the bytes are to blame, and neither the caller nor the reader. -/
def Failure.isCorruption : Failure → Bool
  | .error cause => cause.isCorruption
  | .breach _ => false

/-- If the computation fails, then the bytes are to blame. -/
abbrev Outcome.BlamesData {α : Type} (x : Outcome α) : Prop :=
  x.FailsOnly fun failure ↦ failure.isCorruption = true

open Outcome

theorem Outcome.BlamesData.unbroken {α : Type} {x : Outcome α} (h : x.BlamesData) : x.Unbroken := by
  intro detail hx
  cases h _ hx

/-! ### Parts of values -/

namespace Value

variable [Uuid.Library]

theorem blamesData_fieldsToJson {fields : List (String × Value)}
    (h : ∀ f ∈ fields, f.2.toJson.BlamesData) : (fieldsToJson fields).BlamesData := by
  induction fields with
  | nil => exact failsOnly_ok _
  | cons f rest ih =>
    rw [fieldsToJson]
    refine (h f (by simp)).bind fun _ _ ↦ ?_
    exact (ih fun f hf ↦ h f (by simp [hf])).bind fun _ _ ↦ failsOnly_ok _

/-- Pairs are shown like the structs that they are stored as. -/
theorem blamesData_pairsToJson {pairs : List (Value × Value)}
    (h : ∀ p ∈ pairs, ∃ keyName valueName,
      (Value.struct [(keyName, p.1), (valueName, p.2)]).toJson.BlamesData) :
    (pairsToJson pairs).BlamesData := by
  induction pairs with
  | nil => exact failsOnly_ok _
  | cons p rest ih =>
    obtain ⟨keyName, valueName, hp⟩ := h p (by simp)
    have hfields : (fieldsToJson [(keyName, p.1), (valueName, p.2)]).BlamesData :=
      fun failure hfailure ↦ hp failure (map_eq_error_iff.2 hfailure)
    simp only [fieldsToJson, failsOnly_bind_iff] at hfields
    obtain ⟨hkey, hvalue⟩ := hfields
    rw [pairsToJson]
    refine hkey.bind fun key hk ↦ (hvalue key hk).1.1.bind fun _ _ ↦ ?_
    exact (ih fun p hp ↦ h p (by simp [hp])).bind fun _ _ ↦ failsOnly_ok _

/-- The rows of a list or an array are read and shown one after the other. -/
theorem blamesData_rowsToJson {n : Nat} {row : Fin n → Outcome Value}
    (h : ∀ k, (row k >>= toJson).BlamesData) :
    (Json.array <$> Outcome.collect n fun k ↦ rowToJson (row k)).BlamesData := by
  refine (FailsOnly.collect fun k ↦ ?_).map _
  have hrow : rowToJson (row k) = row k >>= toJson := by cases row k <;> rfl
  rw [hrow]
  exact h k

end Value

/-! ### Leaves -/

theorem FixedKind.blamesData_decode [Uuid.Library] (kind : FixedKind) (slot : List UInt8) :
    (kind.decode slot).toJson.BlamesData := by
  cases kind <;> exact failsOnly_ok _

theorem BitString.blamesData_ofBytes (bytes : List UInt8) : (ofBytes bytes).BlamesData := by
  cases bytes with
  | nil => exact failsOnly_refuse_iff.2 rfl
  | cons padding data =>
    rw [ofBytes]
    split_ifs
    · exact failsOnly_ok _
    · exact failsOnly_refuse_iff.2 rfl
    · exact failsOnly_refuse_iff.2 rfl

theorem Text.Utf8.blamesData_decode (row : Nat) (bytes : List UInt8) :
    (decode row bytes).BlamesData := by
  rw [decode]
  split
  · exact failsOnly_ok _
  · exact failsOnly_refuse_iff.2 rfl

theorem StringKind.blamesData_decode [Uuid.Library] (kind : StringKind) (row : Nat)
    (bytes : List UInt8) :
    (kind.decode row bytes >>= Value.toJson).BlamesData := by
  cases kind with
  | varchar =>
    refine ((Text.Utf8.blamesData_decode row bytes).map _).bind fun v hv ↦ ?_
    obtain ⟨s, -, rfl⟩ := map_eq_ok_iff.1 hv
    exact failsOnly_ok _
  | blob => exact failsOnly_ok _
  | bit =>
    refine ((BitString.blamesData_ofBytes bytes).map _).bind fun v hv ↦ ?_
    obtain ⟨b, -, rfl⟩ := map_eq_ok_iff.1 hv
    exact failsOnly_ok _

theorem EnumType.blamesData_decode [Uuid.Library] (t : EnumType) (index : Nat) :
    (t.decode index >>= Value.toJson).BlamesData := by
  rw [EnumType.decode]
  split
  · exact failsOnly_ok _
  · exact failsOnly_refuse_iff.2 rfl

/-! ### Rows -/

namespace Layout

theorem blamesData_entryRange (slot : List UInt8) (rows : Nat) :
    (entryRange slot rows).BlamesData :=
  FailsOnly.bind (failsOnly_require rfl) fun _ _ ↦ failsOnly_ok _

theorem blamesData_pairOf (row entry : Nat) (v : Value) : (pairOf row entry v).BlamesData := by
  unfold pairOf
  split
  · exact failsOnly_ok _
  · exact failsOnly_refuse_iff.2 rfl

/-- A row of a column inside blames the bytes if the valid rows of its layout do. -/
theorem blamesData_get [Uuid.Library] {w : Column} {offset count j : Nat}
    (h : w.content.Holds (w.start + w.len))
    (hle : offset + count ≤ w.len) (hj : j < count)
    (ih : ∀ {rows start len i : Nat}, w.content.Holds rows → start + len ≤ rows → i < len →
      (w.content.readValid start len i >>= Value.toJson).BlamesData) :
    (Column.get (w.narrow offset count) j >>= Value.toJson).BlamesData := by
  have hrows : w.start + offset + count ≤ w.start + w.len := by omega
  have hread : Column.get (w.narrow offset count) j = _ := read_eq h hrows hj
  rw [hread]
  split
  · exact ih h hrows hj
  · exact failsOnly_ok _

/-- Reading and showing a valid row fails only because of the bytes. The induction is on the layout;
what is inside is asked about the rows of its own window. -/
theorem blamesData_toJson_of_readValid [Uuid.Library] {layout : Layout} {rows start len i : Nat}
    (h : layout.Holds rows) (hrows : start + len ≤ rows) (hi : i < len) :
    (layout.readValid start len i >>= Value.toJson).BlamesData := by
  induction layout using Layout.inductionOn generalizing rows start len i with
  | fixed kind slots => exact kind.blamesData_decode _
  | string kind slots heap =>
    rw [readValid]
    split
    · exact failsOnly_ok _
    · exact kind.blamesData_decode _ _
  | decimal type width slots => exact failsOnly_ok _
  | enumeration type width slots => exact type.blamesData_decode _
  | list slots child ih =>
    have hchild := h.inside (w := child) (by simp [windows])
    rw [readValid, bind_assoc]
    refine (blamesData_entryRange _ _).bind fun r hr ↦ ?_
    obtain ⟨offset, count⟩ := r
    have hle := (entryRange_eq_ok_iff.1 hr).2
    exact Value.blamesData_rowsToJson fun k ↦ blamesData_get hchild hle k.isLt ih
  | struct words fields ih =>
    have hfields : ∀ f ∈ fields,
        (Column.get (f.2.narrow start len) i >>= Value.toJson).BlamesData := by
      intro f hf
      have hle : rows ≤ f.2.len := h.here f hf
      have hfield := h.inside (w := f.2) (List.mem_map_of_mem hf)
      exact blamesData_get hfield (Nat.le_trans hrows hle) hi (ih f hf)
    refine ((FailsOnly.mapM fun f hf ↦ ?_).map _).bind fun v hv ↦ ?_
    · exact (failsOnly_bind_iff.1 (hfields f hf)).1.map _
    · obtain ⟨values, hvalues, rfl⟩ := map_eq_ok_iff.1 hv
      refine (Value.blamesData_fieldsToJson fun value hvalue ↦ ?_).map _
      obtain ⟨f, hf, hget⟩ := exists_mem_of_forall₂ (mapM_eq_ok_iff.1 hvalues) hvalue
      obtain ⟨w, hw, rfl⟩ := map_eq_ok_iff.1 hget
      exact (failsOnly_bind_iff.1 (hfields f hf)).2 w hw
  | map key value slots child ih =>
    have hchild := h.inside (w := child) (by simp [windows])
    rw [readValid, bind_assoc]
    refine (blamesData_entryRange _ _).bind fun r hr ↦ ?_
    obtain ⟨offset, count⟩ := r
    have hentry : ∀ j : Fin count,
        (Column.get (child.narrow offset count) j >>= Value.toJson).BlamesData :=
      fun j ↦ blamesData_get hchild (entryRange_eq_ok_iff.1 hr).2 j.isLt ih
    refine ((FailsOnly.collect fun j ↦ ?_).map _).bind fun v hv ↦ ?_
    · exact (failsOnly_bind_iff.1 (hentry j)).1.bind fun _ _ ↦ blamesData_pairOf _ _ _
    · obtain ⟨pairs, hpairs, rfl⟩ := map_eq_ok_iff.1 hv
      obtain ⟨hlen, hpairs⟩ := Outcome.collect_eq_ok_iff.1 hpairs
      refine (Value.blamesData_pairsToJson fun p hp ↦ ?_).map _
      obtain ⟨j, hj, rfl⟩ := List.mem_iff_getElem.1 hp
      -- The pair is what the struct in this entry holds, and it is shown as that struct is.
      obtain ⟨entry, hget, hpair⟩ := bind_eq_ok_iff.1 (hpairs ⟨j, hlen ▸ hj⟩)
      obtain ⟨keyName, valueName, rfl⟩ := pairOf_eq_ok_iff.1 hpair
      exact ⟨keyName, valueName, (failsOnly_bind_iff.1 (hentry _)).2 _ hget⟩
  | array length words child ih =>
    have hchild := h.inside (w := child) (by simp [windows])
    have hle := array_row_le h.here (show start + i < rows by omega)
    exact Value.blamesData_rowsToJson fun k ↦ blamesData_get hchild hle k.isLt ih
  | union words tags alternatives ih =>
    dsimp only [readValid]
    split
    · exact failsOnly_refuse_iff.2 rfl
    next a ha =>
      have hmem : a ∈ alternatives := List.mem_of_getElem? ha
      have hle : rows ≤ a.2.len := h.here.2 a hmem
      have hinside := h.inside (w := a.2) (List.mem_cons_of_mem _ (List.mem_map_of_mem hmem))
      have hget := failsOnly_bind_iff.1
        (blamesData_get hinside (Nat.le_trans hrows hle) hi (ih a hmem))
      refine (hget.1.map _).bind fun v hv ↦ ?_
      obtain ⟨w, hw, rfl⟩ := map_eq_ok_iff.1 hv
      exact (hget.2 w hw).bind fun _ _ ↦ failsOnly_ok _

end Layout

namespace Column

variable {ok : Nat → Prop} {c d : Column}

/-- A row in range of a column within its buffers fails to be read or shown only because of the
bytes. -/
theorem blamesData_rowToJson [Uuid.Library] (h : c.Within ok) {i : Nat} (hi : i < c.len) :
    (c.rowToJson i).BlamesData := by
  rw [rowToJson, h.getItem_eq hi]
  split
  · exact Layout.blamesData_toJson_of_readValid h.holds (Nat.le_refl _) hi
  · exact failsOnly_ok _

theorem blamesData_toJson [Uuid.Library] (h : c.Within ok) : c.toJson.BlamesData :=
  (FailsOnly.collect fun i ↦ blamesData_rowToJson h i.isLt).map _

/-- Whatever the chunk, no row in range of a column within reach of an opened one fails to be read
for another reason than its bytes, and neither does showing as JSON what was read, or the whole
column. -/
theorem blamesData_of_reaches [Uuid.Library] {chunk : Chunk} {config : DecodeConfig} {id count : Nat}
    {t : LogicalType} (hc : decode chunk config id count t = .ok c) (hd : c.Reaches d) :
    (∀ i < d.len, (d.getItem i).BlamesData ∧ ∀ v, d.getItem i = .ok v → v.toJson.BlamesData) ∧
      d.toJson.BlamesData := by
  have hopened : c.Within fun _ ↦ True := (isOpened_of_decodeAt chunk.counts_true hc trivial).within
  have hwithin : d.Within fun _ ↦ True := hopened.reaches (fun _ _ ↦ trivial) hd
  exact ⟨fun i hi ↦ failsOnly_bind_iff.1 (blamesData_rowToJson hwithin hi),
    blamesData_toJson hwithin⟩

/-- The union of a tag that it does not have is refused as corrupt, and so is its column. -/
theorem smallOrDecimal_blamesData :
    ∃ c : Column,
      decode smallOrDecimal {} 0 2
          (.union [("small", .fixed (.integer .tinyInt)), ("decimal", .decimal ⟨4, 1⟩)]) = .ok c ∧
        c.Reaches c ∧ 1 < c.len ∧ c.getItem 1 = Outcome.refuse (.invalidDiscriminant 2 2) ∧
        (c.getItem 1).BlamesData ∧ c.toJson.BlamesData := by
  obtain ⟨c, hc, hlen, hrow⟩ : ∃ c : Column,
      decode smallOrDecimal {} 0 2
          (.union [("small", .fixed (.integer .tinyInt)), ("decimal", .decimal ⟨4, 1⟩)]) = .ok c ∧
        c.len = 2 ∧ c.getItem 1 = Outcome.refuse (.invalidDiscriminant 2 2) := ⟨_, rfl, rfl, by rfl⟩
  have hi : 1 < c.len := Nat.lt_of_lt_of_eq (by decide) hlen.symm
  obtain ⟨hrows, hjson⟩ := blamesData_of_reaches hc .refl
  exact ⟨c, hc, .refl, hi, hrow, (hrows 1 hi).1, hjson⟩

end Column

end Columnar
