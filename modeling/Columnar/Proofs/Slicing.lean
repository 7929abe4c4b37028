import Columnar.Proofs.Opened
import Columnar.Proofs.Reach

/-!
# Narrowed columns read alike

A row of a narrowed column is a row of the column. The two readings agree in everything but one
number: errors that name a row count from the start of the window they were read through, so
outcomes are compared by `SameButRow`, which forgets that number. Rows *inside* a value are rows of
the column inside, whose windows narrowing does not move, so values are equal outright.

`Layout.read_shift` is the law for two windows over one layout, by induction on the layout: whatever
`Layout.readValid` takes from the buffers, it takes from row `start + i`, and that sum is all that
narrowing keeps.
-/

namespace Columnar

/-! ### Errors without their row -/

/-- The cause, with the row that it names set to zero. -/
def DecodeError.withoutRow : DecodeError → DecodeError
  | .invalidUtf8 _ refusal => .invalidUtf8 0 refusal
  | .nullMapEntry _ entry => .nullMapEntry 0 entry
  | cause => cause

/-- The failure, with the row that it names set to zero. -/
def Failure.withoutRow : Failure → Failure
  | .error cause => .error cause.withoutRow
  | .breach detail => .breach detail

/-- Both have the same value, or both fail for the same cause, up to the row that it names. -/
def SameButRow {α : Type} (x y : Outcome α) : Prop :=
  x.mapError Failure.withoutRow = y.mapError Failure.withoutRow

namespace SameButRow

variable {α β : Type} {x y : Outcome α}

theorem rfl {x : Outcome α} : SameButRow x x := Eq.refl _

/-- Two ways of going on that agree but for rows agree so after outcomes that do. -/
theorem bind {f g : α → Outcome β} (h : SameButRow x y) (hfg : ∀ a, SameButRow (f a) (g a)) :
    SameButRow (x >>= f) (y >>= g) := by
  cases x with
  | ok a =>
    cases y with
    | ok b =>
      obtain rfl : a = b := Except.ok.inj h
      exact hfg a
    | error failure => cases h
  | error failure =>
    cases y with
    | ok b => cases h
    | error failure' => exact congrArg Except.error (Except.error.inj h)

theorem map (h : SameButRow x y) (f : α → β) : SameButRow (f <$> x) (f <$> y) := by
  rw [map_eq_pure_bind, map_eq_pure_bind]
  exact h.bind fun _ ↦ rfl

theorem mapM {f g : α → Outcome β} {as : List α} (h : ∀ a ∈ as, SameButRow (f a) (g a)) :
    SameButRow (as.mapM f) (as.mapM g) := by
  induction as with
  | nil => exact rfl
  | cons a as ih =>
    rw [List.mapM_cons, List.mapM_cons]
    refine (h a (by simp)).bind fun b ↦ ?_
    exact (ih fun a ha ↦ h a (by simp [ha])).bind fun bs ↦ rfl

theorem collect {n : Nat} {f g : Fin n → Outcome α} (h : ∀ i, SameButRow (f i) (g i)) :
    SameButRow (Outcome.collect n f) (Outcome.collect n g) := by
  rw [Outcome.collect_eq_mapM_finRange, Outcome.collect_eq_mapM_finRange]
  exact mapM fun i _ ↦ h i

end SameButRow

theorem StringKind.decode_shift (kind : StringKind) (i j : Nat) (bytes : List UInt8) :
    SameButRow (kind.decode i bytes) (kind.decode j bytes) := by
  cases kind with
  | varchar =>
    refine SameButRow.map ?_ _
    unfold Text.Utf8.decode
    split <;> exact SameButRow.rfl
  | blob => exact SameButRow.rfl
  | bit => exact SameButRow.rfl

theorem pairOf_shift (i j entry : Nat) (v : Value) :
    SameButRow (pairOf i entry v) (pairOf j entry v) := by
  unfold pairOf
  split <;> exact SameButRow.rfl

namespace Layout

variable {layout : Layout} {rows start len a b j : Nat}

/-- Both rows are valid or neither is, so it is enough to compare the values of valid rows. -/
theorem read_shift_of_readValid (h : layout.Holds rows) (hrows : start + len ≤ rows)
    (hab : a + b ≤ len) (hj : j < b)
    (hvalid : SameButRow (layout.readValid (start + a) b j) (layout.readValid start len (a + j))) :
    SameButRow (layout.read (start + a) b j) (layout.read start len (a + j)) := by
  rw [read_eq h (show start + a + b ≤ rows by omega) hj, read_eq h hrows (by omega), Nat.add_assoc]
  split
  · exact hvalid
  · exact .rfl

/-- The fields of a struct, and the alternatives of a union, are narrowed along with it. -/
theorem get_narrow_shift {w : Column} (h : w.content.Holds (w.start + w.len))
    (hlen : start + len ≤ w.len) (hab : a + b ≤ len) (hj : j < b)
    (ih : ∀ {rows start len a b j}, w.content.Holds rows → start + len ≤ rows → a + b ≤ len → j < b →
      SameButRow (w.content.readValid (start + a) b j) (w.content.readValid start len (a + j))) :
    SameButRow (Column.get (w.narrow (start + a) b) j) (Column.get (w.narrow start len) (a + j)) := by
  have hrows : w.start + start + len ≤ w.start + w.len := by omega
  have := read_shift_of_readValid h hrows hab hj (ih h hrows hab hj)
  rwa [Nat.add_assoc] at this

/-- What a valid row is taken from is found by the sum of the start and the row. -/
theorem readValid_shift (h : layout.Holds rows) (hrows : start + len ≤ rows) (hab : a + b ≤ len)
    (hj : j < b) :
    SameButRow (layout.readValid (start + a) b j) (layout.readValid start len (a + j)) := by
  induction layout using Layout.inductionOn generalizing rows start len a b j with
  | string kind slots heap =>
    simp only [readValid, Nat.add_assoc]
    split
    · exact .rfl
    · exact kind.decode_shift _ _ _
  | struct words fields ih =>
    refine SameButRow.map (.mapM fun f hf ↦ SameButRow.map ?_ _) _
    have hle : rows ≤ f.2.len := h.here f hf
    exact get_narrow_shift (h.inside (w := f.2) (List.mem_map_of_mem hf)) (by omega) hab hj (ih f hf)
  | map key value slots child ih =>
    simp only [readValid, Nat.add_assoc]
    -- The entries are the same ones; only their errors name the row of the map.
    refine SameButRow.rfl.bind fun r ↦ .map (.collect fun i ↦ ?_) _
    exact SameButRow.rfl.bind fun v ↦ pairOf_shift _ _ _ v
  | union words tags alternatives ih =>
    simp only [readValid, Nat.add_assoc]
    split
    · exact .rfl
    next f hf =>
      have hmem : f ∈ alternatives := List.mem_of_getElem? hf
      have hle : rows ≤ f.2.len := h.here.2 f hmem
      have hinside := h.inside (w := f.2) (List.mem_cons_of_mem _ (List.mem_map_of_mem hmem))
      exact (get_narrow_shift hinside (by omega) hab hj (ih f hmem)).map _
  | _ =>
    -- All others are read at a place that is the sum, and do not say which row they are.
    simp only [readValid, Nat.add_assoc]
    exact .rfl

/-- Row `j` of the rows from `a` on is row `a + j`. -/
theorem read_shift (h : layout.Holds rows) (hrows : start + len ≤ rows) (hab : a + b ≤ len)
    (hj : j < b) : SameButRow (layout.read (start + a) b j) (layout.read start len (a + j)) :=
  read_shift_of_readValid h hrows hab hj (readValid_shift h hrows hab hj)

end Layout

namespace Column

variable {ok : Nat → Prop} {d : Column} {a b : Nat}

/-- Row `j` of a narrowed column is row `a + j` of the column. -/
theorem getItem_narrow (h : d.Within ok) (hab : a + b ≤ d.len) {j : Nat} (hj : j < b) :
    SameButRow (getItem (d.narrow a b) j) (d.getItem (a + j)) := by
  rw [getItem_of_lt hj, getItem_of_lt (show a + j < d.len by omega)]
  exact Layout.read_shift h.holds (Nat.le_refl _) hab hj

theorem isValid_narrow (d : Column) (a b j : Nat) : isValid (d.narrow a b) j = d.isValid (a + j) := by
  simp [isValid, Nat.add_assoc]

/-- A column within reach of an opened one, narrowed to `b` rows from row `a` on, has those rows:
their validity, their values at all levels, and their errors up to the row that these name. Narrowing
to all rows changes nothing, and narrowing twice is narrowing once. -/
theorem slice_of_reaches {chunk : Chunk} {config : DecodeConfig} {id count : Nat} {t : LogicalType}
    {c : Column} (hc : decode chunk config id count t = .ok c) (hd : c.Reaches d)
    (hab : a + b ≤ d.len) :
    ∃ w : Column, Window.slice d a b = .ok w ∧ w.len = b ∧ w.type = d.type ∧
      (∀ j < b, w.isValid j = d.isValid (a + j) ∧ SameButRow (w.getItem j) (d.getItem (a + j))) ∧
      Window.slice d 0 d.len = .ok d ∧
      ∀ offset len, offset + len ≤ b → Window.slice w offset len = Window.slice d (a + offset) len := by
  have hopened : c.Within fun _ ↦ True := (isOpened_of_decodeAt chunk.counts_true hc trivial).within
  have hwithin : d.Within fun _ ↦ True := hopened.reaches (fun _ _ ↦ trivial) hd
  refine ⟨d.narrow a b, Window.slice_eq_ok_narrow hab, rfl, rfl, fun j hj ↦ ?_, ?_, ?_⟩
  · exact ⟨isValid_narrow d a b j, getItem_narrow hwithin hab hj⟩
  · rw [Window.slice_eq_ok_narrow (by omega)]
    rfl
  · intro offset len hle
    rw [Window.slice_eq_ok_narrow (by exact hle), Window.slice_eq_ok_narrow (by omega),
      Window.narrow_narrow]

/-- Two maps of one entry each, where the entry of the second one is null. -/
def nullEntry : Chunk where
  vectors := #[
    { type := .map LogicalType.tagType LogicalType.tagType
      data := ([0, 1, 1, 1].flatMap (LittleEndian.ofNat 8)).toArray
      children := [1]
      childCount := 2 },
    { type := .struct (LogicalType.mapEntry LogicalType.tagType LogicalType.tagType)
      validity := some #[1]
      children := [2, 3] },
    { type := LogicalType.tagType, data := #[5, 6] },
    { type := LogicalType.tagType, data := #[7, 8] }]

/-- The second map is refused as row 1 of all maps, and as row 0 of the last one. -/
theorem nullEntry_slice :
    ∃ c w : Column,
      decode nullEntry {} 0 2 (.map LogicalType.tagType LogicalType.tagType) = .ok c ∧
        c.Reaches c ∧ 1 + 1 ≤ c.len ∧ Window.slice c 1 1 = .ok w ∧
        c.getItem 1 = Outcome.refuse (.nullMapEntry 1 0) ∧
        w.getItem 0 = Outcome.refuse (.nullMapEntry 0 0) ∧ SameButRow (w.getItem 0) (c.getItem 1) := by
  obtain ⟨c, w, hc, hslice, hlen, hcolumn, hnarrowed⟩ : ∃ c w : Column,
      decode nullEntry {} 0 2 (.map LogicalType.tagType LogicalType.tagType) = .ok c ∧
        Window.slice c 1 1 = .ok w ∧ c.len = 2 ∧
        c.getItem 1 = Outcome.refuse (.nullMapEntry 1 0) ∧
        w.getItem 0 = Outcome.refuse (.nullMapEntry 0 0) :=
    ⟨_, _, rfl, rfl, rfl, by cbv, by cbv⟩
  have hle : 1 + 1 ≤ c.len := Nat.le_of_eq hlen.symm
  obtain ⟨w', hw', -, -, hrows, -⟩ := slice_of_reaches hc .refl hle
  obtain rfl : w = w' := Except.ok.inj (hslice.symm.trans hw')
  exact ⟨c, w, hc, .refl, hle, hslice, hcolumn, hnarrowed, (hrows 0 (by decide)).2⟩

end Column

end Columnar
