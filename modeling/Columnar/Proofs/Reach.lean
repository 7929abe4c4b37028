import Columnar.Proofs.Rows

/-!
# Columns within reach of a column

What a caller can do with a column it has: narrow it, take the elements of one of its rows, and go
to the columns inside. `Column.Access` lists these steps, and `Column.Reaches` is any finite number
of them, one after the other. A step leaves a column within its buffers if it was so before
(`Within.access`), so no way leads out of them (`Within.reaches`), and a step that is in range does
not break off (`access_unbroken`).
-/

namespace Columnar.Column

/-- A step from a column to one that is made of parts of it. -/
inductive Access where
  | slice (offset count : Nat)
  /-- The elements of the list or the array in a row. -/
  | elements (row : Nat)
  | field (index : Nat)
  | fieldNamed (name : String)
  | alternative (index : Nat)
  | alternativeTagged (tag : String)
  /-- The rows that elements are taken from. -/
  | child
  /-- The lists that maps are made of. -/
  | entries
  /-- The structs that unions are made of. -/
  | members

/-- The column that a step leads to, if it leads to one. -/
def access (c : Column) : Access → Outcome (Option Column)
  | .slice offset count => some <$> Window.slice c offset count
  | .elements row => c.elements row
  | .field index => c.field index
  | .fieldNamed name => c.fieldNamed name
  | .alternative index => c.alternative index
  | .alternativeTagged tag => c.alternativeTagged tag
  | .child => some <$> c.child
  | .entries => some <$> c.entries
  | .members => some <$> c.members

/-- What a caller has to see to: that the rows are rows of the column. -/
def Access.InRange (c : Column) : Access → Prop
  | .slice offset count => offset + count ≤ c.len
  | .elements row => row < c.len
  | .field _ | .fieldNamed _ | .alternative _ | .alternativeTagged _ | .child | .entries
  | .members => True

/-- The second column is got to from the first one by finitely many steps in range. -/
inductive Reaches (c : Column) : Column → Prop where
  | refl : Reaches c c
  | step {d e : Column} (h : Reaches c d) (a : Access) (hrange : a.InRange d)
      (ha : d.access a = .ok (some e)) : Reaches c e

variable {ok : Nat → Prop} {c d : Column}

/-! ### One step -/

theorem narrowed_eq_ok_iff {columns : List (String × Column)} {index : Nat} :
    c.narrowed columns index = .ok (some d) ↔
      ∃ f, columns[index]? = some f ∧ c.start + c.len ≤ f.2.len ∧ d = f.2.narrow c.start c.len := by
  rw [narrowed]
  split
  next name column hf =>
    simp only [map_eq_ok_iff, Window.slice_eq_ok_iff, Option.some.injEq, hf]
    constructor
    · rintro ⟨_, ⟨hle, rfl⟩, rfl⟩
      exact ⟨_, rfl, hle, rfl⟩
    · rintro ⟨_, rfl, hle, rfl⟩
      exact ⟨_, ⟨hle, rfl⟩, rfl⟩
  next hf => simp [hf]

/-- The elements of a row are rows of a column inside. -/
theorem elements_eq_ok {row : Nat} (h : c.elements row = .ok (some d)) :
    ∃ w ∈ c.content.windows, ∃ offset count, offset + count ≤ w.len ∧ d = w.narrow offset count := by
  obtain ⟨layout, start, len⟩ := c
  cases layout with
  | list slots child =>
    simp only [elements, bind_eq_ok_iff] at h
    obtain ⟨_ | ⟨offset, count⟩, -, h⟩ := h
    · simp at h
    · simp only [bind_eq_ok_iff, Window.slice_eq_ok_iff, pure_eq_ok, Except.ok.injEq,
        Option.some.injEq] at h
      obtain ⟨_, ⟨hle, rfl⟩, rfl⟩ := h
      exact ⟨child, by simp [Layout.windows], offset, count, hle, rfl⟩
  | array length words child =>
    simp only [elements, bind_eq_ok_iff, Outcome.assert_eq_ok, exists_const] at h
    obtain ⟨-, h⟩ := h
    split at h
    · simp only [bind_eq_ok_iff, Window.slice_eq_ok_iff, pure_eq_ok, Except.ok.injEq,
        Option.some.injEq] at h
      obtain ⟨_, ⟨hle, rfl⟩, rfl⟩ := h
      exact ⟨child, by simp [Layout.windows], _, _, hle, rfl⟩
    · simp at h
  | _ => simp [elements] at h

/-- A member of a list of named columns, narrowed, is narrowed from one of the columns. -/
theorem narrowed_eq_ok {columns : List (String × Column)} {index : Nat}
    (h : c.narrowed columns index = .ok (some d)) :
    ∃ w ∈ columns.map (·.2), ∃ offset count, offset + count ≤ w.len ∧ d = w.narrow offset count := by
  obtain ⟨f, hf, hle, rfl⟩ := narrowed_eq_ok_iff.1 h
  exact ⟨f.2, List.mem_map_of_mem (List.mem_of_getElem? hf), _, _, hle, rfl⟩

theorem field_eq_ok {index : Nat} (h : c.field index = .ok (some d)) :
    ∃ w ∈ c.content.windows, ∃ offset count, offset + count ≤ w.len ∧ d = w.narrow offset count := by
  rw [field] at h
  split at h
  next words fields hc =>
    rw [hc]
    exact narrowed_eq_ok h
  next => simp [Outcome.refuse] at h

theorem fieldNamed_eq_ok {name : String} (h : c.fieldNamed name = .ok (some d)) :
    ∃ index, c.field index = .ok (some d) := by
  rw [fieldNamed] at h
  split at h
  next words fields hc =>
    split at h
    next index hindex => exact ⟨index, by simpa only [field, hc] using h⟩
    next => simp at h
  next => simp [Outcome.refuse] at h

theorem alternative_eq_ok {index : Nat} (h : c.alternative index = .ok (some d)) :
    ∃ w ∈ c.content.windows, ∃ offset count, offset + count ≤ w.len ∧ d = w.narrow offset count := by
  rw [alternative] at h
  split at h
  next words tags alternatives hc =>
    obtain ⟨w, hw, hd⟩ := narrowed_eq_ok h
    rw [hc]
    exact ⟨w, List.mem_cons_of_mem _ hw, hd⟩
  next => simp [Outcome.refuse] at h

theorem alternativeTagged_eq_ok {tag : String} (h : c.alternativeTagged tag = .ok (some d)) :
    ∃ index, c.alternative index = .ok (some d) := by
  rw [alternativeTagged] at h
  split at h
  next words tags alternatives hc =>
    split at h
    next index hindex => exact ⟨index, by simpa only [alternative, hc] using h⟩
    next => simp at h
  next => simp [Outcome.refuse] at h

theorem child_mem_windows (h : c.child = .ok d) : d ∈ c.content.windows := by
  obtain ⟨layout, start, len⟩ := c
  cases layout <;> simp_all [child, Layout.windows, Outcome.refuse]

theorem entries_eq_ok_iff :
    c.entries = .ok d ↔ ∃ key value slots child, c.content = .map key value slots child ∧
      d = ⟨.list slots child, c.start, c.len⟩ := by
  rw [entries]
  split <;> simp_all [Outcome.refuse, eq_comm]

theorem members_eq_ok_iff :
    c.members = .ok d ↔ ∃ words tags alternatives, c.content = .union words tags alternatives ∧
      d = ⟨.struct words (("tag", ofFixed (.integer .uTinyInt) tags) :: alternatives),
        c.start, c.len⟩ := by
  rw [members]
  split <;> simp_all [Outcome.refuse, eq_comm, ofFixed]

/-- All that a step can do: narrow the column, go to a column inside and narrow that, or take a map
or a union for what it is stored as. -/
theorem access_cases {a : Access} (h : c.access a = .ok (some d)) :
    (∃ offset count, offset + count ≤ c.len ∧ d = c.narrow offset count) ∨
    (∃ w ∈ c.content.windows, ∃ offset count, offset + count ≤ w.len ∧ d = w.narrow offset count) ∨
    c.entries = .ok d ∨ c.members = .ok d := by
  cases a with
  | slice offset count =>
    obtain ⟨_, hslice, heq⟩ := map_eq_ok_iff.1 h
    obtain ⟨hle, rfl⟩ := Window.slice_eq_ok_iff.1 hslice
    exact .inl ⟨offset, count, hle, (Option.some.inj heq).symm⟩
  | elements row => exact .inr (.inl (elements_eq_ok h))
  | field index => exact .inr (.inl (field_eq_ok h))
  | fieldNamed name =>
    obtain ⟨index, h⟩ := fieldNamed_eq_ok h
    exact .inr (.inl (field_eq_ok h))
  | alternative index => exact .inr (.inl (alternative_eq_ok h))
  | alternativeTagged tag =>
    obtain ⟨index, h⟩ := alternativeTagged_eq_ok h
    exact .inr (.inl (alternative_eq_ok h))
  | child =>
    obtain ⟨w, hw, rfl⟩ : ∃ w, c.child = .ok w ∧ w = d := by simpa [access, map_eq_ok_iff] using h
    exact .inr (.inl ⟨w, child_mem_windows hw, 0, w.len, by omega, rfl⟩)
  | entries => exact .inr (.inr (.inl (by simpa [access, map_eq_ok_iff] using h)))
  | members => exact .inr (.inr (.inr (by simpa [access, map_eq_ok_iff] using h)))

/-- A step out of a column within its buffers leads to such a column. -/
theorem Within.access (hok : ∀ {n m}, ok n → m ≤ n → ok m) (h : c.Within ok) {a : Access}
    (ha : c.access a = .ok (some d)) : d.Within ok := by
  rcases access_cases ha with ⟨_, _, hle, rfl⟩ | ⟨w, hw, _, _, hle, rfl⟩ | ha | ha
  · exact h.narrow hok hle
  · exact (h.inside hw).narrow hok hle
  · obtain ⟨key, value, slots, child, hc, rfl⟩ := entries_eq_ok_iff.1 ha
    rw [Within] at h
    rw [hc] at h
    obtain ⟨⟨hwidth, hholds, -⟩, hrows⟩ := h.here
    exact .intro ⟨⟨hwidth, hholds⟩, hrows⟩ fun _ hw ↦ h.inside hw
  · obtain ⟨words, tags, alternatives, hc, rfl⟩ := members_eq_ok_iff.1 ha
    rw [Within] at h
    rw [hc] at h
    obtain ⟨⟨htags, halternatives⟩, hrows⟩ := h.here
    refine .intro ⟨fun f hf ↦ ?_, hrows⟩ fun _ hw ↦ h.inside hw
    rcases List.mem_cons.1 hf with rfl | hf
    · exact htags
    · exact halternatives f hf

/-- Whatever is within reach of a column within its buffers lies within its buffers. -/
theorem Within.reaches (hok : ∀ {n m}, ok n → m ≤ n → ok m) (h : c.Within ok) (hd : c.Reaches d) :
    d.Within ok := by
  induction hd with
  | refl => exact h
  | step _ _ _ ha ih => exact ih.access hok ha

/-! ### Steps in range do not break off -/

theorem narrowed_unbroken {columns : List (String × Column)} {index : Nat}
    (h : ∀ f ∈ columns, c.start + c.len ≤ f.2.len) : (c.narrowed columns index).Unbroken := by
  rw [narrowed]
  split
  next name column hf =>
    rw [Window.slice_eq_ok_narrow (h _ (List.mem_of_getElem? hf))]
    exact Outcome.unbroken_ok _
  next => exact Outcome.unbroken_ok _

theorem elements_unbroken (h : c.Within ok) {row : Nat} (hrow : row < c.len) :
    (c.elements row).Unbroken := by
  obtain ⟨layout, start, len⟩ := c
  have hfits := h.here.1
  cases layout with
  | list slots child =>
    dsimp only [elements]
    rw [Layout.listRange_bind_of_holds hfits.2 (Nat.le_refl _) hrow]
    split
    · -- Entries are within the child, so the elements are rows of it.
      refine Layout.entryRange_unbroken.bind fun r hr ↦ ?_
      obtain ⟨offset, count⟩ := r
      simp only [Window.slice_eq_ok_narrow (Layout.entryRange_eq_ok_iff.1 hr).2]
      exact Outcome.unbroken_ok _
    · exact Outcome.unbroken_ok _
  | array length words child =>
    refine (Outcome.unbroken_assert (by simpa using hrow)).bind fun _ _ ↦ ?_
    split
    · have hlt : start + row < start + len := Nat.add_lt_add_left hrow start
      rw [Window.slice_eq_ok_narrow (Layout.array_row_le hfits hlt)]
      exact Outcome.unbroken_ok _
    · exact Outcome.unbroken_ok _
  | _ => exact Outcome.unbroken_ok _

theorem field_unbroken (h : c.Within ok) {index : Nat} : (c.field index).Unbroken := by
  obtain ⟨layout, start, len⟩ := c
  cases layout with
  | struct words fields => exact narrowed_unbroken h.here.1
  | _ => exact Outcome.unbroken_refuse _

theorem fieldNamed_unbroken (h : c.Within ok) {name : String} : (c.fieldNamed name).Unbroken := by
  obtain ⟨layout, start, len⟩ := c
  cases layout with
  | struct words fields =>
    dsimp only [fieldNamed]
    split
    · exact narrowed_unbroken h.here.1
    · exact Outcome.unbroken_ok _
  | _ => exact Outcome.unbroken_refuse _

theorem alternative_unbroken (h : c.Within ok) {index : Nat} : (c.alternative index).Unbroken := by
  obtain ⟨layout, start, len⟩ := c
  cases layout with
  | union words tags alternatives => exact narrowed_unbroken h.here.1.2
  | _ => exact Outcome.unbroken_refuse _

theorem alternativeTagged_unbroken (h : c.Within ok) {tag : String} :
    (c.alternativeTagged tag).Unbroken := by
  obtain ⟨layout, start, len⟩ := c
  cases layout with
  | union words tags alternatives =>
    dsimp only [alternativeTagged]
    split
    · exact narrowed_unbroken h.here.1.2
    · exact Outcome.unbroken_ok _
  | _ => exact Outcome.unbroken_refuse _

theorem child_unbroken : c.child.Unbroken := by
  obtain ⟨layout, start, len⟩ := c
  cases layout <;> simp [child]

theorem entries_unbroken : c.entries.Unbroken := by
  obtain ⟨layout, start, len⟩ := c
  cases layout <;> simp [entries]

theorem members_unbroken : c.members.Unbroken := by
  obtain ⟨layout, start, len⟩ := c
  cases layout <;> simp [members]

/-- A step in range out of a column within its buffers does not break off. -/
theorem access_unbroken (h : c.Within ok) {a : Access} (ha : a.InRange c) :
    (c.access a).Unbroken := by
  cases a with
  | slice offset count =>
    rw [access, Window.slice_eq_ok_narrow ha]
    exact Outcome.unbroken_ok _
  | elements row => exact elements_unbroken h ha
  | field index => exact field_unbroken h
  | fieldNamed name => exact fieldNamed_unbroken h
  | alternative index => exact alternative_unbroken h
  | alternativeTagged tag => exact alternativeTagged_unbroken h
  | child => exact child_unbroken.map _
  | entries => exact entries_unbroken.map _
  | members => exact members_unbroken.map _

end Columnar.Column
