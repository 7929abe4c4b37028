import Columnar.Proofs.MapsAndUnions

/-!
# Where columns come from

Whatever is within reach of an opened column is a run of rows of a column that was opened from a
vector of the same chunk (`exists_decodeAt_of_reaches`). So what is true of all runs of rows of
opened columns, at any level and of any type, is true of all columns that there are.

One step down, this is a fact about each type: the columns inside an opened one were opened
themselves (`exists_decodeAt_of_mem_windows`).
-/

namespace Columnar.Column

variable {chunk : Chunk} {config : DecodeConfig} {depth id count : Nat} {t : LogicalType}
  {c d w : Column}

theorem windows_of_entries (hd : c.entries = .ok d) : c.content.windows = d.content.windows := by
  obtain ⟨key, value, slots, child, hc, rfl⟩ := entries_eq_ok_iff.1 hd
  rw [hc]
  rfl

theorem windows_of_members (hd : c.members = .ok d) : c.content.windows = d.content.windows := by
  obtain ⟨words, tags, alternatives, hc, rfl⟩ := members_eq_ok_iff.1 hd
  rw [hc]
  rfl

theorem exists_decodeAt_of_mem_list {element : LogicalType}
    (h : decodeAt chunk config depth id count (.list element) = .ok c)
    (hw : w ∈ c.content.windows) :
    ∃ child childCount, decodeAt chunk config (depth + 1) child childCount element = .ok w := by
  obtain ⟨slots, child, childCount, elements, -, -, helements, -, rfl, -⟩ :=
    decodeList_eq_ok_iff.1 (decodeAt_list_eq_ok_iff.1 h).2
  obtain rfl := List.mem_singleton.1 hw
  exact ⟨child, childCount, helements⟩

/-- The columns inside an opened column were opened from vectors of the chunk. -/
theorem exists_decodeAt_of_mem_windows (h : decodeAt chunk config depth id count t = .ok c)
    (hw : w ∈ c.content.windows) :
    ∃ depth id count t, decodeAt chunk config depth id count t = .ok w := by
  cases t with
  | fixed kind =>
    obtain ⟨-, slots, -, rfl⟩ := decodeAt_fixed_eq_ok_iff.1 h
    exact absurd hw List.not_mem_nil
  | string kind =>
    obtain ⟨-, slots, -, rfl⟩ := decodeAt_string_eq_ok_iff.1 h
    exact absurd hw List.not_mem_nil
  | decimal type =>
    obtain ⟨-, width, slots, -, -, rfl⟩ :=
      decodeDecimal_eq_ok_iff.1 (decodeAt_decimal_eq_ok_iff.1 h).2
    exact absurd hw List.not_mem_nil
  | enumeration type =>
    obtain ⟨-, slots, -, rfl⟩ := decodeAt_enumeration_eq_ok_iff.1 h
    exact absurd hw List.not_mem_nil
  | list element =>
    obtain ⟨child, childCount, hchild⟩ := exists_decodeAt_of_mem_list h hw
    exact ⟨_, _, _, _, hchild⟩
  | struct fields =>
    obtain ⟨f, -, child, hchild⟩ := exists_decodeAt_of_mem_struct h hw
    exact ⟨_, _, _, _, hchild⟩
  | map key value =>
    obtain ⟨lists, hentries, hlists⟩ := exists_entries_of_map h
    obtain ⟨child, childCount, hchild⟩ :=
      exists_decodeAt_of_mem_list hlists (windows_of_entries hentries ▸ hw)
    exact ⟨_, _, _, _, hchild⟩
  | array element length =>
    obtain ⟨-, -, child, elements, -, helements, -, -, rfl⟩ :=
      decodeArray_eq_ok_iff.1 (decodeAt_array_eq_ok_iff.1 h).2
    obtain rfl := List.mem_singleton.1 hw
    exact ⟨_, _, _, _, helements⟩
  | union alternatives =>
    obtain ⟨structs, hmembers, hstructs⟩ := exists_members_of_union h
    obtain ⟨f, -, child, hchild⟩ :=
      exists_decodeAt_of_mem_struct hstructs (windows_of_members hmembers ▸ hw)
    exact ⟨_, _, _, _, hchild⟩
  | other id => exact absurd h decodeAt_other_ne_ok

/-- Maps within reach are stored as lists that were opened as well. -/
theorem exists_entries_of_narrow (hw : decodeAt chunk config depth id count t = .ok w) {a b : Nat}
    (hd : Column.entries (w.narrow a b) = .ok d) :
    ∃ t l, decodeAt chunk config depth id count t = .ok l ∧ l.len = w.len ∧ d = l.narrow a b := by
  obtain ⟨key, value, slots, child, hc, -⟩ := entries_eq_ok_iff.1 hd
  obtain rfl : t = .map key value := by
    rw [← (isOpened_of_decodeAt chunk.counts_true hw trivial).type_eq, type,
      show w.content = .map key value slots child from hc, Layout.type]
  obtain ⟨l, hentries, hl⟩ := exists_entries_of_map hw
  refine ⟨_, l, hl, ?_, Except.ok.inj (hd.symm.trans (entries_narrow hentries))⟩
  exact (isOpened_of_decodeAt chunk.counts_true hl trivial).len_eq.trans
    (isOpened_of_decodeAt chunk.counts_true hw trivial).len_eq.symm

/-- Unions within reach are stored as structs that were opened as well. -/
theorem exists_members_of_narrow (hw : decodeAt chunk config depth id count t = .ok w) {a b : Nat}
    (hd : Column.members (w.narrow a b) = .ok d) :
    ∃ t s, decodeAt chunk config depth id count t = .ok s ∧ s.len = w.len ∧ d = s.narrow a b := by
  obtain ⟨words, tags, alternatives, hc, -⟩ := members_eq_ok_iff.1 hd
  obtain rfl : t = .union (Layout.fieldTypes alternatives) := by
    rw [← (isOpened_of_decodeAt chunk.counts_true hw trivial).type_eq, type,
      show w.content = .union words tags alternatives from hc, Layout.type]
  obtain ⟨s, hmembers, hs⟩ := exists_members_of_union hw
  refine ⟨_, s, hs, ?_, Except.ok.inj (hd.symm.trans (members_narrow hmembers))⟩
  exact (isOpened_of_decodeAt chunk.counts_true hs trivial).len_eq.trans
    (isOpened_of_decodeAt chunk.counts_true hw trivial).len_eq.symm

/-- Whatever is within reach of an opened column is a run of rows of a column opened from the same
chunk. -/
theorem exists_decodeAt_of_reaches (hc : decodeAt chunk config depth id count t = .ok c)
    (hd : c.Reaches d) :
    ∃ depth id count t, ∃ w : Column, decodeAt chunk config depth id count t = .ok w ∧
      ∃ a b, a + b ≤ w.len ∧ d = w.narrow a b := by
  induction hd with
  | refl => exact ⟨_, _, _, _, c, hc, 0, c.len, by omega, rfl⟩
  | @step d e _ access _ ha ih =>
    obtain ⟨_, _, _, _, w, hw, a, b, hab, rfl⟩ := ih
    rcases access_cases ha with ⟨offset, n, hle, rfl⟩ | ⟨v, hv, offset, n, hle, rfl⟩ | he | he
    · have hle : offset + n ≤ b := hle
      exact ⟨_, _, _, _, w, hw, a + offset, n, by omega, Window.narrow_narrow ..⟩
    · obtain ⟨_, _, _, _, hv⟩ := exists_decodeAt_of_mem_windows hw hv
      exact ⟨_, _, _, _, v, hv, offset, n, hle, rfl⟩
    · obtain ⟨_, l, hl, hlen, rfl⟩ := exists_entries_of_narrow hw he
      exact ⟨_, _, _, _, l, hl, a, b, hlen ▸ hab, rfl⟩
    · obtain ⟨_, s, hs, hlen, rfl⟩ := exists_members_of_narrow hw he
      exact ⟨_, _, _, _, s, hs, a, b, hlen ▸ hab, rfl⟩

end Columnar.Column
