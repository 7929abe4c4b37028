import Columnar.Proofs.Origin

/-!
# Checking list entries early

The entries of lists and maps are checked when a row is read, or, if the configuration asks for it,
all of them when the column is opened. The early check is nothing but the late one made for every
row that is not null, at every level: opening with it succeeds exactly if opening without it does and
all entries lie within their child (`Column.EntriesLie`), and the column is the same one
(`Column.decode_eager_iff`). No row of such a column is refused for its entry later.

Opening is compared by induction on the type (`Column.checksEntries`). What is read afterwards is
compared by induction on the layout, and needs to be said of opened columns alone, as all columns
within reach are runs of rows of such (`exists_decodeAt_of_reaches`).
-/

namespace Columnar

/-! ### Entries that lie within their child -/

namespace Layout

/-- The entries of the first `rows` rows lie within the child, those of null rows apart. Only lists
and maps have entries. -/
def EntriesLie : Layout → Nat → Prop
  | .list slots child, rows | .map _ _ slots child, rows =>
    ∀ i < rows, slots.words.isValid i = true →
      (entryOf (slots.bytes i)).1 + (entryOf (slots.bytes i)).2 ≤ child.len
  | .fixed .., _ | .string .., _ | .decimal .., _ | .enumeration .., _ | .struct .., _ | .array .., _
  | .union .., _ => True

theorem EntriesLie.mono {layout : Layout} {rows fewer : Nat} (h : layout.EntriesLie rows)
    (hle : fewer ≤ rows) : layout.EntriesLie fewer := by
  cases layout with
  | list slots child => exact fun i hi ↦ h i (Nat.lt_of_lt_of_le hi hle)
  | map key value slots child => exact fun i hi ↦ h i (Nat.lt_of_lt_of_le hi hle)
  | _ => trivial

theorem everywhere_iff {P : Layout → Nat → Prop} {layout : Layout} {rows : Nat} :
    layout.Everywhere P rows ↔
      P layout rows ∧ ∀ w ∈ layout.windows, w.content.Everywhere P (w.start + w.len) :=
  ⟨fun h ↦ ⟨h.here, fun _ hw ↦ h.inside hw⟩, fun h ↦ .intro h.1 h.2⟩

end Layout

namespace Column

variable {c d : Column}

/-- In the column and in all columns inside, the entry of each list or map that is not null lies
within the child. -/
def EntriesLie (c : Column) : Prop := c.content.Everywhere Layout.EntriesLie (c.start + c.len)

theorem entriesLie_iff :
    c.EntriesLie ↔
      c.content.EntriesLie (c.start + c.len) ∧ ∀ w ∈ c.content.windows, w.EntriesLie :=
  Layout.everywhere_iff

theorem EntriesLie.narrow (h : c.EntriesLie) {a b : Nat} (hab : a + b ≤ c.len) :
    EntriesLie (c.narrow a b) :=
  Layout.Everywhere.mono (fun h ↦ h.mono) h (show c.start + a + b ≤ c.start + c.len by omega)

/-- Maps have the entries of the lists that they are stored as. -/
theorem entriesLie_of_ofEntries {key value : LogicalType} (h : ofEntries key value d = .ok c) :
    c.EntriesLie ↔ d.EntriesLie := by
  obtain ⟨layout, start, len⟩ := d
  cases layout with
  | list slots child =>
    obtain ⟨-, rfl⟩ := ofEntries_eq_ok_iff.1 h
    rw [entriesLie_iff, entriesLie_iff]
    rfl
  | _ => simp [ofEntries, Outcome.refuse] at h

/-- Neither unions nor structs have entries of their own. -/
theorem entriesLie_of_ofMembers {alternatives : List (String × LogicalType)}
    (h : ofMembers alternatives d = .ok c) : c.EntriesLie ↔ d.EntriesLie := by
  obtain ⟨layout, start, len⟩ := d
  cases layout with
  | struct words fields =>
    obtain ⟨-, name, tags, rest, rfl, rfl⟩ := ofMembers_eq_ok_iff.1 h
    rw [entriesLie_iff, entriesLie_iff]
    rfl
  | _ => simp [ofMembers, Outcome.refuse] at h

/-- The check of all entries passes exactly if they lie within the child. -/
theorem validateEntries_eq_ok_iff {slots : Slots} {child : Column} {len : Nat}
    (h : slots.Holds len) :
    validateEntries ⟨.list slots child, 0, len⟩ = .ok () ↔
      (Layout.list slots child).EntriesLie len := by
  rw [validateEntries, forM_eq_ok_iff]
  refine forall_congr' fun i ↦ ?_
  rw [List.mem_range]
  refine forall_congr' fun hi ↦ ?_
  show (Layout.listRange slots 0 len i child.len >>= fun _ ↦ pure ()) = .ok () ↔ _
  rw [Layout.listRange_bind_of_holds h (Nat.le_of_eq (Nat.zero_add len)) hi, Nat.zero_add]
  split
  next hvalid =>
    simp only [hvalid, bind_eq_ok_iff, Prod.exists, Layout.entryRange_eq_ok_iff, pure_eq_ok,
      and_true, forall_const]
    constructor
    · rintro ⟨offset, count, hentry, hle⟩
      rwa [hentry]
    · exact fun hle ↦ ⟨_, _, rfl, hle⟩
  next hvalid => simp [hvalid]

/-! ### Opening with and without the check -/

section Opening

variable {chunk : Chunk} {config : DecodeConfig} {t : LogicalType}

/-- Opening vectors as columns of the type with the check succeeds exactly if it does so without, and
all entries lie within their child. -/
def ChecksEntries (chunk : Chunk) (config : DecodeConfig) (t : LogicalType) : Prop :=
  ∀ depth id count c,
    decodeAt chunk { config with eagerListValidation := true } depth id count t = .ok c ↔
      decodeAt chunk { config with eagerListValidation := false } depth id count t = .ok c ∧
        c.EntriesLie

/-- Leaves have no entries, and their opening takes no notice of the check. -/
theorem checksEntries_leaf
    (hsame : ∀ depth id count,
      decodeAt chunk { config with eagerListValidation := true } depth id count t =
        decodeAt chunk { config with eagerListValidation := false } depth id count t)
    (hleaf : ∀ {depth id count c},
      decodeAt chunk { config with eagerListValidation := false } depth id count t = .ok c →
        c.EntriesLie) : ChecksEntries chunk config t := by
  intro depth id count c
  rw [hsame]
  exact ⟨fun h ↦ ⟨h, hleaf h⟩, And.left⟩

theorem checksEntries_fixed (kind : FixedKind) : ChecksEntries chunk config (.fixed kind) :=
  checksEntries_leaf (fun _ _ _ ↦ rfl) fun h ↦ by
    obtain ⟨-, w, -, rfl⟩ := decodeAt_fixed_eq_ok_iff.1 h
    exact .intro trivial (by simp [ofFixed, Layout.windows])

/-- The entries of a list are checked behind those of its elements. -/
theorem checksEntries_list {element : LogicalType} (h : ChecksEntries chunk config element) :
    ChecksEntries chunk config (.list element) := by
  intro depth id count c
  rw [decodeAt_list_eq_ok_iff, decodeAt_list_eq_ok_iff, and_assoc]
  refine and_congr_right fun _ ↦ ?_
  rw [decodeList_eq_ok_iff, decodeList_eq_ok_iff]
  constructor
  · rintro ⟨slots, child, childCount, elements, hslots, hchild, helements, htype, rfl, hvalid⟩
    obtain ⟨helements, hinside⟩ := (h _ _ _ _).1 helements
    obtain ⟨hstart, hlen, -, -, hholds⟩ := Chunk.slots_spec hslots
    refine ⟨⟨slots, child, childCount, elements, hslots, hchild, helements, htype, rfl, nofun⟩, ?_⟩
    have hhere := hvalid rfl
    rw [hstart, hlen, validateEntries_eq_ok_iff hholds] at hhere
    refine entriesLie_iff.2 ⟨?_, by simpa [Layout.windows] using hinside⟩
    rwa [hstart, hlen, Nat.zero_add]
  · rintro ⟨⟨slots, child, childCount, elements, hslots, hchild, helements, htype, rfl, -⟩, hlie⟩
    obtain ⟨hstart, hlen, -, -, hholds⟩ := Chunk.slots_spec hslots
    obtain ⟨hhere, hinside⟩ := entriesLie_iff.1 hlie
    have helements := (h _ _ _ _).2 ⟨helements, hinside elements (by simp [Layout.windows])⟩
    refine ⟨slots, child, childCount, elements, hslots, hchild, helements, htype, rfl, fun _ ↦ ?_⟩
    rw [hstart, hlen, Nat.zero_add] at hhere
    rw [hstart, hlen]
    exact (validateEntries_eq_ok_iff hholds).2 hhere

theorem checksEntries_array {element : LogicalType} {length : UInt64}
    (h : ChecksEntries chunk config element) :
    ChecksEntries chunk config (.array element length) := by
  intro depth id count c
  rw [decodeAt_array_eq_ok_iff, decodeAt_array_eq_ok_iff, and_assoc]
  refine and_congr_right fun _ ↦ ?_
  rw [decodeArray_eq_ok_iff, decodeArray_eq_ok_iff]
  constructor
  · rintro ⟨hcov, hlt, child, elements, hchild, helements, htype, hle, rfl⟩
    obtain ⟨helements, hinside⟩ := (h _ _ _ _).1 helements
    refine ⟨⟨hcov, hlt, child, elements, hchild, helements, htype, hle, rfl⟩, ?_⟩
    exact entriesLie_iff.2 ⟨trivial, by simpa [Layout.windows, Window.whole] using hinside⟩
  · rintro ⟨⟨hcov, hlt, child, elements, hchild, helements, htype, hle, rfl⟩, hlie⟩
    have hinside := (entriesLie_iff.1 hlie).2 elements (by simp [Layout.windows, Window.whole])
    exact ⟨hcov, hlt, child, elements, hchild, (h _ _ _ _).2 ⟨helements, hinside⟩, htype, hle, rfl⟩

/-- A struct has no entries of its own, so all there are to check are those of its fields. -/
theorem checksEntries_struct {fields : List (String × LogicalType)}
    (h : ∀ f ∈ fields, ChecksEntries chunk config f.2) :
    ChecksEntries chunk config (.struct fields) := by
  intro depth id count c
  have hfield : ∀ f ∈ fields.zipIdx, ∀ col,
      (∃ child, chunk.structChild id f.2 = .ok child ∧
        decodeAt chunk { config with eagerListValidation := true } (depth + 1) child count f.1.2 =
          .ok col) ↔
      (∃ child, chunk.structChild id f.2 = .ok child ∧
        decodeAt chunk { config with eagerListValidation := false } (depth + 1) child count f.1.2 =
          .ok col) ∧ col.EntriesLie := by
    intro f hf col
    have hmem : f.1 ∈ fields := (List.mem_zipIdx' hf).2 ▸ List.getElem_mem _
    simp only [h f.1 hmem _ _ _ _, ← and_assoc, exists_and_right]
  rw [decodeAt_struct_eq_ok_iff_forall₂, decodeAt_struct_eq_ok_iff_forall₂, and_assoc, and_assoc]
  refine and_congr_right fun _ ↦ and_congr_right fun _ ↦ ?_
  simp only [forall₂_iff_and hfield, ← exists_and_right, and_assoc]
  refine exists_congr fun columns ↦ and_congr_right fun hcolumns ↦ ?_
  have hlen : columns.length ≤ (fields.map (·.1)).length := by simpa using hcolumns.length_eq.ge
  constructor
  · rintro ⟨hinside, rfl⟩
    refine ⟨rfl, entriesLie_iff.2 ⟨trivial, ?_⟩⟩
    rwa [Window.whole, Layout.windows, List.map_snd_zip hlen]
  · rintro ⟨rfl, hlie⟩
    obtain ⟨-, hinside⟩ := entriesLie_iff.1 hlie
    rw [Window.whole, Layout.windows, List.map_snd_zip hlen] at hinside
    exact ⟨hinside, rfl⟩

/-- A column made of a checked one with the same entries is checked by that. -/
theorem checksEntries_of_bind {u : LogicalType} {make : Column → Outcome Column}
    (ht : ∀ {config : DecodeConfig} {depth id count : Nat},
      decodeAt chunk config depth id count t = decodeAt chunk config depth id count u >>= make)
    (hmake : ∀ {c d}, make d = .ok c → (c.EntriesLie ↔ d.EntriesLie))
    (hu : ChecksEntries chunk config u) : ChecksEntries chunk config t := by
  intro depth id count c
  rw [ht, ht, bind_eq_ok_iff, bind_eq_ok_iff, ← exists_and_right]
  refine exists_congr fun d ↦ ?_
  rw [hu, and_assoc, and_assoc]
  refine and_congr_right fun _ ↦ ?_
  rw [and_comm]
  exact and_congr_right fun hc ↦ (hmake hc).symm

theorem checksEntries_map {key value : LogicalType} (hkey : ChecksEntries chunk config key)
    (hvalue : ChecksEntries chunk config value) : ChecksEntries chunk config (.map key value) := by
  refine checksEntries_of_bind decodeAt_map entriesLie_of_ofEntries (checksEntries_list ?_)
  refine checksEntries_struct fun f hf ↦ ?_
  rcases List.mem_pair.1 hf with rfl | rfl
  · exact hkey
  · exact hvalue

theorem checksEntries_union {alternatives : List (String × LogicalType)}
    (h : ∀ a ∈ alternatives, ChecksEntries chunk config a.2) :
    ChecksEntries chunk config (.union alternatives) := by
  refine checksEntries_of_bind decodeAt_union entriesLie_of_ofMembers ?_
  refine checksEntries_struct fun f hf ↦ ?_
  rcases List.mem_cons.1 hf with rfl | hf
  · exact checksEntries_fixed _
  · exact h f hf

/-- The check succeeds exactly if all entries lie within their child, for all types. -/
theorem checksEntries (chunk : Chunk) (config : DecodeConfig) (t : LogicalType) :
    ChecksEntries chunk config t := by
  induction t using LogicalType.inductionOn with
  | fixed kind => exact checksEntries_fixed kind
  | string kind =>
    refine checksEntries_leaf (fun _ _ _ ↦ rfl) fun h ↦ ?_
    obtain ⟨-, w, -, rfl⟩ := decodeAt_string_eq_ok_iff.1 h
    exact .intro trivial (by simp [ofStrings, Layout.windows])
  | decimal type =>
    refine checksEntries_leaf (fun _ _ _ ↦ rfl) fun h ↦ ?_
    obtain ⟨-, width, w, -, -, rfl⟩ :=
      decodeDecimal_eq_ok_iff.1 (decodeAt_decimal_eq_ok_iff.1 h).2
    exact .intro trivial (by simp [ofDecimals, Layout.windows])
  | enumeration type =>
    refine checksEntries_leaf (fun _ _ _ ↦ rfl) fun h ↦ ?_
    obtain ⟨-, w, -, rfl⟩ := decodeAt_enumeration_eq_ok_iff.1 h
    exact .intro trivial (by simp [ofIndices, Layout.windows])
  | list element ih => exact checksEntries_list ih
  | struct fields ih => exact checksEntries_struct ih
  | map key value ihKey ihValue => exact checksEntries_map ihKey ihValue
  | array element length ih => exact checksEntries_array ih
  | union alternatives ih => exact checksEntries_union ih
  | other id => exact checksEntries_leaf (fun _ _ _ ↦ rfl) fun h ↦ absurd h decodeAt_other_ne_ok

end Opening

end Column

/-! ### Reading without the late check -/

/-- The computation does not fail because of the entry of a list. -/
abbrev Outcome.PassesEntries {α : Type} (x : Outcome α) : Prop :=
  x.FailsOnly fun failure ↦ failure ≠ .error (.data .listEntry)

open Outcome

theorem StringKind.passesEntries_decode (kind : StringKind) (row : Nat) (bytes : List UInt8) :
    (kind.decode row bytes).PassesEntries := by
  cases kind with
  | varchar =>
    refine FailsOnly.map ?_ _
    rw [Text.Utf8.decode]
    split
    · exact failsOnly_ok _
    · exact failsOnly_refuse_iff.2 (by rintro ⟨⟩)
  | blob => exact failsOnly_ok _
  | bit =>
    refine FailsOnly.map ?_ _
    cases bytes with
    | nil => exact failsOnly_refuse_iff.2 (by decide)
    | cons padding data =>
      rw [BitString.ofBytes]
      split_ifs
      · exact failsOnly_ok _
      · exact failsOnly_refuse_iff.2 (by decide)
      · exact failsOnly_refuse_iff.2 (by decide)

theorem EnumType.passesEntries_decode (t : EnumType) (index : Nat) :
    (t.decode index).PassesEntries := by
  rw [EnumType.decode]
  split
  · exact failsOnly_ok _
  · exact failsOnly_refuse_iff.2 (by rintro ⟨⟩)

namespace Layout

variable {rows start len i : Nat}

/-- An entry within the child is not refused. -/
theorem exists_entryRange {slots : Slots} {child : Column}
    (h : (Layout.list slots child).EntriesLie rows) (hi : i < rows)
    (hvalid : slots.words.isValid i = true) :
    ∃ offset count, entryRange (slots.bytes i) child.len = .ok (offset, count) ∧
      offset + count ≤ child.len :=
  ⟨_, _, entryRange_eq_ok_iff.2 ⟨rfl, h i hi hvalid⟩, h i hi hvalid⟩

/-- A row of a column inside passes if the valid rows of its layout do. -/
theorem passesEntries_get {w : Column} {offset count j : Nat}
    (h : w.content.Holds (w.start + w.len)) (hlie : w.EntriesLie) (hle : offset + count ≤ w.len)
    (hj : j < count)
    (ih : ∀ {rows start len i : Nat}, w.content.Holds rows →
      w.content.Everywhere EntriesLie rows → start + len ≤ rows → i < len →
      w.content.isValid (start + i) = true → (w.content.readValid start len i).PassesEntries) :
    (Column.get (w.narrow offset count) j).PassesEntries := by
  have hrows : w.start + offset + count ≤ w.start + w.len := by omega
  have hread : Column.get (w.narrow offset count) j = _ := read_eq h hrows hj
  rw [hread]
  split
  next hvalid => exact ih h hlie hrows hj hvalid
  next => exact failsOnly_ok _

/-- Valid rows do not fail because of an entry, if all entries lie within their child. The induction
is on the layout. -/
theorem passesEntries_readValid {layout : Layout} (h : layout.Holds rows)
    (hlie : layout.Everywhere EntriesLie rows) (hrows : start + len ≤ rows) (hi : i < len)
    (hvalid : layout.isValid (start + i) = true) :
    (layout.readValid start len i).PassesEntries := by
  induction layout using Layout.inductionOn generalizing rows start len i with
  | fixed kind slots => exact failsOnly_ok _
  | string kind slots heap =>
    rw [readValid]
    split
    · exact failsOnly_ok _
    · exact kind.passesEntries_decode _ _
  | decimal type width slots => exact failsOnly_ok _
  | enumeration type width slots => exact type.passesEntries_decode _
  | list slots child ih =>
    obtain ⟨offset, count, hentry, -⟩ := exists_entryRange hlie.here (by omega) hvalid
    rw [readValid, hentry]
    exact failsOnly_ok _
  | struct words fields ih =>
    refine (FailsOnly.mapM fun f hf ↦ FailsOnly.map ?_ _).map _
    have hmem : f.2 ∈ (Layout.struct words fields).windows := List.mem_map_of_mem hf
    have hle : rows ≤ f.2.len := h.here f hf
    exact passesEntries_get (h.inside hmem) (hlie.inside hmem) (Nat.le_trans hrows hle) hi (ih f hf)
  | map key value slots child ih =>
    obtain ⟨offset, count, hentry, hle⟩ := exists_entryRange hlie.here (by omega) hvalid
    have hmem : child ∈ (Layout.map key value slots child).windows := by simp [windows]
    rw [readValid, hentry]
    refine (FailsOnly.collect fun j ↦ FailsOnly.bind ?_ fun v _ ↦ ?_).map _
    · exact passesEntries_get (h.inside hmem) (hlie.inside hmem) hle j.isLt ih
    · unfold pairOf
      split
      · exact failsOnly_ok _
      · exact failsOnly_refuse_iff.2 (by rintro ⟨⟩)
  | array length words child ih => exact failsOnly_ok _
  | union words tags alternatives ih =>
    dsimp only [readValid]
    split
    · exact failsOnly_refuse_iff.2 (by rintro ⟨⟩)
    next a ha =>
      have hmem : a ∈ alternatives := List.mem_of_getElem? ha
      have hinside : a.2 ∈ (Layout.union words tags alternatives).windows :=
        List.mem_cons_of_mem _ (List.mem_map_of_mem hmem)
      have hle : rows ≤ a.2.len := h.here.2 a hmem
      exact (passesEntries_get (h.inside hinside) (hlie.inside hinside) (Nat.le_trans hrows hle) hi
        (ih a hmem)).map _

end Layout

namespace Column

variable {ok : Nat → Prop} {c d : Column}

theorem passesEntries_getItem (h : c.Within ok) (hlie : c.EntriesLie) (i : Nat) :
    (c.getItem i).PassesEntries := by
  rcases Nat.lt_or_ge i c.len with hi | hi
  · rw [h.getItem_eq hi]
    split
    next hvalid => exact Layout.passesEntries_readValid h.holds hlie (Nat.le_refl _) hi hvalid
    next => exact failsOnly_ok _
  · rw [getItem_of_le hi]
    exact failsOnly_refuse_iff.2 (by decide)

/-- Opening a vector with the early check of entries succeeds exactly if it does so without and, at
every level, the entries of all lists and maps that are not null lie within their child; both make
the same column. No row of a column within reach of it is refused for its entry. -/
theorem decode_eager_iff (chunk : Chunk) (config : DecodeConfig) (id count : Nat)
    (t : LogicalType) :
    (∀ c, decode chunk { config with eagerListValidation := true } id count t = .ok c ↔
      decode chunk { config with eagerListValidation := false } id count t = .ok c ∧
        c.EntriesLie) ∧
    ∀ c, decode chunk { config with eagerListValidation := true } id count t = .ok c →
      ∀ d, c.Reaches d → ∀ i, d.getItem i ≠ Outcome.refuse (.data .listEntry) := by
  refine ⟨checksEntries chunk config t 1 id count, fun c hc d hd i hrow ↦ ?_⟩
  obtain ⟨_, _, _, u, w, hw, a, b, hab, rfl⟩ := exists_decodeAt_of_reaches hc hd
  have hwithin : w.Within fun _ ↦ True := (isOpened_of_decodeAt chunk.counts_true hw trivial).within
  have hlie : w.EntriesLie := ((checksEntries chunk config u _ _ _ _).1 hw).2
  have hnarrow := hwithin.narrow (fun _ _ ↦ trivial) hab
  exact passesEntries_getItem hnarrow (hlie.narrow hab) i _ hrow rfl

/-- A null list with an entry far beyond the child, and a list of the first of `inner` lists, of
which the second one has an entry beyond its child. -/
def wildEntries (inner : Nat) : Chunk where
  vectors := #[
    { type := .list (.list LogicalType.tagType)
      data := ([9, 9, 0, 1].flatMap (LittleEndian.ofNat 8)).toArray
      validity := some #[2]
      children := [1]
      childCount := inner },
    { type := .list LogicalType.tagType
      data := ([0, 1, 0, 9].flatMap (LittleEndian.ofNat 8)).toArray
      children := [2]
      childCount := 1 },
    { type := LogicalType.tagType, data := #[7] }]

/-- The entry of the null list is no obstacle to the check, and the second inner list is one, though
it is in no list. -/
theorem wildEntries_eager :
    (∃ c, decode (wildEntries 1) { eagerListValidation := true } 0 2
        (.list (.list LogicalType.tagType)) = .ok c ∧
      decode (wildEntries 1) {} 0 2 (.list (.list LogicalType.tagType)) = .ok c ∧
        c.EntriesLie) ∧
    decode (wildEntries 2) { eagerListValidation := true } 0 2
        (.list (.list LogicalType.tagType)) = Outcome.refuse (.data .listEntry) ∧
      ∃ c, decode (wildEntries 2) {} 0 2 (.list (.list LogicalType.tagType)) = .ok c ∧
        ¬ c.EntriesLie := by
  obtain ⟨c, hc⟩ : ∃ c, decode (wildEntries 1) { eagerListValidation := true } 0 2
      (.list (.list LogicalType.tagType)) = .ok c := ⟨_, rfl⟩
  obtain ⟨d, hd⟩ : ∃ d, decode (wildEntries 2) {} 0 2 (.list (.list LogicalType.tagType)) = .ok d :=
    ⟨_, rfl⟩
  have hrefused : decode (wildEntries 2) { eagerListValidation := true } 0 2
      (.list (.list LogicalType.tagType)) = Outcome.refuse (.data .listEntry) := rfl
  refine ⟨⟨c, hc, ((decode_eager_iff (wildEntries 1) {} 0 2 _).1 c).1 hc⟩, hrefused, d, hd,
    fun hlie ↦ ?_⟩
  have heager := ((decode_eager_iff (wildEntries 2) {} 0 2 _).1 d).2 ⟨hd, hlie⟩
  exact nomatch hrefused.symm.trans heager

end Column

end Columnar
