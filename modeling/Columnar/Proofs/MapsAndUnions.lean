import Columnar.Proofs.Slicing
import Columnar.Proofs.Typing

/-!
# Maps are lists, and unions are structs

A vector of maps is opened as one of lists of key/value structs, and a vector of unions as one of
structs that start with a tag. Here it is shown what this comes to for a caller: the vectors that
can be opened are the same, they are refused for the same reasons, and every row of maps or unions
is determined by the same row of the lists or structs (`Column.decodeAt_refines_stored`).

`IsMapRow` and `IsUnionRow` say how. A map is null or fails as its list does, and otherwise it has a
pair for every element of the list, up to the first element that is not a pair; the row of a map
is the row of the list with its elements paired up (`getItem_eq_pairUp`), so the rest is about the
values alone. A union is null if the struct or its tag is, and otherwise it is read from the field
that the tag selects: fields that are not selected may hold anything.
-/

namespace Columnar

/-- Both have values that are related, or both fail alike. -/
inductive Outcome.Related {α β : Type} (R : α → β → Prop) : Outcome α → Outcome β → Prop where
  | ok {a : α} {b : β} (h : R a b) : Related R (.ok a) (.ok b)
  | error (failure : Failure) : Related R (.error failure) (.error failure)

theorem Outcome.Related.of_ok {α β : Type} {R : α → β → Prop} {a : α} {b : β}
    (h : Related R (.ok a) (.ok b)) : R a b := by
  cases h with | ok h => exact h

/-! ### Rows of maps -/

/-- The struct that a pair of a map is stored as. -/
def entryStruct (pair : Value × Value) : Value := .struct [("key", pair.1), ("value", pair.2)]

/-- What row `row` of maps is, given what the row of the lists that they are stored as is. -/
structure IsMapRow (row : Nat) (list map : Outcome Value) : Prop where
  list_cases : list = .ok .null ∨ (∃ failure, list = .error failure) ∨
    ∃ element n entries, list = .ok (.list element n entries)
  null_iff : map = .ok .null ↔ list = .ok .null
  error_of_error : ∀ failure, list = .error failure → map = .error failure
  /-- If every element is a key and a value, these are the pairs. -/
  ok_iff : ∀ {element n entries}, list = .ok (.list element n entries) →
    ∀ v, map = .ok v ↔ ∃ pairs : Fin n → Value × Value,
      v = .map (List.ofFn pairs) ∧ ∀ k, entries k = .ok (entryStruct (pairs k))
  /-- The first element that is not a pair is reported: as it fails, or as a null entry. -/
  error_iff : ∀ {element n entries}, list = .ok (.list element n entries) →
    ∀ failure, map = .error failure ↔ ∃ k,
      (∀ j < k, ∃ pair, entries j = .ok (entryStruct pair)) ∧
        (entries k = .error failure ∨
          entries k = .ok .null ∧ failure = .error (.nullMapEntry row k))

/-- The map made of a list of entries. What is no list is left alone. -/
def Value.pairUp (row : Nat) : Value → Outcome Value
  | .list _ n entries => .map <$> Outcome.collect n fun k ↦ entries k >>= pairOf row k
  | v => .ok v

theorem LogicalType.eq_entryStruct_of_admits {key value : LogicalType} {v : Value}
    (h : (LogicalType.struct (LogicalType.mapEntry key value)).Admits v) :
    v = .null ∨ ∃ pair, v = entryStruct pair := by
  obtain rfl | ⟨values, rfl, hfields⟩ := h
  · exact .inl rfl
  · rw [mapEntry, fieldsAdmit_iff, List.forall₂_cons_left_iff] at hfields
    obtain ⟨⟨_, k⟩, rest, ⟨rfl, -⟩, hrest, rfl⟩ := hfields
    obtain ⟨⟨_, w⟩, rest, ⟨rfl, -⟩, hnil, rfl⟩ := List.forall₂_cons_left_iff.1 hrest
    obtain rfl := List.forall₂_nil_left_iff.1 hnil
    exact .inr ⟨(k, w), rfl⟩

section PairUp

variable {row k : Nat} {entry : Outcome Value}

theorem pairOf_bind_eq_ok_iff {pair : Value × Value}
    (hentry : ∀ v, entry = .ok v → v = .null ∨ ∃ pair, v = entryStruct pair) :
    (entry >>= pairOf row k) = .ok pair ↔ entry = .ok (entryStruct pair) := by
  rw [bind_eq_ok_iff]
  constructor
  · rintro ⟨v, hv, hpair⟩
    rcases hentry v hv with rfl | ⟨p, rfl⟩
    · simp [pairOf, Outcome.refuse] at hpair
    · obtain rfl : p = pair := Except.ok.inj hpair
      exact hv
  · exact fun h ↦ ⟨_, h, rfl⟩

theorem pairOf_bind_eq_error_iff {failure : Failure}
    (hentry : ∀ v, entry = .ok v → v = .null ∨ ∃ pair, v = entryStruct pair) :
    (entry >>= pairOf row k) = .error failure ↔
      entry = .error failure ∨ entry = .ok .null ∧ failure = .error (.nullMapEntry row k) := by
  rw [bind_eq_error_iff]
  refine or_congr_right ⟨?_, ?_⟩
  · rintro ⟨v, hv, hpair⟩
    rcases hentry v hv with rfl | ⟨p, rfl⟩
    · exact ⟨hv, (Except.error.inj hpair).symm⟩
    · cases hpair
  · rintro ⟨h, rfl⟩
    exact ⟨_, h, rfl⟩

/-- Pairing up the elements of lists of entries makes rows of maps. -/
theorem isMapRow_pairUp {key value : LogicalType} {list : Outcome Value}
    (h : ∀ v, list = .ok v →
      (LogicalType.list (.struct (LogicalType.mapEntry key value))).Admits v) :
    IsMapRow row list (list >>= Value.pairUp row) := by
  have hentries : ∀ {element n entries}, list = .ok (.list element n entries) → ∀ k v,
      entries k = .ok v → v = .null ∨ ∃ pair, v = entryStruct pair := by
    intro element n entries hlist k v hv
    obtain hnull | ⟨_, _, heq, hrows⟩ := h _ hlist
    · cases hnull
    · cases heq
      exact LogicalType.eq_entryStruct_of_admits (hrows k v hv)
  have hcases : list = .ok .null ∨ (∃ failure, list = .error failure) ∨
      ∃ element n entries, list = .ok (.list element n entries) := by
    cases list with
    | error failure => exact .inr (.inl ⟨failure, rfl⟩)
    | ok v =>
      obtain rfl | ⟨n, entries, rfl, -⟩ := h v rfl
      · exact .inl rfl
      · exact .inr (.inr ⟨_, n, entries, rfl⟩)
  refine ⟨hcases, ?_, ?_, ?_, ?_⟩
  · rcases hcases with rfl | ⟨failure, rfl⟩ | ⟨element, n, entries, rfl⟩
    · exact iff_of_true rfl rfl
    · exact iff_of_false nofun nofun
    · -- What is made of a list is a map.
      refine iff_of_false (fun hmap ↦ ?_) nofun
      obtain ⟨pairs, -, hpairs⟩ := map_eq_ok_iff.1 hmap
      cases hpairs
  · rintro failure rfl
    rfl
  · rintro element n entries rfl v
    show (Value.map <$> Outcome.collect n fun k ↦ entries k >>= pairOf row k) = .ok v ↔ _
    simp only [map_eq_ok_iff, Outcome.collect_eq_ok_ofFn_iff,
      pairOf_bind_eq_ok_iff (hentries rfl _)]
    constructor
    · rintro ⟨_, ⟨pairs, rfl, hpairs⟩, rfl⟩
      exact ⟨pairs, rfl, hpairs⟩
    · rintro ⟨pairs, rfl, hpairs⟩
      exact ⟨_, ⟨pairs, rfl, hpairs⟩, rfl⟩
  · rintro element n entries rfl failure
    show (Value.map <$> Outcome.collect n fun k ↦ entries k >>= pairOf row k) = .error failure ↔ _
    simp only [map_eq_error_iff, Outcome.collect_eq_error_iff,
      pairOf_bind_eq_ok_iff (hentries rfl _), pairOf_bind_eq_error_iff (hentries rfl _)]
    exact exists_congr fun k ↦ and_comm

end PairUp

/-! ### Rows of unions -/

/-- What row `row` of unions is, given the structs that they are stored as and their column of tags.
-/
structure IsUnionRow (alternatives : List (String × LogicalType)) (structs tags : Column)
    (row : Nat) (union : Outcome Value) : Prop where
  tag_cases : tags.getItem row = .ok .null ∨
    ∃ t : Nat, tags.getItem row = .ok (.integer .uTinyInt t)
  null_iff : union = .ok .null ↔ structs.getItem row = .ok .null ∨ tags.getItem row = .ok .null
  refused_of_le : ∀ {t : Nat}, structs.getItem row ≠ .ok .null →
    tags.getItem row = .ok (.integer .uTinyInt t) → alternatives.length ≤ t →
      union = Outcome.refuse (.invalidDiscriminant t alternatives.length)
  /-- The field of the alternative is the one after the tag and the alternatives before it. -/
  selected : ∀ {t : Nat} {a}, structs.getItem row ≠ .ok .null →
    tags.getItem row = .ok (.integer .uTinyInt t) → alternatives[t]? = some a →
      ∃ member, structs.field (t + 1) = .ok (some member) ∧
        union = .union a.1 <$> Column.getItem member row

namespace Column

variable {c d : Column} {a b : Nat}

/-! ### Maps and the lists they are stored as -/

/-- There are as many rows of maps as of lists, and in every slice of both each row of maps is what
the row of lists makes it. -/
structure MadeOfLists (maps lists : Column) : Prop where
  entries_eq : maps.entries = .ok lists
  len_eq : maps.len = lists.len
  rows : ∀ {a b}, a + b ≤ maps.len → ∃ m l : Column, Window.slice maps a b = .ok m ∧
    Window.slice lists a b = .ok l ∧ ∀ i < b, IsMapRow i (l.getItem i) (m.getItem i)

theorem entries_narrow (hd : c.entries = .ok d) :
    Column.entries (c.narrow a b) = .ok (d.narrow a b) := by
  obtain ⟨key, value, slots, child, hc, rfl⟩ := entries_eq_ok_iff.1 hd
  exact entries_eq_ok_iff.2 ⟨key, value, slots, child, hc, rfl⟩

theorem Within.entries (h : c.Within fun _ ↦ True) (hd : c.entries = .ok d) :
    d.Within fun _ ↦ True :=
  h.access (fun _ _ ↦ trivial) (a := .entries) (by rw [Column.access, hd]; rfl)

/-- A row of maps is the row of the lists that they are stored as, with its elements paired up. -/
theorem getItem_eq_pairUp (h : c.Within fun _ ↦ True) (hd : c.entries = .ok d) {i : Nat}
    (hi : i < c.len) : c.getItem i = d.getItem i >>= Value.pairUp i := by
  have hlists := h.entries hd
  obtain ⟨key, value, slots, child, hc, rfl⟩ := entries_eq_ok_iff.1 hd
  obtain ⟨layout, start, len⟩ := c
  obtain rfl : layout = .map key value slots child := hc
  rw [h.getItem_eq hi, hlists.getItem_eq hi]
  -- Both rows are null for the same bit, and take the same run of rows from the child.
  show (if slots.words.isValid (start + i) then _ else _) =
    (if slots.words.isValid (start + i) then _ else _) >>= _
  split
  · simp only [Layout.readValid, bind_assoc]
    rfl
  · rfl

theorem madeOfLists_of_entries (h : c.Within fun _ ↦ True) (hd : c.entries = .ok d) :
    MadeOfLists c d := by
  obtain ⟨key, value, slots, child, hc, hd'⟩ := entries_eq_ok_iff.1 hd
  have hlen : c.len = d.len := by rw [hd']
  refine ⟨hd, hlen, fun {a b} hab ↦ ?_⟩
  have hnarrow : Column.Within (fun _ ↦ True) (c.narrow a b) := h.narrow (fun _ _ ↦ trivial) hab
  have hentries : Column.entries (c.narrow a b) = .ok (d.narrow a b) := entries_narrow hd
  refine ⟨c.narrow a b, d.narrow a b, Window.slice_eq_ok_narrow hab,
    Window.slice_eq_ok_narrow (hlen ▸ hab), fun i hi ↦ ?_⟩
  rw [getItem_eq_pairUp hnarrow hentries hi]
  -- The elements of the lists are structs of a key and a value, or null.
  have htype : Column.type (d.narrow a b) =
      .list (.struct (LogicalType.mapEntry key value)) := by
    have hfits := h.here.1
    rw [hc] at hfits
    rw [hd']
    exact congrArg LogicalType.list hfits.2.2
  exact isMapRow_pairUp fun v hv ↦ htype ▸ admits_of_getItem (hnarrow.entries hentries) hv

/-! ### Unions and the structs they are stored as -/

/-- There are as many rows of unions as of structs, and in every slice of both each row of unions is
what the row of structs, and the row of tags in it, make it. -/
structure MadeOfStructs (alternatives : List (String × LogicalType)) (unions structs : Column) :
    Prop where
  members_eq : unions.members = .ok structs
  len_eq : unions.len = structs.len
  rows : ∀ {a b}, a + b ≤ unions.len → ∃ u s tags : Column, Window.slice unions a b = .ok u ∧
    Window.slice structs a b = .ok s ∧ s.field 0 = .ok (some tags) ∧
    ∀ i < b, IsUnionRow alternatives s tags i (u.getItem i)

theorem members_narrow (hd : c.members = .ok d) :
    Column.members (c.narrow a b) = .ok (d.narrow a b) := by
  obtain ⟨words, tags, alternatives, hc, rfl⟩ := members_eq_ok_iff.1 hd
  exact members_eq_ok_iff.2 ⟨words, tags, alternatives, hc, rfl⟩

theorem Within.members (h : c.Within fun _ ↦ True) (hd : c.members = .ok d) :
    d.Within fun _ ↦ True :=
  h.access (fun _ _ ↦ trivial) (a := .members) (by rw [Column.access, hd]; rfl)

/-- Structs are null only if their own bit says so. -/
theorem getItem_struct_eq_null_iff {words : Bitmap} {fields : List (String × Column)}
    {start len i : Nat} (h : Within (fun _ ↦ True) ⟨.struct words fields, start, len⟩)
    (hi : i < len) :
    getItem ⟨.struct words fields, start, len⟩ i = .ok .null ↔
      words.isValid (start + i) = false := by
  rw [h.getItem_eq hi]
  show (if words.isValid (start + i) then _ else _) = _ ↔ _
  split
  next hvalid =>
    refine iff_of_false (fun hnull ↦ ?_) (by simp [hvalid])
    obtain ⟨values, -, hvalues⟩ := map_eq_ok_iff.1 hnull
    cases hvalues
  next hvalid => exact iff_of_true rfl (by simpa using hvalid)

section Unions

variable {words : Bitmap} {tags : SlotWindow} {alternatives : List (String × Column)}
  {start len i : Nat}

theorem Within.tagColumn (h : Within (fun _ ↦ True) ⟨.union words tags alternatives, start, len⟩) :
    Within (fun _ ↦ True) (ofFixed (.integer .uTinyInt) (tags.narrow start len)) :=
  (h.inside (w := ofFixed (.integer .uTinyInt) tags) (by simp [Layout.windows])).narrow
    (fun _ _ ↦ trivial) h.here.1.1

/-- A row of tags is null, or the first byte of its slot. -/
theorem getItem_tags (h : Within (fun _ ↦ True) ⟨.union words tags alternatives, start, len⟩)
    (hi : i < len) :
    getItem (ofFixed (.integer .uTinyInt) (tags.narrow start len)) i =
      if tags.content.words.isValid (tags.start + (start + i)) then
        .ok (.integer .uTinyInt (tagOf (tags.content.bytes (tags.start + (start + i))) : Nat))
      else .ok .null := by
  rw [← Nat.add_assoc, h.tagColumn.getItem_eq hi]
  rfl

/-- The tag of a row of unions selects an alternative, or is refused. -/
theorem getItem_union (h : Within (fun _ ↦ True) ⟨.union words tags alternatives, start, len⟩)
    (hi : i < len) {t : Nat} (hrow : words.isValid (start + i) = true)
    (htag : getItem (ofFixed (.integer .uTinyInt) (tags.narrow start len)) i =
      .ok (.integer .uTinyInt t)) :
    getItem ⟨.union words tags alternatives, start, len⟩ i =
      match alternatives[t]? with
      | none => Outcome.refuse (.invalidDiscriminant t alternatives.length)
      | some a => .union a.1 <$> Column.get (a.2.narrow start len) i := by
  rw [getItem_tags h hi] at htag
  split at htag
  next hbit =>
    obtain rfl : tagOf (tags.content.bytes (tags.start + (start + i))) = t :=
      Int.ofNat_inj.1 (by simpa using htag)
    have hvalid : isValid ⟨.union words tags alternatives, start, len⟩ i = true := by
      simp [isValid, Layout.isValid, hrow, hbit]
    rw [h.getItem_eq hi, if_pos hvalid]
    rfl
  next => simp at htag

theorem getItem_tags_cases
    (h : Within (fun _ ↦ True) ⟨.union words tags alternatives, start, len⟩) (hi : i < len) :
    getItem (ofFixed (.integer .uTinyInt) (tags.narrow start len)) i = .ok .null ∨
      ∃ t : Nat, getItem (ofFixed (.integer .uTinyInt) (tags.narrow start len)) i =
        .ok (.integer .uTinyInt t) := by
  rw [getItem_tags h hi]
  split
  · exact .inr ⟨_, rfl⟩
  · exact .inl rfl

/-- A row of unions is null if and only if its own bit says so, or its tag is null. -/
theorem getItem_union_eq_null_iff
    (h : Within (fun _ ↦ True) ⟨.union words tags alternatives, start, len⟩) (hi : i < len) :
    getItem ⟨.union words tags alternatives, start, len⟩ i = .ok .null ↔
      words.isValid (start + i) = false ∨
        getItem (ofFixed (.integer .uTinyInt) (tags.narrow start len)) i = .ok .null := by
  constructor
  · intro hnull
    by_contra hne
    obtain ⟨hrow, htag⟩ := not_or.1 hne
    obtain ⟨t, ht⟩ := (getItem_tags_cases h hi).resolve_left htag
    -- Neither a refused tag nor an alternative is null.
    rw [getItem_union h hi (by simpa using hrow) ht] at hnull
    split at hnull
    · cases hnull
    · obtain ⟨v, -, hv⟩ := map_eq_ok_iff.1 hnull
      cases hv
  · intro hnull
    have hinvalid : isValid ⟨.union words tags alternatives, start, len⟩ i = false := by
      rw [isValid, Layout.isValid, Bool.and_eq_false_iff]
      refine hnull.imp_right fun htag ↦ ?_
      rw [getItem_tags h hi] at htag
      split at htag
      · cases htag
      next hbit => simpa using hbit
    rw [h.getItem_eq hi, hinvalid]
    rfl

/-- A row of unions is what the struct and the tag in this row make it. -/
theorem isUnionRow {s : Column}
    (h : Within (fun _ ↦ True) ⟨.union words tags alternatives, start, len⟩)
    (hs : members ⟨.union words tags alternatives, start, len⟩ = .ok s) (hi : i < len) :
    IsUnionRow (Layout.fieldTypes alternatives) s
      (ofFixed (.integer .uTinyInt) (tags.narrow start len)) i
      (getItem ⟨.union words tags alternatives, start, len⟩ i) := by
  have hstructs := h.members hs
  obtain rfl := Except.ok.inj hs
  have hrow := getItem_struct_eq_null_iff hstructs hi
  refine ⟨getItem_tags_cases h hi, ?_, ?_, ?_⟩
  · rw [hrow, getItem_union_eq_null_iff h hi]
  · intro t hs ht hle
    have hvalid : words.isValid (start + i) = true := by simpa using mt hrow.2 hs
    rw [Layout.fieldTypes_eq_map, List.length_map] at hle ⊢
    rw [getItem_union h hi hvalid ht, List.getElem?_eq_none hle]
  · intro t a hs ht ha
    have hvalid : words.isValid (start + i) = true := by simpa using mt hrow.2 hs
    rw [Layout.fieldTypes_eq_map, List.getElem?_map, Option.map_eq_some_iff] at ha
    obtain ⟨f, hf, rfl⟩ := ha
    have hle : start + len ≤ f.2.len := h.here.1.2 f (List.mem_of_getElem? hf)
    refine ⟨f.2.narrow start len, narrowed_eq_ok_iff.2 ⟨f, by simpa using hf, hle, rfl⟩, ?_⟩
    rw [getItem_union h hi hvalid ht, hf, getItem_of_lt (by exact hi)]

end Unions

theorem madeOfStructs_of_members {alternatives : List (String × LogicalType)}
    (h : c.Within fun _ ↦ True) (htype : c.type = .union alternatives) (hd : c.members = .ok d) :
    MadeOfStructs alternatives c d := by
  obtain ⟨words, tags, members, hc, hd'⟩ := members_eq_ok_iff.1 hd
  obtain ⟨layout, start, len⟩ := c
  obtain rfl : layout = .union words tags members := hc
  obtain rfl : Layout.fieldTypes members = alternatives := LogicalType.union.inj htype
  have hlen : len = d.len := by rw [hd']
  refine ⟨hd, hlen, fun {a b} hab ↦ ?_⟩
  have hnarrow := h.narrow (fun _ _ ↦ trivial) hab
  have hstructs : Column.members ⟨.union words tags members, start + a, b⟩ = .ok (d.narrow a b) :=
    members_narrow hd
  have hfield : Column.field (d.narrow a b) 0 =
      .ok (some (ofFixed (.integer .uTinyInt) (tags.narrow (start + a) b))) := by
    have hle : start + a + b ≤ tags.len := hnarrow.here.1.1
    rw [hd', field]
    refine narrowed_eq_ok_iff.2 ⟨("tag", ofFixed (.integer .uTinyInt) tags), rfl, ?_, rfl⟩
    exact hle
  exact ⟨_, d.narrow a b, _, Window.slice_eq_ok_narrow hab, Window.slice_eq_ok_narrow (hlen ▸ hab),
    hfield, fun i hi ↦ isUnionRow hnarrow hstructs hi⟩

/-! ### Opening maps and unions -/

section Opening

variable {chunk : Chunk} {config : DecodeConfig} {depth id count : Nat}

/-- Lists of key/value structs can be taken for maps. -/
theorem exists_map_of_entries {key value : LogicalType}
    (hl : decodeAt chunk config depth id count
      (.list (.struct (LogicalType.mapEntry key value))) = .ok d) :
    ∃ c, decodeAt chunk config depth id count (.map key value) = .ok c ∧ c.entries = .ok d := by
  obtain ⟨slots, _, _, elements, -, -, -, htype, rfl, -⟩ :=
    decodeList_eq_ok_iff.1 (decodeAt_list_eq_ok_iff.1 hl).2
  refine ⟨⟨.map key value slots.content elements, slots.start, slots.len⟩, ?_, rfl⟩
  rw [decodeAt_map, hl, ok_bind]
  exact ofEntries_eq_ok_iff.2 ⟨htype, rfl⟩

/-- Structs of a tag and alternatives can be taken for unions. -/
theorem exists_union_of_members {alternatives : List (String × LogicalType)}
    (hs : decodeAt chunk config depth id count
      (.struct (LogicalType.unionMembers alternatives)) = .ok d) :
    ∃ c, decodeAt chunk config depth id count (.union alternatives) = .ok c ∧
      c.members = .ok d := by
  have htype := (isOpened_of_decodeAt chunk.counts_true hs trivial).type_eq
  obtain ⟨-, -, columns, hcolumns, -, rfl⟩ := decodeAt_struct_eq_ok_iff.1 hs
  rw [LogicalType.unionMembers, List.zipIdx_cons] at hcolumns
  obtain ⟨_, rest, ⟨_, -, htag⟩, -, rfl⟩ := List.forall₂_cons_left_iff.1 hcolumns
  -- The tags were opened as bytes, and so they are a column of slots.
  obtain ⟨-, tags, -, rfl⟩ := decodeAt_fixed_eq_ok_iff.1 htag
  refine ⟨.whole (.union (chunk.validity id) tags ((alternatives.map (·.1)).zip rest)) count,
    ?_, rfl⟩
  rw [decodeAt_union, hs, ok_bind]
  exact ofMembers_eq_ok_iff.2 ⟨LogicalType.struct.inj htype, _, tags, _, rfl, rfl⟩

theorem related_decodeAt_map (chunk : Chunk) (config : DecodeConfig) (depth id count : Nat)
    (key value : LogicalType) :
    Outcome.Related MadeOfLists (decodeAt chunk config depth id count (.map key value))
      (decodeAt chunk config depth id count
        (.list (.struct (LogicalType.mapEntry key value)))) := by
  cases hl : decodeAt chunk config depth id count
      (.list (.struct (LogicalType.mapEntry key value))) with
  | error failure =>
    rw [decodeAt_map, hl]
    exact .error failure
  | ok lists =>
    obtain ⟨maps, hm, hentries⟩ := exists_map_of_entries hl
    rw [hm]
    exact .ok (madeOfLists_of_entries (isOpened_of_decodeAt chunk.counts_true hm trivial).within
      hentries)

theorem related_decodeAt_union (chunk : Chunk) (config : DecodeConfig) (depth id count : Nat)
    (alternatives : List (String × LogicalType)) :
    Outcome.Related (MadeOfStructs alternatives)
      (decodeAt chunk config depth id count (.union alternatives))
      (decodeAt chunk config depth id count
        (.struct (LogicalType.unionMembers alternatives))) := by
  cases hs : decodeAt chunk config depth id count
      (.struct (LogicalType.unionMembers alternatives)) with
  | error failure =>
    rw [decodeAt_union, hs]
    exact .error failure
  | ok structs =>
    obtain ⟨unions, hu, hmembers⟩ := exists_union_of_members hs
    have hopened := isOpened_of_decodeAt chunk.counts_true hu trivial
    rw [hu]
    exact .ok (madeOfStructs_of_members hopened.within hopened.type_eq hmembers)

/-- Opened maps have opened lists as their entries. -/
theorem exists_entries_of_map {key value : LogicalType}
    (hc : decodeAt chunk config depth id count (.map key value) = .ok c) :
    ∃ d, c.entries = .ok d ∧ decodeAt chunk config depth id count
      (.list (.struct (LogicalType.mapEntry key value))) = .ok d := by
  obtain ⟨d, hd, -⟩ := bind_eq_ok_iff.1 (decodeAt_map ▸ hc)
  obtain ⟨c', hc', hentries⟩ := exists_map_of_entries hd
  obtain rfl : c = c' := Except.ok.inj (hc.symm.trans hc')
  exact ⟨d, hentries, hd⟩

/-- Opened unions have opened structs as their members. -/
theorem exists_members_of_union {alternatives : List (String × LogicalType)}
    (hc : decodeAt chunk config depth id count (.union alternatives) = .ok c) :
    ∃ d, c.members = .ok d ∧ decodeAt chunk config depth id count
      (.struct (LogicalType.unionMembers alternatives)) = .ok d := by
  obtain ⟨d, hd, -⟩ := bind_eq_ok_iff.1 (decodeAt_union ▸ hc)
  obtain ⟨c', hc', hmembers⟩ := exists_union_of_members hd
  obtain rfl : c = c' := Except.ok.inj (hc.symm.trans hc')
  exact ⟨d, hmembers, hd⟩

theorem exists_map_iff {key value : LogicalType} :
    (∃ c, decodeAt chunk config depth id count (.map key value) = .ok c) ↔
      ∃ d, decodeAt chunk config depth id count
        (.list (.struct (LogicalType.mapEntry key value))) = .ok d := by
  constructor
  · rintro ⟨c, hc⟩
    obtain ⟨d, -, hd⟩ := exists_entries_of_map hc
    exact ⟨d, hd⟩
  · rintro ⟨d, hd⟩
    obtain ⟨c, hc, -⟩ := exists_map_of_entries hd
    exact ⟨c, hc⟩

theorem exists_union_iff {alternatives : List (String × LogicalType)} :
    (∃ c, decodeAt chunk config depth id count (.union alternatives) = .ok c) ↔
      ∃ d, decodeAt chunk config depth id count
        (.struct (LogicalType.unionMembers alternatives)) = .ok d := by
  constructor
  · rintro ⟨c, hc⟩
    obtain ⟨d, -, hd⟩ := exists_members_of_union hc
    exact ⟨d, hd⟩
  · rintro ⟨d, hd⟩
    obtain ⟨c, hc, -⟩ := exists_union_of_members hd
    exact ⟨c, hc⟩

/-- Whatever the chunk, and at every nesting level, maps are opened as the lists of key/value
structs that they are stored as, and unions as the structs of a tag and the alternatives: opening
the one succeeds if opening the other does, with rows that are made of the rows of the other in
every slice, and fails as the other fails. -/
theorem decodeAt_refines_stored (chunk : Chunk) (config : DecodeConfig) (depth id count : Nat) :
    (∀ key value, Outcome.Related MadeOfLists
      (decodeAt chunk config depth id count (.map key value))
      (decodeAt chunk config depth id count
        (.list (.struct (LogicalType.mapEntry key value))))) ∧
    ∀ alternatives, Outcome.Related (MadeOfStructs alternatives)
      (decodeAt chunk config depth id count (.union alternatives))
      (decodeAt chunk config depth id count
        (.struct (LogicalType.unionMembers alternatives))) :=
  ⟨related_decodeAt_map chunk config depth id count,
    related_decodeAt_union chunk config depth id count⟩

/-- One map of two entries, of which the second is null, and one union whose tag is past its only
alternative. -/
def nullEntryAndStrayTag : Chunk where
  vectors := #[
    { type := .map LogicalType.tagType LogicalType.tagType
      data := (LittleEndian.ofNat 8 0 ++ LittleEndian.ofNat 8 2).toArray
      children := [1]
      childCount := 2 },
    { type := .struct (LogicalType.mapEntry LogicalType.tagType LogicalType.tagType)
      validity := some #[1]
      children := [2, 2] },
    { type := LogicalType.tagType, data := #[1, 2] },
    { type := .union [("number", LogicalType.tagType)], children := [2, 2] }]

/-- The list and the struct that they are stored as can be read. The map fails at the entry that is
null, and the union at its tag. -/
theorem nullEntryAndStrayTag_refused :
    (∃ maps lists : Column, MadeOfLists maps lists ∧
      decodeAt nullEntryAndStrayTag {} 1 0 1 (.map LogicalType.tagType LogicalType.tagType) =
        .ok maps ∧
      (lists.getItem 0).toBool = true ∧ maps.getItem 0 = Outcome.refuse (.nullMapEntry 0 1)) ∧
    ∃ unions structs : Column, MadeOfStructs [("number", LogicalType.tagType)] unions structs ∧
      decodeAt nullEntryAndStrayTag {} 1 3 1 (.union [("number", LogicalType.tagType)]) =
        .ok unions ∧
      (structs.getItem 0).toBool = true ∧
      unions.getItem 0 = Outcome.refuse (.invalidDiscriminant 1 1) := by
  have hrefines := decodeAt_refines_stored nullEntryAndStrayTag {} 1
  have hmade := ((hrefines 0 1).1 LogicalType.tagType LogicalType.tagType).of_ok
  have hunions := ((hrefines 3 1).2 [("number", LogicalType.tagType)]).of_ok
  refine ⟨⟨_, _, hmade, rfl, rfl, ?_⟩, _, _, hunions, rfl, rfl, rfl⟩
  -- The first entry is a pair, and the second one is null.
  obtain ⟨maps, lists, hmaps, hlists, hrows⟩ := hmade.rows (a := 0) (b := 1) (Nat.le_refl 1)
  obtain rfl := Except.ok.inj hmaps
  obtain rfl := Except.ok.inj hlists
  refine ((hrows 0 Nat.one_pos).error_iff (n := 2) rfl _).2 ⟨1, fun j hj ↦ ?_, .inr ⟨rfl, rfl⟩⟩
  obtain rfl : j = 0 := by omega
  exact ⟨(.integer .uTinyInt 1, .integer .uTinyInt 1), rfl⟩

end Opening

end Column

end Columnar
