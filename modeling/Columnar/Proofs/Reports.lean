import Columnar.Column.Inspect
import Columnar.Column.Trace
import Columnar.Proofs.Refusals

/-!
# What is reported

The log of opening a vector is a function of its own, next to the one that opens the vector. Here it
is shown to follow that one: whatever the outcome, the log names no vector but those that the opening
leads to, on levels that the limit allows (`Column.reached_of_mem_eventsAt`), and if the vector is
opened, it names all of them (`Column.exists_mem_eventsAt_iff`). Both are inductions on the type, with
maps and unions as the lists and structs that they are stored as.

The text by which a column is shown to whoever looks for a fault in it can always be had
(`Column.exists_inspect_eq`).
-/

namespace Columnar

namespace Column

open Relation (ReflTransGen)

variable {chunk : Chunk} {config : DecodeConfig} {level id count : Nat} {t : LogicalType} {c : Column}

/-! ### Events of one level -/

section Events

variable {α : Type} {e : Event} {inner : List Event} {n v : Nat} {u : LogicalType}

theorem mem_eventsOf {x : Outcome α} {events : α → List Event} :
    e ∈ eventsOf x events ↔ ∃ a, x = .ok a ∧ e ∈ events a := by
  cases x <;> simp [eventsOf]

/-- A level that is allowed names its own vector and those further inside. -/
theorem mem_levelEvents :
    .decoding n u v ∈ levelEvents config level id count t inner ↔ level ≤ config.maxNestingDepth ∧
      ((n = count ∧ u = t ∧ v = id) ∨ .decoding n u v ∈ inner) := by
  simp only [levelEvents, mem_eventsOf, checkDepth_eq_ok_iff, exists_const, List.mem_cons,
    Event.decoding.injEq]

/-- An event of a struct comes from one of its fields. -/
theorem exists_of_mem_childEvents {index : Nat}
    {fields : List ((Nat → Outcome Column) × (Nat → List Event))}
    (h : e ∈ childEvents chunk id index fields) :
    ∃ k f child, fields[k]? = some f ∧ chunk.structChild id (index + k) = .ok child ∧
      e ∈ f.2 child := by
  induction fields generalizing index with
  | nil => cases h
  | cons f rest ih =>
    obtain ⟨child, hchild, he⟩ := mem_eventsOf.1 h
    rcases List.mem_append.1 he with he | he
    · exact ⟨0, f, child, rfl, hchild, he⟩
    · obtain ⟨-, -, he⟩ := mem_eventsOf.1 he
      obtain ⟨k, g, child, hg, hchild, he⟩ := ih he
      exact ⟨k + 1, g, child, hg, by rwa [Nat.add_comm k, ← Nat.add_assoc], he⟩

/-- An event of a field is one of the struct if the fields before it are opened. -/
theorem mem_childEvents {index k child : Nat}
    {fields : List ((Nat → Outcome Column) × (Nat → List Event))}
    {f : (Nat → Outcome Column) × (Nat → List Event)} (hf : fields[k]? = some f)
    (hchild : chunk.structChild id (index + k) = .ok child) (he : e ∈ f.2 child)
    (hopened : ∀ j g, fields[j]? = some g →
      ∃ child col, chunk.structChild id (index + j) = .ok child ∧ g.1 child = .ok col) :
    e ∈ childEvents chunk id index fields := by
  induction fields generalizing index k with
  | nil => cases hf
  | cons g rest ih =>
    obtain ⟨first, col, hfirst, hcol⟩ := hopened 0 g rfl
    refine mem_eventsOf.2 ⟨first, hfirst, List.mem_append.2 ?_⟩
    cases k with
    | zero =>
      obtain rfl : g = f := Option.some.inj hf
      obtain rfl : first = child := Except.ok.inj (hfirst.symm.trans hchild)
      exact .inl he
    | succ k =>
      refine .inr (mem_eventsOf.2 ⟨col, hcol, ih hf ?_ fun j g hg ↦ ?_⟩)
      · rwa [Nat.add_assoc, Nat.add_comm 1 k]
      · rw [Nat.add_assoc, Nat.add_comm 1 j]
        exact hopened (j + 1) g hg

end Events

/-! ### The log of each type -/

theorem fieldEvents_eq_map (fields : List (String × LogicalType)) :
    fieldEvents chunk config level count fields = fields.map fun f ↦
      (fun id ↦ decodeAt chunk config level id count f.2,
        fun id ↦ eventsAt chunk config level id count f.2) := by
  induction fields with
  | nil => rfl
  | cons f rest ih => rw [fieldEvents, ih]; rfl

theorem eventsAt_list {element : LogicalType} :
    eventsAt chunk config level id count (.list element) =
      levelEvents config level id count (.list element) (listEvents chunk id count
        fun child childCount ↦ eventsAt chunk config (level + 1) child childCount element) := by
  rw [eventsAt]

theorem eventsAt_struct {fields : List (String × LogicalType)} :
    eventsAt chunk config level id count (.struct fields) =
      levelEvents config level id count (.struct fields)
        (structEvents chunk id count (fieldEvents chunk config (level + 1) count fields)) := by
  rw [eventsAt]

/-- Inside a map, the log is that of the list of its entries. -/
theorem eventsAt_map {key value : LogicalType} :
    eventsAt chunk config level id count (.map key value) =
      levelEvents config level id count (.map key value) (listEvents chunk id count
        fun child childCount ↦ eventsAt chunk config (level + 1) child childCount
          (.struct (LogicalType.mapEntry key value))) := by
  rw [eventsAt]
  simp only [eventsAt_struct, LogicalType.mapEntry, fieldEvents]

/-- Inside a union, the log is that of the struct of its tag and its alternatives. -/
theorem eventsAt_union {alternatives : List (String × LogicalType)} :
    eventsAt chunk config level id count (.union alternatives) =
      levelEvents config level id count (.union alternatives)
        (structEvents chunk id count
          (fieldEvents chunk config (level + 1) count (LogicalType.unionMembers alternatives))) := by
  simp only [eventsAt, LogicalType.unionMembers, fieldEvents]

/-! ### Only what the opening leads to is named -/

/-- The logs of vectors of the type name no vector but those that the opening leads to, on levels that
the limit allows. -/
def NamesReached (chunk : Chunk) (config : DecodeConfig) (t : LogicalType) : Prop :=
  ∀ {level id count n v : Nat} {u : LogicalType},
    .decoding n u v ∈ eventsAt chunk config level id count t →
      ∃ inside ≤ config.maxNestingDepth,
        ReflTransGen chunk.LeadsTo ⟨level, id, count, t⟩ ⟨inside, v, n, u⟩

section NamesReached

/-- A level names its own vector, and else only what it leads to. -/
theorem reached_of_mem_levelEvents {inner : List Event} {n v : Nat} {u : LogicalType}
    (h : .decoding n u v ∈ levelEvents config level id count t inner)
    (hinner : .decoding n u v ∈ inner → ∃ s, chunk.LeadsTo ⟨level, id, count, t⟩ s ∧
      ∃ inside ≤ config.maxNestingDepth, ReflTransGen chunk.LeadsTo s ⟨inside, v, n, u⟩) :
    ∃ inside ≤ config.maxNestingDepth,
      ReflTransGen chunk.LeadsTo ⟨level, id, count, t⟩ ⟨inside, v, n, u⟩ := by
  obtain ⟨hlevel, ⟨rfl, rfl, rfl⟩ | hmem⟩ := mem_levelEvents.1 h
  · exact ⟨level, hlevel, .refl⟩
  · obtain ⟨s, hs, inside, hinside, hreach⟩ := hinner hmem
    exact ⟨inside, hinside, hreach.head hs⟩

theorem namesReached_list {element : LogicalType} (h : NamesReached chunk config element) :
    NamesReached chunk config (.list element) := by
  intro level id count n v u hmem
  rw [eventsAt_list] at hmem
  refine reached_of_mem_levelEvents hmem fun hinner ↦ ?_
  obtain ⟨-, -, hinner⟩ := mem_eventsOf.1 hinner
  obtain ⟨⟨child, childCount⟩, hchild, hinner⟩ := mem_eventsOf.1 hinner
  exact ⟨_, .element hchild, h hinner⟩

theorem namesReached_struct {fields : List (String × LogicalType)}
    (h : ∀ f ∈ fields, NamesReached chunk config f.2) :
    NamesReached chunk config (.struct fields) := by
  intro level id count n v u hmem
  rw [eventsAt_struct] at hmem
  refine reached_of_mem_levelEvents hmem fun hinner ↦ ?_
  obtain ⟨-, -, hinner⟩ := mem_eventsOf.1 hinner
  obtain ⟨k, pair, child, hpair, hchild, hinner⟩ := exists_of_mem_childEvents hinner
  rw [fieldEvents_eq_map, List.getElem?_map, Option.map_eq_some_iff] at hpair
  obtain ⟨f, hf, rfl⟩ := hpair
  exact ⟨_, .field hf (by rwa [Nat.zero_add] at hchild), h f (List.mem_of_getElem? hf) hinner⟩

theorem namesReached_map {key value : LogicalType} (hkey : NamesReached chunk config key)
    (hvalue : NamesReached chunk config value) : NamesReached chunk config (.map key value) := by
  have hentries : NamesReached chunk config (.list (.struct (LogicalType.mapEntry key value))) := by
    refine namesReached_list (namesReached_struct fun f hf ↦ ?_)
    rcases List.mem_pair.1 hf with rfl | rfl
    · exact hkey
    · exact hvalue
  intro level id count n v u hmem
  rw [eventsAt_map] at hmem
  have hlevel := (mem_levelEvents.1 hmem).1
  refine reached_of_mem_levelEvents hmem fun hinner ↦ ⟨_, .entries, hentries ?_⟩
  rw [eventsAt_list]
  exact mem_levelEvents.2 ⟨hlevel, .inr hinner⟩

theorem namesReached_array {element : LogicalType} {length : UInt64}
    (h : NamesReached chunk config element) :
    NamesReached chunk config (.array element length) := by
  intro level id count n v u hmem
  rw [eventsAt] at hmem
  refine reached_of_mem_levelEvents hmem fun hinner ↦ ?_
  obtain ⟨-, -, hinner⟩ := mem_eventsOf.1 hinner
  split at hinner
  · obtain ⟨child, hchild, hinner⟩ := mem_eventsOf.1 hinner
    exact ⟨_, .item hchild, h hinner⟩
  · cases hinner

theorem namesReached_union {alternatives : List (String × LogicalType)}
    (h : ∀ a ∈ alternatives, NamesReached chunk config a.2)
    (htag : NamesReached chunk config LogicalType.tagType) :
    NamesReached chunk config (.union alternatives) := by
  have hmembers : NamesReached chunk config (.struct (LogicalType.unionMembers alternatives)) := by
    refine namesReached_struct fun f hf ↦ ?_
    rcases List.mem_cons.1 hf with rfl | hf
    · exact htag
    · exact h f hf
  intro level id count n v u hmem
  rw [eventsAt_union] at hmem
  have hlevel := (mem_levelEvents.1 hmem).1
  refine reached_of_mem_levelEvents hmem fun hinner ↦ ⟨_, .members, hmembers ?_⟩
  rw [eventsAt_struct]
  exact mem_levelEvents.2 ⟨hlevel, .inr hinner⟩

/-- A leaf names only itself. -/
theorem namesReached_leaf (hlog : ∀ level id count, ∃ inner,
      eventsAt chunk config level id count t = levelEvents config level id count t inner ∧
        ∀ n u v, .decoding n u v ∉ inner) : NamesReached chunk config t := by
  intro level id count n v u hmem
  obtain ⟨inner, hinner, hnone⟩ := hlog level id count
  rw [hinner] at hmem
  exact reached_of_mem_levelEvents hmem fun hmem ↦ absurd hmem (hnone n u v)

/-- Whatever the chunk, and whether or not the vector can be opened, its log names no vector but those
that the opening leads to, and none beyond the limit. -/
theorem reached_of_mem_eventsAt {n v : Nat} {u : LogicalType}
    (h : .decoding n u v ∈ eventsAt chunk config level id count t) :
    ∃ inside ≤ config.maxNestingDepth,
      ReflTransGen chunk.LeadsTo ⟨level, id, count, t⟩ ⟨inside, v, n, u⟩ := by
  suffices hall : NamesReached chunk config t from hall h
  clear h
  have hfixed : ∀ kind, NamesReached chunk config (.fixed kind) := fun kind ↦
    namesReached_leaf fun _ _ _ ↦ ⟨[], by rw [eventsAt], by simp⟩
  induction t using LogicalType.inductionOn with
  | fixed kind => exact hfixed kind
  | string kind => exact namesReached_leaf fun _ _ _ ↦ ⟨[], by rw [eventsAt], by simp⟩
  | decimal type => exact namesReached_leaf fun _ _ _ ↦ ⟨[], by rw [eventsAt], by simp⟩
  | enumeration type =>
    exact namesReached_leaf fun _ _ _ ↦ ⟨_, by rw [eventsAt], by split <;> simp⟩
  | list element ih => exact namesReached_list ih
  | struct fields ih => exact namesReached_struct ih
  | map key value ihKey ihValue => exact namesReached_map ihKey ihValue
  | array element length ih => exact namesReached_array ih
  | union alternatives ih => exact namesReached_union ih (hfixed _)
  | other typeId => exact namesReached_leaf fun _ _ _ ↦ ⟨_, by rw [eventsAt], by simp⟩

end NamesReached

/-! ### All that was opened is named -/

/-- The log of a vector of the type that can be opened names all vectors that the opening leads to. -/
def NamesOpened (chunk : Chunk) (config : DecodeConfig) (t : LogicalType) : Prop :=
  ∀ {level id count : Nat} {c : Column}, decodeAt chunk config level id count t = .ok c →
    ∀ {s : Request}, ReflTransGen chunk.LeadsTo ⟨level, id, count, t⟩ s →
      ∃ u, .decoding s.count u s.id ∈ eventsAt chunk config level id count t

section NamesOpened

theorem level_le_of_decodeAt (h : decodeAt chunk config level id count t = .ok c) :
    level ≤ config.maxNestingDepth := by
  rw [decodeAt.eq_def] at h
  obtain ⟨_, hlevel, -⟩ := bind_eq_ok_iff.1 h
  exact checkDepth_eq_ok_iff.1 hlevel

/-- A level that was opened names its own vector, so it is enough if it names those that it leads to.
-/
theorem exists_mem_levelEvents {inner : List Event} {s : Request}
    (h : decodeAt chunk config level id count t = .ok c)
    (hs : ReflTransGen chunk.LeadsTo ⟨level, id, count, t⟩ s)
    (hinner : ∀ r, chunk.LeadsTo ⟨level, id, count, t⟩ r → ReflTransGen chunk.LeadsTo r s →
      ∃ u, .decoding s.count u s.id ∈ levelEvents config level id count t inner) :
    ∃ u, .decoding s.count u s.id ∈ levelEvents config level id count t inner := by
  rcases hs.cases_head with rfl | ⟨r, hr, hrs⟩
  · exact ⟨t, mem_levelEvents.2 ⟨level_le_of_decodeAt h, .inl ⟨rfl, rfl, rfl⟩⟩⟩
  · exact hinner r hr hrs

/-- Under another type, a level names the same vectors. -/
theorem exists_mem_of_relabel {inner : List Event} {s : Request} {u u' : LogicalType}
    (h : .decoding s.count u s.id ∈ levelEvents config level id count t inner) :
    ∃ u, .decoding s.count u s.id ∈ levelEvents config level id count u' inner := by
  obtain ⟨hlevel, ⟨hcount, -, hid⟩ | hinner⟩ := mem_levelEvents.1 h
  · exact ⟨u', mem_levelEvents.2 ⟨hlevel, .inl ⟨hcount, rfl, hid⟩⟩⟩
  · exact ⟨u, mem_levelEvents.2 ⟨hlevel, .inr hinner⟩⟩

theorem namesOpened_list {element : LogicalType} (h : NamesOpened chunk config element) :
    NamesOpened chunk config (.list element) := by
  intro level id count c hc s hs
  rw [eventsAt_list]
  refine exists_mem_levelEvents hc hs fun r hr hrs ↦ ?_
  obtain ⟨hlevel, hlist⟩ := decodeAt_list_eq_ok_iff.1 hc
  obtain ⟨slots, child, childCount, elements, hslots, hchild, helements, -⟩ :=
    decodeList_eq_ok_iff.1 hlist
  cases hr with
  | element hchild' =>
    obtain ⟨rfl, rfl⟩ := Prod.mk.inj (Except.ok.inj (hchild.symm.trans hchild'))
    obtain ⟨u, hu⟩ := h helements hrs
    exact ⟨u, mem_levelEvents.2 ⟨hlevel, .inr (mem_eventsOf.2
      ⟨slots, hslots, mem_eventsOf.2 ⟨_, hchild, hu⟩⟩)⟩⟩

theorem namesOpened_struct {fields : List (String × LogicalType)}
    (h : ∀ f ∈ fields, NamesOpened chunk config f.2) :
    NamesOpened chunk config (.struct fields) := by
  intro level id count c hc s hs
  rw [eventsAt_struct]
  refine exists_mem_levelEvents hc hs fun r hr hrs ↦ ?_
  obtain ⟨hlevel, hcovers, columns, hcolumns, -, -⟩ := decodeAt_struct_eq_ok_iff.1 hc
  have hopened : ∀ k f, fields[k]? = some f → ∃ child col, chunk.structChild id k = .ok child ∧
      decodeAt chunk config (level + 1) child count f.2 = .ok col := by
    intro k f hf
    obtain ⟨col, -, child, hchild, hcol⟩ := exists_getElem?_of_forall₂ hcolumns hf
    exact ⟨child, col, by rwa [Nat.zero_add] at hchild, hcol⟩
  cases hr with
  | @field _ _ _ k child _ f hf hchild =>
    obtain ⟨child', col, hchild', hcol⟩ := hopened k f hf
    obtain rfl : child' = child := Except.ok.inj (hchild'.symm.trans hchild)
    obtain ⟨u, hu⟩ := h f (List.mem_of_getElem? hf) hcol hrs
    refine ⟨u, mem_levelEvents.2 ⟨hlevel, .inr (mem_eventsOf.2
      ⟨_, Chunk.bitmap_eq_ok_iff.2 ⟨hcovers, rfl⟩, ?_⟩)⟩⟩
    rw [fieldEvents_eq_map]
    refine mem_childEvents (k := k) (by rw [List.getElem?_map, hf]; rfl) (by rwa [Nat.zero_add]) hu
      fun j g hg ↦ ?_
    rw [List.getElem?_map, Option.map_eq_some_iff] at hg
    obtain ⟨f, hf, rfl⟩ := hg
    rw [Nat.zero_add]
    exact hopened j f hf

theorem namesOpened_map {key value : LogicalType} (hkey : NamesOpened chunk config key)
    (hvalue : NamesOpened chunk config value) : NamesOpened chunk config (.map key value) := by
  have hentries : NamesOpened chunk config (.list (.struct (LogicalType.mapEntry key value))) := by
    refine namesOpened_list (namesOpened_struct fun f hf ↦ ?_)
    rcases List.mem_pair.1 hf with rfl | rfl
    · exact hkey
    · exact hvalue
  intro level id count c hc s hs
  rw [eventsAt_map]
  refine exists_mem_levelEvents hc hs fun r hr hrs ↦ ?_
  obtain ⟨d, -, hd⟩ := exists_entries_of_map hc
  cases hr with
  | entries =>
    obtain ⟨u, hu⟩ := hentries hd hrs
    rw [eventsAt_list] at hu
    exact exists_mem_of_relabel hu

theorem namesOpened_array {element : LogicalType} {length : UInt64}
    (h : NamesOpened chunk config element) : NamesOpened chunk config (.array element length) := by
  intro level id count c hc s hs
  rw [eventsAt]
  refine exists_mem_levelEvents hc hs fun r hr hrs ↦ ?_
  obtain ⟨hlevel, harray⟩ := decodeAt_array_eq_ok_iff.1 hc
  obtain ⟨hcovers, hlt, child, elements, hchild, helements, -⟩ := decodeArray_eq_ok_iff.1 harray
  cases hr with
  | item hchild' =>
    obtain rfl := Except.ok.inj (hchild.symm.trans hchild')
    obtain ⟨u, hu⟩ := h helements hrs
    refine ⟨u, mem_levelEvents.2 ⟨hlevel, .inr (mem_eventsOf.2
      ⟨_, Chunk.bitmap_eq_ok_iff.2 ⟨hcovers, rfl⟩, ?_⟩)⟩⟩
    rw [if_pos hlt]
    exact mem_eventsOf.2 ⟨child, hchild, hu⟩

theorem namesOpened_union {alternatives : List (String × LogicalType)}
    (h : ∀ a ∈ alternatives, NamesOpened chunk config a.2)
    (htag : NamesOpened chunk config LogicalType.tagType) :
    NamesOpened chunk config (.union alternatives) := by
  have hmembers : NamesOpened chunk config (.struct (LogicalType.unionMembers alternatives)) := by
    refine namesOpened_struct fun f hf ↦ ?_
    rcases List.mem_cons.1 hf with rfl | hf
    · exact htag
    · exact h f hf
  intro level id count c hc s hs
  rw [eventsAt_union]
  refine exists_mem_levelEvents hc hs fun r hr hrs ↦ ?_
  obtain ⟨d, -, hd⟩ := exists_members_of_union hc
  cases hr with
  | members =>
    obtain ⟨u, hu⟩ := hmembers hd hrs
    rw [eventsAt_struct] at hu
    exact exists_mem_of_relabel hu

/-- A leaf leads to nothing else. -/
theorem namesOpened_leaf (hlog : ∀ level id count, ∃ inner,
      eventsAt chunk config level id count t = levelEvents config level id count t inner)
    (hleaf : ∀ level id count r, ¬ chunk.LeadsTo ⟨level, id, count, t⟩ r) :
    NamesOpened chunk config t := by
  intro level id count c hc s hs
  obtain ⟨inner, hinner⟩ := hlog level id count
  rw [hinner]
  exact exists_mem_levelEvents hc hs fun r hr _ ↦ absurd hr (hleaf level id count r)

theorem namesOpened (chunk : Chunk) (config : DecodeConfig) (t : LogicalType) :
    NamesOpened chunk config t := by
  have hfixed : ∀ kind, NamesOpened chunk config (.fixed kind) := fun kind ↦
    namesOpened_leaf (fun _ _ _ ↦ ⟨[], by rw [eventsAt]⟩) fun _ _ _ _ h ↦ by cases h
  induction t using LogicalType.inductionOn with
  | fixed kind => exact hfixed kind
  | string kind =>
    exact namesOpened_leaf (fun _ _ _ ↦ ⟨[], by rw [eventsAt]⟩) fun _ _ _ _ h ↦ by cases h
  | decimal type =>
    exact namesOpened_leaf (fun _ _ _ ↦ ⟨[], by rw [eventsAt]⟩) fun _ _ _ _ h ↦ by cases h
  | enumeration type =>
    exact namesOpened_leaf (fun _ _ _ ↦ ⟨_, by rw [eventsAt]⟩) fun _ _ _ _ h ↦ by cases h
  | list element ih => exact namesOpened_list ih
  | struct fields ih => exact namesOpened_struct ih
  | map key value ihKey ihValue => exact namesOpened_map ihKey ihValue
  | array element length ih => exact namesOpened_array ih
  | union alternatives ih => exact namesOpened_union ih (hfixed _)
  | other typeId => exact fun hc ↦ absurd hc decodeAt_other_ne_ok

/-- If a vector is opened, its log names exactly the vectors that the opening leads to, with the
numbers of rows that are asked of them. -/
theorem exists_mem_eventsAt_iff {n v : Nat} (h : decodeAt chunk config level id count t = .ok c) :
    (∃ u, .decoding n u v ∈ eventsAt chunk config level id count t) ↔
      ∃ inside u, ReflTransGen chunk.LeadsTo ⟨level, id, count, t⟩ ⟨inside, v, n, u⟩ := by
  constructor
  · rintro ⟨u, hu⟩
    obtain ⟨inside, -, hreach⟩ := reached_of_mem_eventsAt hu
    exact ⟨inside, u, hreach⟩
  · rintro ⟨inside, u, hreach⟩
    exact namesOpened chunk config t h hreach

end NamesOpened

/-! ### Looking into columns -/

/-- The types whose columns have a text. -/
def HasText : LogicalType → Prop
  | .fixed .boolean | .fixed (.integer _) | .string _ => True
  | _ => False

/-- All values of a fixed width can be read. -/
theorem exists_rowTexts_eq {ok : Nat → Prop} {kind : FixedKind} {slots : Slots} {start len : Nat}
    (h : Within ok ⟨.fixed kind slots, start, len⟩) :
    ∃ text, rowTexts ⟨.fixed kind slots, start, len⟩ = .ok text := by
  have hrows : ∀ i ∈ List.range len, ∃ v, get ⟨.fixed kind slots, start, len⟩ i = .ok v := by
    intro i hi
    have hlt : i < len := List.mem_range.1 hi
    rw [← getItem_of_lt hlt, h.getItem_eq hlt]
    split
    · exact ⟨_, rfl⟩
    · exact ⟨_, rfl⟩
  obtain ⟨rows, hrows⟩ := exists_mapM_eq_ok_iff.2 hrows
  exact exists_bind_eq_ok_iff.2 ⟨rows, hrows, _, rfl⟩

/-- Looking into a column does not fail, and gives a text if its type has one. -/
theorem exists_inspect_eq {ok : Nat → Prop} (h : c.Within ok) :
    ∃ text?, c.inspect = .ok text? ∧ (text?.isSome ↔ HasText c.type) := by
  obtain ⟨layout, start, len⟩ := c
  cases layout with
  | fixed kind slots =>
    obtain ⟨text, htext⟩ := exists_rowTexts_eq h
    cases kind with
    | boolean => exact ⟨some text, map_eq_ok_iff.2 ⟨text, htext, rfl⟩, iff_of_true rfl trivial⟩
    | integer kind => exact ⟨some text, map_eq_ok_iff.2 ⟨text, htext, rfl⟩, iff_of_true rfl trivial⟩
    | _ => exact ⟨none, rfl, by simp [HasText, type, Layout.type]⟩
  | string kind slots heap => exact ⟨_, rfl, iff_of_true rfl trivial⟩
  | _ => exact ⟨none, rfl, by simp [HasText, type, Layout.type]⟩

end Column

end Columnar
