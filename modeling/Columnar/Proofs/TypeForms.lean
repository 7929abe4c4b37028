import Columnar.LogicalType.Serialized
import Columnar.Proofs.JsonLibrary

/-!
# Types are read back from their texts

A library of JSON texts may read more than types are written as: other orders of members and members
of other names, arrays for records, objects for words. Nothing is assumed about these. Whatever the
library finds, the steps of the reader are those of the declarations, so no type is read from fewer
levels than its form has (`LogicalType.bounded`); and where the form itself is written, the type is read
back if the levels suffice (`ofInput?_of_spells`). So a type has a text that is read back if and only
if its form nests within the limit, and whatever text a type is read from, the text it is stored as
is read as the same type (`serialize_roundTrip`).
-/

namespace Columnar

theorem Json.itemsNesting_le_iff {items : List Json} {n : Nat} :
    itemsNesting items ≤ n ↔ ∀ item ∈ items, item.nesting ≤ n := by
  induction items with
  | nil => simp [itemsNesting]
  | cons item items ih => rw [itemsNesting, Nat.max_le, ih, List.forall_mem_cons]

namespace LogicalType

open Json (Library itemsNesting membersNesting nesting)

variable {lib : Library}

/-! ### Forms -/

theorem partForms_eq_map (nameKey : String) (parts : List (String × LogicalType)) :
    partForms lib nameKey parts = parts.map fun p ↦
      lib.record [(nameKey, .text p.1), ("logical_type", p.2.form lib)] := by
  induction parts with
  | nil => rfl
  | cons p parts ih =>
    obtain ⟨name, t⟩ := p
    rw [partForms, ih, List.map_cons]

section Forms

variable {Spells : ∀ {n : Nat}, lib.Input n → Json → Prop} (h : lib.Documented Spells)

include h

theorem doubleFree_variant {word : String} {members : List (String × Json)}
    (hmembers : Json.MembersDoubleFree members) :
    (lib.variant word (lib.record members)).DoubleFree := by
  rw [h.variant_eq, h.record_eq]
  exact ⟨hmembers, trivial⟩

theorem doubleFree_parts {nameKey : String} {parts : List (String × LogicalType)}
    (hparts : ∀ p ∈ parts, (p.2.form lib).DoubleFree) :
    (Json.array (partForms lib nameKey parts)).DoubleFree := by
  refine Json.itemsDoubleFree_iff.2 ?_
  rw [partForms_eq_map, List.forall_mem_map]
  intro p hp
  rw [h.record_eq]
  exact ⟨trivial, hparts p hp, trivial⟩

theorem doubleFree_form (t : LogicalType) : (t.form lib).DoubleFree := by
  have hunit : ∀ word, (lib.unit word).DoubleFree := by
    intro word
    rw [h.unit_eq]
    exact trivial
  induction t using LogicalType.inductionOn with
  | fixed kind | string kind => exact hunit _
  | decimal type => exact doubleFree_variant h ⟨trivial, trivial, trivial⟩
  | enumeration type =>
    refine doubleFree_variant h ⟨?_, hunit _, trivial⟩
    refine Json.itemsDoubleFree_iff.2 ?_
    rw [List.forall_mem_map]
    exact fun _ _ ↦ trivial
  | list element ih => exact doubleFree_variant h ⟨ih, trivial⟩
  | map key value ihKey ihValue => exact doubleFree_variant h ⟨ihKey, ihValue, trivial⟩
  | array element length ih => exact doubleFree_variant h ⟨ih, trivial, trivial⟩
  | struct fields ih | union alternatives ih =>
    exact doubleFree_variant h ⟨doubleFree_parts h ih, trivial⟩
  | other id =>
    rw [form, h.variant_eq]
    exact ⟨hunit _, trivial⟩

/-- A type with parameters takes a level for its word, and one for the parameters. -/
theorem nesting_variant (word : String) (members : List (String × Json)) :
    (lib.variant word (lib.record members)).nesting = membersNesting members + 2 := by
  rw [h.nesting_variant, h.nesting_record]

theorem nesting_enumeration (t : EnumType) :
    ((LogicalType.enumeration t).form lib).nesting = 3 := by
  have htexts : itemsNesting (t.values.toList.map .text) = 0 := by
    refine Nat.le_zero.1 (Json.itemsNesting_le_iff.2 ?_)
    rw [List.forall_mem_map]
    exact fun _ _ ↦ Nat.le_refl 0
  rw [form, nesting_variant h, membersNesting, membersNesting, nesting, htexts, h.nesting_unit]
  rfl

/-- The form of a list of named parts takes three levels, and another one for each of them. -/
theorem nesting_parts_le_iff {word listKey nameKey : String} {n : Nat}
    {parts : List (String × LogicalType)} :
    (lib.variant word (lib.record [(listKey, .array (partForms lib nameKey parts))])).nesting ≤ n ↔
      3 ≤ n ∧ ∀ p ∈ parts, (p.2.form lib).nesting + 4 ≤ n := by
  have hpart : ∀ p : String × LogicalType,
      (lib.record [(nameKey, .text p.1), ("logical_type", p.2.form lib)]).nesting =
        (p.2.form lib).nesting + 1 := by
    intro p
    rw [h.nesting_record, membersNesting, membersNesting, membersNesting, nesting]
    omega
  have hlevels : itemsNesting (partForms lib nameKey parts) ≤ n - 3 ↔
      ∀ p ∈ parts, (p.2.form lib).nesting + 1 ≤ n - 3 := by
    simp only [Json.itemsNesting_le_iff, partForms_eq_map, List.forall_mem_map, hpart]
  rw [nesting_variant h, membersNesting, membersNesting, nesting, Nat.max_zero]
  constructor
  · intro hle
    have hparts := hlevels.1 (by omega)
    exact ⟨by omega, fun p hp ↦ by have := hparts p hp; omega⟩
  · rintro ⟨hn, hparts⟩
    have := hlevels.2 fun p hp ↦ by have := hparts p hp; omega
    omega

end Forms

/-! ### Whatever is read takes its levels -/

/-- Nothing that is read where `n` arrays and objects may be opened has a form that nests deeper. The
contents of a type are read behind its word, and a named type inside an array. -/
structure Bounded (lib : Library) (n : Nat) : Prop where
  ofInput : ∀ {input : lib.Input n} {t : LogicalType},
    ofInput? lib n input = some t → (t.form lib).nesting ≤ n
  contents : ∀ {word : String} {body : lib.Input n} {t : LogicalType},
    contentsOf? lib n word body = some t → (t.form lib).nesting ≤ n + 1
  parts : ∀ {nameKey : String} {input : lib.Input n} {parts : List (String × LogicalType)},
    partsOf? lib n nameKey input = some parts →
      1 ≤ n ∧ ∀ p ∈ parts, (p.2.form lib).nesting + 2 ≤ n
  part : ∀ {nameKey : String} {input : lib.Input n} {p : String × LogicalType},
    partOf? lib n nameKey input = some p → (p.2.form lib).nesting + 1 ≤ n

/-- A type is read from its word, or from what stands behind the word. -/
theorem ofInput?_cases {n : Nat} {input : lib.Input n} {t : LogicalType}
    (hread : ofInput? lib n input = some t) :
    (∃ word, ofWord? word = some t) ∨
      ∃ m word, ∃ body : lib.Input m, n = m + 1 ∧ contentsOf? lib m word body = some t := by
  rw [ofInput?.eq_def] at hread
  split at hread
  next => cases hread
  next word _ => exact .inl ⟨word, hread⟩
  next m word body _ _ => exact .inr ⟨m, word, body, rfl, hread⟩

/-- A list of named types is read inside an array. -/
theorem Bounded.le_of_partsOf? {n : Nat} (ih : Bounded lib n) {nameKey : String}
    {input : lib.Input (n + 1)} {parts : List (String × LogicalType)}
    (hread : partsOf? lib (n + 1) nameKey input = some parts) :
    1 ≤ n + 1 ∧ ∀ p ∈ parts, (p.2.form lib).nesting + 2 ≤ n + 1 := by
  obtain ⟨inputs, -, hread⟩ := Option.bind_eq_some_iff.1 hread
  refine ⟨Nat.le_add_left 1 n, fun p hp ↦ ?_⟩
  obtain ⟨input, -, hpart⟩ := exists_mem_of_forall₂ (mapM_eq_some_iff.1 hread) hp
  exact Nat.succ_le_succ (ih.part hpart)

/-- A named type is read inside a record. -/
theorem Bounded.nesting_le_of_partOf? {n : Nat} (ih : Bounded lib n) {nameKey : String}
    {input : lib.Input (n + 1)} {p : String × LogicalType}
    (hread : partOf? lib (n + 1) nameKey input = some p) :
    (p.2.form lib).nesting + 1 ≤ n + 1 := by
  obtain ⟨inputs, -, hread⟩ := Option.bind_eq_some_iff.1 hread
  split at hread
  next nameInput input =>
    obtain ⟨name, -, hread⟩ := Option.bind_eq_some_iff.1 hread
    obtain ⟨t, ht, hread⟩ := Option.bind_eq_some_iff.1 hread
    obtain rfl := Option.some.inj hread
    exact Nat.succ_le_succ (ih.ofInput ht)
  next => cases hread

section Bounds

variable {Spells : ∀ {n : Nat}, lib.Input n → Json → Prop} (h : lib.Documented Spells)

include h

theorem nesting_of_ofWord? {word : String} {t : LogicalType} (hword : ofWord? word = some t) :
    (t.form lib).nesting = 0 := by
  obtain ⟨id, -, hword⟩ := Option.bind_eq_some_iff.1 hword
  obtain ⟨u, hu, hword⟩ := Option.bind_eq_some_iff.1 hword
  cases id <;> simp only [ofTypeId?, Option.some.injEq, reduceCtorEq] at hu <;> subst hu <;>
    cases hword <;> exact h.nesting_unit _

theorem nesting_le_of_leafOf? {n : Nat} {word : String} {body : lib.Input (n + 1)} {t : LogicalType}
    (hread : leafOf? lib word body = some t) : (t.form lib).nesting ≤ n + 2 := by
  unfold leafOf? at hread
  split at hread
  next =>
    obtain ⟨inputs, -, hread⟩ := Option.bind_eq_some_iff.1 hread
    split at hread
    next width scale =>
      obtain ⟨w, -, hread⟩ := Option.bind_eq_some_iff.1 hread
      obtain ⟨s, -, hread⟩ := Option.bind_eq_some_iff.1 hread
      obtain rfl := Option.some.inj hread
      rw [form, nesting_variant h]
      exact Nat.le_add_left 2 n
    next => cases hread
  next =>
    obtain ⟨inputs, -, hread⟩ := Option.bind_eq_some_iff.1 hread
    split at hread
    next values internalType =>
      obtain ⟨texts, htexts, hread⟩ := Option.bind_eq_some_iff.1 hread
      obtain ⟨id, -, hread⟩ := Option.bind_eq_some_iff.1 hread
      obtain rfl := Option.some.inj hread
      rw [nesting_enumeration h]
      -- the texts stand in an array, which has taken a level
      match n, values with
      | 0, _ => cases htexts
      | n + 1, _ => exact Nat.le_add_left 3 n
    next => cases hread
  next => cases hread

/-- An identifier by itself takes the level of its word. -/
theorem nesting_le_of_other {n : Nat} {t : LogicalType} {id? : Option TypeId}
    (hread : id?.map .other = some t) : (t.form lib).nesting ≤ n + 1 := by
  obtain ⟨id, -, rfl⟩ := Option.map_eq_some_iff.1 hread
  rw [form, h.nesting_variant, h.nesting_unit]
  exact Nat.le_add_left 1 n

/-- The contents of a type are a record, which takes a level. -/
theorem Bounded.nesting_le_of_contentsOf? {n : Nat} (ih : Bounded lib n) {word : String}
    {body : lib.Input (n + 1)} {t : LogicalType}
    (hread : contentsOf? lib (n + 1) word body = some t) : (t.form lib).nesting ≤ n + 2 := by
  rw [contentsOf?.eq_def] at hread
  split at hread
  next => exact nesting_le_of_other h hread
  dsimp only at hread
  split at hread
  next =>
    obtain ⟨inputs, -, hread⟩ := Option.bind_eq_some_iff.1 hread
    split at hread
    next input =>
      obtain ⟨element, helement, hread⟩ := Option.bind_eq_some_iff.1 hread
      obtain rfl := Option.some.inj hread
      have := ih.ofInput helement
      rw [form, nesting_variant h, membersNesting, membersNesting]
      omega
    next => cases hread
  next =>
    obtain ⟨inputs, -, hread⟩ := Option.bind_eq_some_iff.1 hread
    split at hread
    next input length =>
      obtain ⟨element, helement, hread⟩ := Option.bind_eq_some_iff.1 hread
      obtain ⟨number, -, hread⟩ := Option.bind_eq_some_iff.1 hread
      obtain rfl := Option.some.inj hread
      have := ih.ofInput helement
      rw [form, nesting_variant h, membersNesting, membersNesting, membersNesting, nesting]
      omega
    next => cases hread
  next =>
    obtain ⟨inputs, -, hread⟩ := Option.bind_eq_some_iff.1 hread
    split at hread
    next keyInput valueInput =>
      obtain ⟨key, hkey, hread⟩ := Option.bind_eq_some_iff.1 hread
      obtain ⟨value, hvalue, hread⟩ := Option.bind_eq_some_iff.1 hread
      obtain rfl := Option.some.inj hread
      have := ih.ofInput hkey
      have := ih.ofInput hvalue
      rw [form, nesting_variant h, membersNesting, membersNesting, membersNesting]
      omega
    next => cases hread
  iterate 2
    next =>
      obtain ⟨inputs, -, hread⟩ := Option.bind_eq_some_iff.1 hread
      split at hread
      next input =>
        obtain ⟨parts, hparts, hread⟩ := Option.bind_eq_some_iff.1 hread
        obtain rfl := Option.some.inj hread
        obtain ⟨hn, hle⟩ := ih.parts hparts
        exact (nesting_parts_le_iff h).2
          ⟨Nat.add_le_add_right hn 2, fun p hp ↦ Nat.add_le_add_right (hle p hp) 2⟩
      next => cases hread
  next => exact nesting_le_of_leafOf? h hread

/-- The bounds hold at every level. The induction is on the number of levels: each step of the
reader opens one array or object. -/
theorem bounded (n : Nat) : Bounded lib n := by
  have hword : ∀ {m : Nat} {word : String} {t : LogicalType}, ofWord? word = some t →
      (t.form lib).nesting ≤ m := by
    intro m word t hread
    rw [nesting_of_ofWord? h hread]
    exact Nat.zero_le m
  induction n with
  | zero =>
    refine ⟨fun hread ↦ ?_, fun hread ↦ ?_, nofun, nofun⟩
    · obtain ⟨word, hread⟩ | ⟨m, word, body, hm, -⟩ := ofInput?_cases hread
      · exact hword hread
      · cases hm
    · rw [contentsOf?.eq_def] at hread
      split at hread
      next => exact nesting_le_of_other h hread
      next => cases hread
  | succ n ih =>
    refine ⟨fun hread ↦ ?_, ih.nesting_le_of_contentsOf? h, ih.le_of_partsOf?,
      ih.nesting_le_of_partOf?⟩
    obtain ⟨word, hread⟩ | ⟨m, word, body, hm, hread⟩ := ofInput?_cases hread
    · exact hword hread
    · obtain rfl := Nat.succ.inj hm
      exact ih.contents hread

end Bounds

/-! ### Forms are read -/

theorem ofWord?_fixed (kind : FixedKind) : ofWord? kind.typeId.word = some (.fixed kind) := by
  rw [ofWord?, TypeId.ofWord?_word]
  cases kind with
  | integer kind => cases kind <;> rfl
  | temporal kind => cases kind <;> rfl
  | _ => rfl

theorem ofWord?_string (kind : StringKind) : ofWord? kind.typeId.word = some (.string kind) := by
  rw [ofWord?, TypeId.ofWord?_word]
  cases kind <;> rfl

section Reading

variable {Spells : ∀ {n : Nat}, lib.Input n → Json → Prop} (h : lib.Documented Spells)

include h

theorem ofInput?_unit {n : Nat} {input : lib.Input n} {id : TypeId} {t : LogicalType}
    (hinput : Spells input (lib.unit id.word)) (ht : ofWord? id.word = some t) :
    ofInput? lib n input = some t := by
  have hword : id.word ∈ plainWords := by
    refine List.mem_filter.2 ⟨List.mem_map_of_mem (TypeId.mem_all id), ?_⟩
    rw [ht]
    rfl
  rw [ofInput?.eq_def, h.variant?_unit hinput hword]
  cases n <;> exact ht

theorem typeId_ofInput?_unit {n : Nat} {input : lib.Input n} {id : TypeId}
    (hinput : Spells input (lib.unit id.word)) : TypeId.ofInput? lib input = some id := by
  rw [TypeId.ofInput?, h.variant?_unit hinput (List.mem_map_of_mem (TypeId.mem_all id))]
  exact TypeId.ofWord?_word id

/-- A type with parameters is read as what stands behind its word. -/
theorem exists_ofInput?_variant {n : Nat} {input : lib.Input (n + 1)} {word : String} {value : Json}
    (hword : word ∈ formWords) (hinput : Spells input (lib.variant word value)) :
    ∃ body, Spells body value ∧ ofInput? lib (n + 1) input = contentsOf? lib n word body := by
  obtain ⟨body, hread, hbody⟩ : ∃ body,
      lib.variant? plainWords formWords input = some (.contents word body) ∧ Spells body value :=
    h.variant?_variant hinput hword
  refine ⟨body, hbody, ?_⟩
  rw [ofInput?.eq_def, hread]

theorem contentsOf?_decimal {n : Nat} {body : lib.Input (n + 1)} {type : DecimalType}
    (hbody : Spells body (lib.record
      [("width", .int type.width.toNat), ("scale", .int type.scale.toNat)])) :
    contentsOf? lib (n + 1) "Decimal" body = some (.decimal type) := by
  obtain ⟨width, scale, hfields, hwidth, hscale⟩ := h.exists_record?_two (by decide) hbody
  show leafOf? lib "Decimal" body = _
  simp only [leafOf?, hfields, h.natural?_int hwidth type.width.toNat_lt,
    h.natural?_int hscale type.scale.toNat_lt, Option.bind_eq_bind, Option.bind_some,
    Option.pure_def, UInt8.ofNat_toNat]

theorem contentsOf?_enumeration {n : Nat} {body : lib.Input (n + 2)} {type : EnumType}
    (hbody : Spells body (lib.record [("values", .array (type.values.toList.map .text)),
      ("internal_type", lib.unit type.internalType.word)])) :
    contentsOf? lib (n + 2) "Enum" body = some (.enumeration type) := by
  obtain ⟨values, id, hfields, hvalues, hid⟩ := h.exists_record?_two (by decide) hbody
  obtain ⟨items, hitems, hall⟩ := h.items?_array hvalues
  have htexts : textsOf? lib values = some type.values.toList := by
    rw [textsOf?, hitems, Option.bind_eq_bind, Option.bind_some, mapM_eq_some_iff]
    exact (List.forall₂_map_right_iff.1 hall).imp fun _ _ ↦ h.text?_text
  show leafOf? lib "Enum" body = _
  simp only [leafOf?, hfields, htexts, typeId_ofInput?_unit h hid, Option.bind_eq_bind,
    Option.bind_some, Option.pure_def]

theorem contentsOf?_list {n : Nat} {body : lib.Input (n + 1)} {t : LogicalType}
    (hbody : Spells body (lib.record [("element", t.form lib)]))
    (ht : ∀ input : lib.Input n, Spells input (t.form lib) → ofInput? lib n input = some t) :
    contentsOf? lib (n + 1) "List" body = some (.list t) := by
  obtain ⟨element, hfields, helement⟩ := h.exists_record?_one hbody
  show (lib.record? ["element"] body >>= _) = _
  rw [hfields, Option.bind_eq_bind, Option.bind_some]
  show (ofInput? lib n element >>= fun t ↦ some (LogicalType.list t)) = _
  rw [ht element helement]
  rfl

theorem contentsOf?_array {n : Nat} {body : lib.Input (n + 1)} {t : LogicalType} {length : UInt64}
    (hbody : Spells body (lib.record [("element", t.form lib), ("length", .int length.toNat)]))
    (ht : ∀ input : lib.Input n, Spells input (t.form lib) → ofInput? lib n input = some t) :
    contentsOf? lib (n + 1) "Array" body = some (.array t length) := by
  obtain ⟨element, number, hfields, helement, hnumber⟩ := h.exists_record?_two (by decide) hbody
  show (lib.record? ["element", "length"] body >>= _) = _
  rw [hfields, Option.bind_eq_bind, Option.bind_some]
  show (ofInput? lib n element >>= fun t ↦ lib.natural? UInt64.size number >>= fun m ↦
    some (LogicalType.array t (UInt64.ofNat m))) = _
  rw [ht element helement, h.natural?_int hnumber length.toNat_lt]
  show some (LogicalType.array t (UInt64.ofNat length.toNat)) = _
  rw [UInt64.ofNat_toNat]

theorem contentsOf?_map {n : Nat} {body : lib.Input (n + 1)} {k v : LogicalType}
    (hbody : Spells body (lib.record [("key", k.form lib), ("value", v.form lib)]))
    (hk : ∀ input : lib.Input n, Spells input (k.form lib) → ofInput? lib n input = some k)
    (hv : ∀ input : lib.Input n, Spells input (v.form lib) → ofInput? lib n input = some v) :
    contentsOf? lib (n + 1) "Map" body = some (.map k v) := by
  obtain ⟨key, value, hfields, hkey, hvalue⟩ := h.exists_record?_two (by decide) hbody
  show (lib.record? ["key", "value"] body >>= _) = _
  rw [hfields, Option.bind_eq_bind, Option.bind_some]
  show (ofInput? lib n key >>= fun k ↦ ofInput? lib n value >>= fun v ↦
    some (LogicalType.map k v)) = _
  rw [hk key hkey, hv value hvalue]
  rfl

/-- Named types are read back if the types are, and there are levels for their forms. -/
theorem partsOf?_partForms {n : Nat} {nameKey : String} (hkey : nameKey ≠ "logical_type")
    {parts : List (String × LogicalType)} {input : lib.Input n} (hn : 1 ≤ n)
    (hlevels : ∀ p ∈ parts, (p.2.form lib).nesting + 2 ≤ n)
    (hinput : Spells input (.array (partForms lib nameKey parts)))
    (hparts : ∀ p ∈ parts, ∀ {m : Nat} {input : lib.Input m}, Spells input (p.2.form lib) →
      (p.2.form lib).nesting ≤ m → ofInput? lib m input = some p.2) :
    partsOf? lib n nameKey input = some parts := by
  obtain ⟨n, rfl⟩ := Nat.exists_eq_add_of_le' hn
  obtain ⟨items, hitems, hall⟩ := h.items?_array hinput
  rw [partForms_eq_map, List.forall₂_map_right_iff] at hall
  show (lib.items? input >>= fun items ↦ items.mapM (partOf? lib n nameKey)) = _
  rw [hitems, Option.bind_eq_bind, Option.bind_some, mapM_eq_some_iff]
  have hmem := (List.forall₂_and_left parts items).2 ⟨fun p hp ↦ hp, hall.flip⟩
  refine (hmem.imp fun p item hitem ↦ ?_).flip
  obtain ⟨hp, hitem⟩ := hitem
  have hroom := hlevels p hp
  obtain ⟨m, rfl⟩ : ∃ m, n = m + 1 := ⟨n - 1, by omega⟩
  obtain ⟨nameInput, typeInput, hfields, hname, htype⟩ := h.exists_record?_two hkey hitem
  show (lib.record? [nameKey, "logical_type"] item >>= _) = some p
  rw [hfields, Option.bind_eq_bind, Option.bind_some]
  show (lib.text? nameInput >>= fun name ↦ ofInput? lib m typeInput >>= fun t ↦
    some (name, t)) = some p
  rw [h.text?_text hname, hparts p hp htype (by omega)]
  rfl

theorem contentsOf?_struct {n : Nat} {body : lib.Input (n + 1)}
    {fields : List (String × LogicalType)}
    (hbody : Spells body (lib.record [("entries", .array (partForms lib "name" fields))]))
    (hfields : ∀ input : lib.Input n, Spells input (.array (partForms lib "name" fields)) →
      partsOf? lib n "name" input = some fields) :
    contentsOf? lib (n + 1) "Struct" body = some (.struct fields) := by
  obtain ⟨entries, hrecord, hentries⟩ := h.exists_record?_one hbody
  show (lib.record? ["entries"] body >>= _) = _
  rw [hrecord, Option.bind_eq_bind, Option.bind_some]
  show (partsOf? lib n "name" entries >>= fun fields ↦ some (LogicalType.struct fields)) = _
  rw [hfields entries hentries]
  rfl

theorem contentsOf?_union {n : Nat} {body : lib.Input (n + 1)}
    {alternatives : List (String × LogicalType)}
    (hbody : Spells body (lib.record
      [("alternatives", .array (partForms lib "tag" alternatives))]))
    (halternatives : ∀ input : lib.Input n,
      Spells input (.array (partForms lib "tag" alternatives)) →
        partsOf? lib n "tag" input = some alternatives) :
    contentsOf? lib (n + 1) "Union" body = some (.union alternatives) := by
  obtain ⟨parts, hrecord, hparts⟩ := h.exists_record?_one hbody
  show (lib.record? ["alternatives"] body >>= _) = _
  rw [hrecord, Option.bind_eq_bind, Option.bind_some]
  show (partsOf? lib n "tag" parts >>= fun alternatives ↦
    some (LogicalType.union alternatives)) = _
  rw [halternatives parts hparts]
  rfl

/-- Where the form of a type is written, the type is read if there are levels for the form. The
induction is on the type. -/
theorem ofInput?_of_spells {t : LogicalType} {n : Nat} {input : lib.Input n}
    (hinput : Spells input (t.form lib)) (hlevels : (t.form lib).nesting ≤ n) :
    ofInput? lib n input = some t := by
  induction t using LogicalType.inductionOn generalizing n with
  | fixed kind => exact ofInput?_unit h hinput (ofWord?_fixed kind)
  | string kind => exact ofInput?_unit h hinput (ofWord?_string kind)
  | other id =>
    rw [form, h.nesting_variant] at hlevels
    obtain ⟨n, rfl⟩ : ∃ m, n = m + 1 := ⟨n - 1, by omega⟩
    obtain ⟨body, hbody, heq⟩ := exists_ofInput?_variant h (by decide) hinput
    rw [heq, contentsOf?.eq_def, if_pos rfl, typeId_ofInput?_unit h hbody]
    rfl
  | decimal type =>
    rw [form, nesting_variant h] at hlevels
    obtain ⟨n, rfl⟩ : ∃ m, n = m + 2 := ⟨n - 2, by omega⟩
    obtain ⟨body, hbody, heq⟩ := exists_ofInput?_variant h (by decide) hinput
    rw [heq, contentsOf?_decimal h hbody]
  | enumeration type =>
    rw [nesting_enumeration h] at hlevels
    obtain ⟨n, rfl⟩ : ∃ m, n = m + 3 := ⟨n - 3, by omega⟩
    obtain ⟨body, hbody, heq⟩ := exists_ofInput?_variant h (by decide) hinput
    rw [heq, contentsOf?_enumeration h hbody]
  | list element ih =>
    rw [form, nesting_variant h, membersNesting] at hlevels
    obtain ⟨n, rfl⟩ : ∃ m, n = m + 2 := ⟨n - 2, by omega⟩
    obtain ⟨body, hbody, heq⟩ := exists_ofInput?_variant h (by decide) hinput
    rw [heq, contentsOf?_list h hbody fun _ hinput ↦ ih hinput (by omega)]
  | array element length ih =>
    rw [form, nesting_variant h, membersNesting] at hlevels
    obtain ⟨n, rfl⟩ : ∃ m, n = m + 2 := ⟨n - 2, by omega⟩
    obtain ⟨body, hbody, heq⟩ := exists_ofInput?_variant h (by decide) hinput
    rw [heq, contentsOf?_array h hbody fun _ hinput ↦ ih hinput (by omega)]
  | map key value ihKey ihValue =>
    rw [form, nesting_variant h, membersNesting, membersNesting] at hlevels
    obtain ⟨n, rfl⟩ : ∃ m, n = m + 2 := ⟨n - 2, by omega⟩
    obtain ⟨body, hbody, heq⟩ := exists_ofInput?_variant h (by decide) hinput
    rw [heq, contentsOf?_map h hbody (fun _ hinput ↦ ihKey hinput (by omega))
      fun _ hinput ↦ ihValue hinput (by omega)]
  | struct fields ih =>
    rw [form, nesting_parts_le_iff h] at hlevels
    obtain ⟨n, rfl⟩ : ∃ m, n = m + 2 := ⟨n - 2, by omega⟩
    obtain ⟨body, hbody, heq⟩ := exists_ofInput?_variant h (by decide) hinput
    rw [heq, contentsOf?_struct h hbody fun _ hinput ↦
      partsOf?_partForms h (by decide) (by omega)
        (fun p hp ↦ Nat.le_of_add_le_add_right (b := 2) (hlevels.2 p hp)) hinput ih]
  | union alternatives ih =>
    rw [form, nesting_parts_le_iff h] at hlevels
    obtain ⟨n, rfl⟩ : ∃ m, n = m + 2 := ⟨n - 2, by omega⟩
    obtain ⟨body, hbody, heq⟩ := exists_ofInput?_variant h (by decide) hinput
    rw [heq, contentsOf?_union h hbody fun _ hinput ↦
      partsOf?_partForms h (by decide) (by omega)
        (fun p hp ↦ Nat.le_of_add_le_add_right (b := 2) (hlevels.2 p hp)) hinput ih]

end Reading

/-! ### Texts -/

/-- The text of a type is read as that type if and only if it nests below the limit of 128 brackets.
Whatever text a type is read from, the text of the type is below the limit and read as the same
type. -/
theorem serialize_roundTrip {lib : Library} {Spells : ∀ {n : Nat}, lib.Input n → Json → Prop}
    (h : lib.Documented Spells) :
    (∀ t : LogicalType,
      deserialize? lib (t.serialize lib) = some t ↔ (t.form lib).nesting < 128) ∧
      ∀ (text : String) (t : LogicalType),
        deserialize? lib text = some t → deserialize? lib (t.serialize lib) = some t := by
  have hlevels : ∀ {m : Nat}, m ≤ lib.levels ↔ m < 128 := by
    intro m
    rw [← h.levels_eq, Nat.lt_succ_iff]
  have hread : ∀ t : LogicalType, (t.form lib).nesting < 128 →
      deserialize? lib (t.serialize lib) = some t := by
    intro t hlt
    obtain ⟨input, hopen, hinput⟩ := h.open?_print _ (doubleFree_form h t)
    rw [deserialize?, serialize, hopen, Option.bind_eq_bind, Option.bind_some]
    exact ofInput?_of_spells h hinput (hlevels.2 hlt)
  have hbound : ∀ (text : String) (t : LogicalType), deserialize? lib text = some t →
      (t.form lib).nesting < 128 := by
    intro text t hread
    obtain ⟨input, -, hread⟩ := Option.bind_eq_some_iff.1 hread
    exact hlevels.1 ((bounded h lib.levels).ofInput hread)
  exact ⟨fun t ↦ ⟨hbound _ t, hread t⟩, fun text t htext ↦ hread t (hbound text t htext)⟩

/-- The library of compact texts reads a text with arrays for records and an object for a word, which
the type is not written as. -/
theorem looseSpelling_roundTrip :
    (Json.standard.Documented fun input value ↦ input = value.document) ∧
      deserialize? Json.standard
          "\x7b\"Map\":[\x7b\"Varchar\":null\x7d,\x7b\"Decimal\":[4,1]\x7d]\x7d" =
        some (.map (.string .varchar) (.decimal ⟨4, 1⟩)) ∧
      ((LogicalType.map (.string .varchar) (.decimal ⟨4, 1⟩)).form Json.standard).nesting < 128 ∧
      deserialize? Json.standard
          ((LogicalType.map (.string .varchar) (.decimal ⟨4, 1⟩)).serialize Json.standard) =
        some (.map (.string .varchar) (.decimal ⟨4, 1⟩)) := by
  have hloose : deserialize? Json.standard
      "\x7b\"Map\":[\x7b\"Varchar\":null\x7d,\x7b\"Decimal\":[4,1]\x7d]\x7d" =
      some (.map (.string .varchar) (.decimal ⟨4, 1⟩)) := by decide +kernel
  have hread := (serialize_roundTrip Json.documented_standard).2 _ _ hloose
  exact ⟨Json.documented_standard, hloose,
    ((serialize_roundTrip Json.documented_standard).1 _).1 hread, hread⟩

end LogicalType

end Columnar
