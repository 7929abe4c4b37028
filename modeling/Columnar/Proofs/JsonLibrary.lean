import Columnar.Json.Standard
import Columnar.Proofs.JsonReading
import Columnar.Proofs.Outcome

/-!
# What is known of a library of JSON texts

`Json.Library.Documented` collects what the documentation of a library says: how variants and records
are written, that what was written is found again, and how deep a text may nest. Nothing is said about
texts that are written in another way. A library may read some of them, and as what is left to it.

The library of compact texts is such a library (`Json.documented_standard`), and it does read more
than it writes.
-/

namespace Columnar

/-- A map has a value when all its steps have one, and then it is the list of them. -/
theorem mapM_eq_some_iff {α β : Type} {f : α → Option β} {as : List α} {bs : List β} :
    as.mapM f = some bs ↔ List.Forall₂ (fun a b ↦ f a = some b) as bs := by
  induction as generalizing bs with
  | nil => cases bs <;> simp
  | cons a as ih =>
    rw [List.mapM_cons, List.forall₂_cons_left_iff]
    simp only [Option.bind_eq_bind, Option.bind_eq_some_iff, ih, Option.pure_def, Option.some.injEq]
    constructor
    · rintro ⟨b, hb, bs', hbs', rfl⟩
      exact ⟨b, bs', hb, hbs', rfl⟩
    · rintro ⟨b, bs', hb, hbs', rfl⟩
      exact ⟨b, hb, bs', hbs', rfl⟩

namespace Json

namespace Library

/-- What the documentation of a library says. `Spells` relates a place in a text to the value that is
written there. -/
structure Documented (lib : Library) (Spells : ∀ {n : Nat}, lib.Input n → Json → Prop) : Prop where
  /-- Variants are tagged from outside. Without contents, a variant is its name. -/
  unit_eq : ∀ name, lib.unit name = .text name
  /-- With contents, it is an object of one member, which has the name of the variant. -/
  variant_eq : ∀ name value, lib.variant name value = .object [(name, value)]
  /-- A record is an object with the fields as they are declared. -/
  record_eq : ∀ fields, lib.record fields = .object fields
  /-- Reading stops at the array or object with which 128 of them would be open. -/
  levels_eq : lib.levels + 1 = 128
  /-- What is printed is a text, and the value is written there. -/
  open?_print : ∀ value : Json, value.DoubleFree →
    ∃ input, lib.open? (lib.print value) = some input ∧ Spells input value
  /-- A variant that was written is read as itself. -/
  variant?_unit : ∀ {n : Nat} {input : lib.Input n} {units contents : List String} {name : String},
    Spells input (lib.unit name) → name ∈ units →
      lib.variant? units contents input = some (.unit name)
  /-- A variant that was written with contents is read as itself, and the contents are written where
  they are found. -/
  variant?_variant : ∀ {n : Nat} {input : lib.Input (n + 1)} {units contents : List String}
    {name : String} {value : Json}, Spells input (lib.variant name value) → name ∈ contents →
      ∃ body, lib.variant? units contents input = some (.contents name body) ∧ Spells body value
  /-- The fields of a record that was written are found, if no name is there twice. -/
  record?_record : ∀ {n : Nat} {input : lib.Input (n + 1)} {fields : List (String × Json)},
    Spells input (lib.record fields) → (fields.map (·.1)).Nodup →
      ∃ inputs, lib.record? (fields.map (·.1)) input = some inputs ∧
        List.Forall₂ (fun input field ↦ Spells input field.2) inputs fields
  /-- The items of an array that was written are found. -/
  items?_array : ∀ {n : Nat} {input : lib.Input (n + 1)} {items : List Json},
    Spells input (.array items) →
      ∃ inputs, lib.items? input = some inputs ∧ List.Forall₂ (Spells ·) inputs items
  /-- A text that was written is read. -/
  text?_text : ∀ {n : Nat} {input : lib.Input n} {text : String},
    Spells input (.text text) → lib.text? input = some text
  /-- A natural number that was written is read, if it is below the bound. -/
  natural?_int : ∀ {n : Nat} {input : lib.Input n} {bound number : Nat},
    Spells input (.int number) → number < bound → lib.natural? bound input = some number

namespace Documented

variable {lib : Library} {Spells : ∀ {n : Nat}, lib.Input n → Json → Prop} {n : Nat}

theorem nesting_unit (h : lib.Documented Spells) (name : String) : (lib.unit name).nesting = 0 := by
  rw [h.unit_eq, nesting]

theorem nesting_variant (h : lib.Documented Spells) (name : String) (value : Json) :
    (lib.variant name value).nesting = value.nesting + 1 := by
  rw [h.variant_eq, nesting, membersNesting, membersNesting, Nat.max_zero, Nat.add_comm]

theorem nesting_record (h : lib.Documented Spells) (fields : List (String × Json)) :
    (lib.record fields).nesting = membersNesting fields + 1 := by
  rw [h.record_eq, nesting, Nat.add_comm]

/-- The one field of a record is found. -/
theorem exists_record?_one (h : lib.Documented Spells) {input : lib.Input (n + 1)} {a : String}
    {x : Json} (hinput : Spells input (lib.record [(a, x)])) :
    ∃ i, lib.record? [a] input = some [i] ∧ Spells i x := by
  obtain ⟨inputs, hread, hall⟩ := h.record?_record hinput (by simp)
  obtain ⟨i, rest, hi, hnil, rfl⟩ := List.forall₂_cons_right_iff.1 hall
  obtain rfl := List.forall₂_nil_right_iff.1 hnil
  exact ⟨i, hread, hi⟩

/-- Both fields of a record are found, in the order of the names. -/
theorem exists_record?_two (h : lib.Documented Spells) {input : lib.Input (n + 1)} {a b : String}
    {x y : Json} (hne : a ≠ b) (hinput : Spells input (lib.record [(a, x), (b, y)])) :
    ∃ i j, lib.record? [a, b] input = some [i, j] ∧ Spells i x ∧ Spells j y := by
  obtain ⟨inputs, hread, hall⟩ := h.record?_record hinput (by simpa using hne)
  obtain ⟨i, rest, hi, hrest, rfl⟩ := List.forall₂_cons_right_iff.1 hall
  obtain ⟨j, rest, hj, hnil, rfl⟩ := List.forall₂_cons_right_iff.1 hrest
  obtain rfl := List.forall₂_nil_right_iff.1 hnil
  exact ⟨i, j, hread, hi, hj⟩

end Documented

end Library

/-! ### The library of compact texts -/

namespace Document

theorem itemDocuments_eq_map (items : List Json) : itemDocuments items = items.map document := by
  induction items with
  | nil => rfl
  | cons item items ih => rw [itemDocuments, ih, List.map_cons]

theorem memberDocuments_eq_map (members : List (String × Json)) :
    memberDocuments members = members.map fun m ↦ (some m.1, m.2.document) := by
  induction members with
  | nil => rfl
  | cons m members ih =>
    obtain ⟨name, value⟩ := m
    rw [memberDocuments, ih, List.map_cons]

/-- Trees are those of their values. -/
theorem forall₂_documents {α : Type} (as : List α) (value : α → Json) :
    List.Forall₂ (fun (doc : Document) a ↦ doc = (value a).document)
      (as.map fun a ↦ (value a).document) as := by
  rw [List.forall₂_map_left_iff, List.forall₂_same]
  exact fun _ _ ↦ rfl

/-- A member is found by its name, if no other member has the name. -/
theorem member?_of_mem {members : List (String × Json)} {m : String × Json} (hm : m ∈ members)
    (h : (members.map (·.1)).Nodup) :
    member? m.1 (memberDocuments members) = some (some m.2.document) := by
  obtain ⟨before, after, rfl⟩ := List.append_of_mem hm
  rw [List.map_append, List.map_cons, List.nodup_append, List.nodup_cons] at h
  obtain ⟨-, ⟨hafter, -⟩, hbefore⟩ := h
  have hother : ∀ others : List (String × Json), (∀ o ∈ others, o.1 ≠ m.1) →
      (memberDocuments others).filter (·.1 == some m.1) = [] := by
    intro others hothers
    rw [memberDocuments_eq_map, List.filter_eq_nil_iff, List.forall_mem_map]
    exact fun o ho ↦ by simpa using hothers o ho
  have hleft := hother before fun o ho ↦ hbefore _ (List.mem_map_of_mem ho) _ List.mem_cons_self
  have hright := hother after fun o ho heq ↦ hafter (heq ▸ List.mem_map_of_mem ho)
  have hfilter : (memberDocuments (before ++ m :: after)).filter (·.1 == some m.1) =
      [(some m.1, m.2.document)] := by
    rw [memberDocuments_eq_map] at hleft hright ⊢
    simp [hleft, hright]
  rw [member?, hfilter]

/-- The fields of an object are found, each by its name. -/
theorem fields?_object {members : List (String × Json)} (h : (members.map (·.1)).Nodup) :
    fields? (members.map (·.1)) (.object (memberDocuments members)) =
      some (members.map (·.2.document)) := by
  have hall : (memberDocuments members).all (·.1.isSome) = true := by
    rw [memberDocuments_eq_map, List.all_map]
    exact List.all_eq_true.2 fun _ _ ↦ rfl
  have hfound : (members.map (·.1)).mapM (member? · (memberDocuments members)) =
      some (members.map fun m ↦ some m.2.document) := by
    rw [mapM_eq_some_iff, List.forall₂_map_left_iff, List.forall₂_map_right_iff, List.forall₂_same]
    exact fun m hm ↦ member?_of_mem hm h
  rw [fields?, record?, if_pos hall, hfound, Option.bind_eq_bind, Option.bind_some,
    mapM_eq_some_iff, List.forall₂_map_left_iff, List.forall₂_map_right_iff, List.forall₂_same]
  exact fun _ _ ↦ rfl

theorem natural?_integer {number bound : Nat} (h : number < bound) :
    natural? bound (.integer number) = some number := by
  rw [natural?, if_pos ⟨Int.natCast_nonneg number, Int.ofNat_lt.2 h⟩]
  rfl

end Document

/-- The library of compact texts is one. -/
theorem documented_standard : standard.Documented fun input value ↦ input = value.document where
  unit_eq _ := rfl
  variant_eq _ _ := rfl
  record_eq _ := rfl
  levels_eq := rfl
  open?_print _ h := ⟨_, parse?_compact h, rfl⟩
  variant?_unit h hname := by
    subst h
    exact if_pos hname
  variant?_variant h hname := by
    subst h
    exact ⟨_, if_pos hname, rfl⟩
  record?_record h hnodup := by
    subst h
    exact ⟨_, Document.fields?_object hnodup,
      Document.forall₂_documents _ fun field : String × Json ↦ field.2⟩
  items?_array h := by
    subst h
    refine ⟨_, rfl, ?_⟩
    rw [Document.itemDocuments_eq_map]
    exact Document.forall₂_documents _ id
  text?_text h := by
    subst h
    rfl
  natural?_int h hlt := by
    subst h
    exact Document.natural?_integer hlt

end Json

end Columnar
