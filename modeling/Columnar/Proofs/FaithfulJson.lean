import Mathlib.Data.List.Nodup
import Columnar.Proofs.Bits
import Columnar.Proofs.ScalarTexts
import Columnar.Proofs.Typing
import Columnar.Proofs.UuidOrder

/-!
# The JSON of a value tells what it is

Values of one type that are shown alike are the same (`Value.Same`): what they hold is equal at all
levels, where a bit string is its bits and not the padding in front of them. Two kinds of types are
left out (`LogicalType.Unambiguous`): a floating-point value that is no number is shown without its
bits, and of two fields with one name the object has only the later one.

The proof is an induction on the type, since the JSON of a value does not say which type it is of.
Leaves are told apart by their texts, as `ScalarTexts` has it. The members of an object are found by
name (`Json.member?_ofMembers`), so if no name occurs twice, the object determines all of them
(`Json.ofMembers_injective`).
-/

namespace Columnar

/-! ### Objects -/

namespace Json

/-- The member of an object with a name. -/
def member? : Json → String → Option Json
  | .object members, name => members.lookup name
  | _, _ => none

theorem lookup_cons_eq_ite {name other : String} {value : Json} {members : List (String × Json)} :
    ((name, value) :: members).lookup other =
      if other = name then some value else members.lookup other := by
  rw [List.lookup_cons]
  split <;> simp_all

theorem lookup_insert {name other : String} {value : Json} {members : List (String × Json)} :
    (insert name value members).lookup other =
      if other = name then some value else members.lookup other := by
  induction members with
  | nil => exact lookup_cons_eq_ite
  | cons m rest ih =>
    obtain ⟨key, old⟩ := m
    by_cases hlt : name < key
    · rw [insert, if_pos hlt, lookup_cons_eq_ite]
    by_cases heq : name = key
    · rw [insert, if_neg hlt, if_pos heq, lookup_cons_eq_ite, lookup_cons_eq_ite, heq]
      split <;> rfl
    · rw [insert, if_neg hlt, if_neg heq, lookup_cons_eq_ite, lookup_cons_eq_ite, ih]
      split_ifs with hkey hname
      · exact absurd (hname.symm.trans hkey) heq
      all_goals rfl

theorem lookup_foldl_insert {members acc : List (String × Json)} {name : String} :
    (members.foldl (fun acc m ↦ insert m.1 m.2 acc) acc).lookup name =
      (members.reverse.lookup name).or (acc.lookup name) := by
  induction members generalizing acc with
  | nil => rfl
  | cons m rest ih =>
    rw [List.foldl_cons, ih, lookup_insert, List.reverse_cons, List.lookup_append,
      lookup_cons_eq_ite, Option.or_assoc]
    congr 1
    split <;> rfl

theorem lookup_of_mem {members : List (String × Json)} (h : (members.map (·.1)).Nodup)
    {m : String × Json} (hm : m ∈ members) : members.lookup m.1 = some m.2 := by
  induction members with
  | nil => simp at hm
  | cons first rest ih =>
    rw [List.map_cons, List.nodup_cons] at h
    rw [lookup_cons_eq_ite]
    rcases List.mem_cons.1 hm with rfl | hm
    · exact if_pos rfl
    · have hne : m.1 ≠ first.1 := fun heq ↦ h.1 (heq ▸ List.mem_map_of_mem hm)
      rw [if_neg hne, ih h.2 hm]

/-- Of several members of one name the object has the last one. -/
theorem member?_ofMembers (members : List (String × Json)) (name : String) :
    (ofMembers members).member? name = members.reverse.lookup name := by
  rw [ofMembers, member?, lookup_foldl_insert, List.lookup_nil, Option.or_none]

theorem member?_of_mem {members : List (String × Json)} (h : (members.map (·.1)).Nodup)
    {m : String × Json} (hm : m ∈ members) : (ofMembers members).member? m.1 = some m.2 := by
  rw [member?_ofMembers]
  exact lookup_of_mem (by rwa [List.map_reverse, List.nodup_reverse]) (List.mem_reverse.2 hm)

/-- An object determines its members, if it is known which ones it has and none is there twice. -/
theorem ofMembers_injective {members others : List (String × Json)}
    (hnames : members.map (·.1) = others.map (·.1)) (hnodup : (members.map (·.1)).Nodup)
    (h : ofMembers members = ofMembers others) : members = others := by
  have hread : ∀ {ms : List (String × Json)}, (ms.map (·.1)).Nodup →
      ms = (ms.map (·.1)).map fun name ↦ (name, ((ofMembers ms).member? name).getD .null) := by
    intro ms hms
    rw [List.map_map]
    refine (List.map_id ms).symm.trans (List.map_congr_left fun m hm ↦ ?_)
    simp [member?_of_mem hms hm]
  calc members = (members.map (·.1)).map fun name ↦
        (name, ((ofMembers members).member? name).getD .null) := hread hnodup
    _ = others := by rw [hnames, h, ← hread (hnames ▸ hnodup)]

theorem ofInt_ne_null (n : Int) : ofInt n ≠ .null := by
  unfold ofInt
  split <;> simp

theorem ofDouble_ne_null (bits : UInt64) : ofDouble bits ≠ .null := by
  unfold ofDouble
  split <;> simp

end Json

/-! ### Values that are the same -/

namespace Value

mutual

/-- The values are equal at all levels, where bit strings are compared by their bits. -/
def Same : Value → Value → Prop
  | .bit a, w => ∃ b, w = .bit b ∧ a.bits = b.bits
  | .list element len row, w => ∃ row', w = .list element len row' ∧ ∀ i, RowSame (row i) (row' i)
  | .array element len row, w => ∃ row', w = .array element len row' ∧ ∀ i, RowSame (row i) (row' i)
  | .struct fields, w => ∃ fields', w = .struct fields' ∧ FieldsSame fields fields'
  | .map pairs, w => ∃ pairs', w = .map pairs' ∧ PairsSame pairs pairs'
  | .union tag value, w => ∃ value', w = .union tag value' ∧ value.Same value'
  | v, w => v = w
termination_by structural v => v

/-- The rows hold values that are the same, or cannot be read for the same reason. -/
def RowSame : Except Failure Value → Except Failure Value → Prop
  | .ok value, row => ∃ value', row = .ok value' ∧ value.Same value'
  | .error failure, row => row = .error failure
termination_by structural row => row

/-- There are the same values under the same names, in order. -/
def FieldsSame : List (String × Value) → List (String × Value) → Prop
  | [], others => others = []
  | (name, value) :: rest, others =>
    ∃ value' rest', others = (name, value') :: rest' ∧ value.Same value' ∧ FieldsSame rest rest'
termination_by structural fields => fields

/-- There are pairs of the same values, in order. -/
def PairsSame : List (Value × Value) → List (Value × Value) → Prop
  | [], others => others = []
  | (key, value) :: rest, others =>
    ∃ key' value' rest', others = (key', value') :: rest' ∧ (key.Same key' ∧ value.Same value') ∧
      PairsSame rest rest'
termination_by structural pairs => pairs

end

theorem fieldsSame_iff {fields others : List (String × Value)} :
    FieldsSame fields others ↔
      List.Forall₂ (fun f g ↦ f.1 = g.1 ∧ f.2.Same g.2) fields others := by
  induction fields generalizing others with
  | nil => simp [FieldsSame]
  | cons f rest ih =>
    rw [FieldsSame, List.forall₂_cons_left_iff]
    constructor
    · rintro ⟨value, others, rfl, hvalue, hrest⟩
      exact ⟨(f.1, value), others, ⟨rfl, hvalue⟩, ih.1 hrest, rfl⟩
    · rintro ⟨⟨name, value⟩, others, ⟨rfl, hvalue⟩, hrest, rfl⟩
      exact ⟨value, others, rfl, hvalue, ih.2 hrest⟩

theorem pairsSame_iff {pairs others : List (Value × Value)} :
    PairsSame pairs others ↔
      List.Forall₂ (fun p q ↦ p.1.Same q.1 ∧ p.2.Same q.2) pairs others := by
  induction pairs generalizing others with
  | nil => simp [PairsSame]
  | cons p rest ih =>
    rw [PairsSame, List.forall₂_cons_left_iff]
    constructor
    · rintro ⟨key, value, others, rfl, hpair, hrest⟩
      exact ⟨(key, value), others, hpair, ih.1 hrest, rfl⟩
    · rintro ⟨⟨key, value⟩, others, hpair, hrest, rfl⟩
      exact ⟨key, value, others, rfl, hpair, ih.2 hrest⟩

theorem rowSame_self {row : Outcome Value} (h : ∀ v, row = .ok v → v.Same v) : RowSame row row := by
  cases row with
  | error failure => rfl
  | ok v => exact ⟨v, rfl, h v rfl⟩

theorem Same.refl (v : Value) : v.Same v := by
  induction v using Value.inductionOn with
  | list element len row ih => exact ⟨row, rfl, fun i ↦ rowSame_self (ih i)⟩
  | array element len row ih => exact ⟨row, rfl, fun i ↦ rowSame_self (ih i)⟩
  | struct fields ih =>
    exact ⟨fields, rfl, fieldsSame_iff.2 (List.forall₂_same.2 fun f hf ↦ ⟨rfl, ih f hf⟩)⟩
  | map pairs ih => exact ⟨pairs, rfl, pairsSame_iff.2 (List.forall₂_same.2 ih)⟩
  | union tag value ih => exact ⟨value, rfl, ih⟩
  | bit b => exact ⟨b, rfl, rfl⟩
  | _ => rfl

section Shown

variable [Uuid.Library]

/-- Only null is shown as null. -/
theorem eq_null_of_toJson {v : Value} (h : v.toJson = .ok .null) : v = .null := by
  cases v with
  | null => rfl
  | list | array | struct | map =>
    obtain ⟨_, _, hnull⟩ := map_eq_ok_iff.1 h
    simp [Json.ofMembers] at hnull
  | union tag value =>
    obtain ⟨_, _, hnull⟩ := bind_eq_ok_iff.1 h
    simp [Json.ofMembers] at hnull
  | _ => simp [toJson, Json.ofInt_ne_null, Json.ofDouble_ne_null, Json.ofMembers] at h

theorem rowToJson_eq_ok_iff {row : Outcome Value} {x : Json} :
    rowToJson row = .ok x ↔ ∃ v, row = .ok v ∧ v.toJson = .ok x := by
  cases row <;> simp [rowToJson]

theorem fieldsToJson_cons_eq_ok_iff {f : String × Value} {rest : List (String × Value)}
    {members : List (String × Json)} :
    fieldsToJson (f :: rest) = .ok members ↔
      ∃ x others, f.2.toJson = .ok x ∧ fieldsToJson rest = .ok others ∧
        members = (f.1, x) :: others := by
  simp only [fieldsToJson, bind_eq_ok_iff, pure_eq_ok, Except.ok.injEq]
  grind

theorem pairsToJson_cons_eq_ok_iff {p : Value × Value} {rest : List (Value × Value)}
    {items : List Json} :
    pairsToJson (p :: rest) = .ok items ↔
      ∃ x y others, p.1.toJson = .ok x ∧ p.2.toJson = .ok y ∧ pairsToJson rest = .ok others ∧
        items = Json.ofMembers [("key", x), ("value", y)] :: others := by
  simp only [pairsToJson, bind_eq_ok_iff, pure_eq_ok, Except.ok.injEq]
  grind

/-- The members of a struct have the names of its fields. -/
theorem names_of_fieldsToJson {fields : List (String × Value)} {members : List (String × Json)}
    (h : fieldsToJson fields = .ok members) : members.map (·.1) = fields.map (·.1) := by
  induction fields generalizing members with
  | nil => obtain rfl := Except.ok.inj h; rfl
  | cons f rest ih =>
    obtain ⟨x, others, -, hrest, rfl⟩ := fieldsToJson_cons_eq_ok_iff.1 h
    rw [List.map_cons, List.map_cons, ih hrest]

theorem rowToJson_congr {row others : Outcome Value}
    (ih : ∀ v, row = .ok v → ∀ {w}, v.Same w → v.toJson = w.toJson) (h : RowSame row others) :
    rowToJson row = rowToJson others := by
  cases row with
  | error failure => rw [show others = .error failure from h]
  | ok v =>
    obtain ⟨w, rfl, h⟩ := h
    exact ih v rfl h

theorem fieldsToJson_congr {fields others : List (String × Value)}
    (h : List.Forall₂ (fun f g ↦ f.1 = g.1 ∧ f.2.toJson = g.2.toJson) fields others) :
    fieldsToJson fields = fieldsToJson others := by
  induction h with
  | nil => rfl
  | cons hf _ ih => rw [fieldsToJson, fieldsToJson, hf.1, hf.2, ih]

theorem pairsToJson_congr {pairs others : List (Value × Value)}
    (h : List.Forall₂ (fun p q ↦ p.1.toJson = q.1.toJson ∧ p.2.toJson = q.2.toJson) pairs others) :
    pairsToJson pairs = pairsToJson others := by
  induction h with
  | nil => rfl
  | cons hp _ ih => rw [pairsToJson, pairsToJson, hp.1, hp.2, ih]

/-- Values that are the same are shown alike, so the padding of a bit string never shows. -/
theorem Same.toJson_eq {v w : Value} (h : v.Same w) : v.toJson = w.toJson := by
  induction v using Value.inductionOn generalizing w with
  | list element len row ih =>
    obtain ⟨others, rfl, h⟩ := h
    rw [toJson, toJson, funext fun i ↦ rowToJson_congr (ih i) (h i)]
  | array element len row ih =>
    obtain ⟨others, rfl, h⟩ := h
    rw [toJson, toJson, funext fun i ↦ rowToJson_congr (ih i) (h i)]
  | struct fields ih =>
    obtain ⟨others, rfl, h⟩ := h
    have h := (List.forall₂_and_left _ _).2 ⟨ih, fieldsSame_iff.1 h⟩
    rw [toJson, toJson, fieldsToJson_congr (h.imp fun f g h ↦ ⟨h.2.1, h.1 h.2.2⟩)]
  | map pairs ih =>
    obtain ⟨others, rfl, h⟩ := h
    have h := (List.forall₂_and_left _ _).2 ⟨ih, pairsSame_iff.1 h⟩
    rw [toJson, toJson, pairsToJson_congr (h.imp fun p q h ↦ ⟨h.1.1 h.2.1, h.1.2 h.2.2⟩)]
  | union tag value ih =>
    obtain ⟨other, rfl, h⟩ := h
    rw [toJson, toJson, ih h]
  | bit b =>
    obtain ⟨other, rfl, h⟩ := h
    rw [toJson, toJson, BitString.text, BitString.text, h]
  | _ => rw [show _ = w from h]

end Shown

end Value

/-! ### Types -/

namespace LogicalType

mutual

/-- No leaf is a floating-point number, and no struct has two fields of one name, nor a union two
alternatives of one tag. -/
def Unambiguous : LogicalType → Prop
  | .fixed kind => kind ≠ .float ∧ kind ≠ .double
  | .string _ | .decimal _ | .enumeration _ | .other _ => True
  | .list element | .array element _ => element.Unambiguous
  | .map key value => key.Unambiguous ∧ value.Unambiguous
  | .struct fields => (fields.map (·.1)).Nodup ∧ PartsUnambiguous fields
  | .union alternatives => (alternatives.map (·.1)).Nodup ∧ PartsUnambiguous alternatives

/-- All the named types are unambiguous. -/
def PartsUnambiguous : List (String × LogicalType) → Prop
  | [] => True
  | (_, t) :: rest => t.Unambiguous ∧ PartsUnambiguous rest

end

theorem partsUnambiguous_iff {parts : List (String × LogicalType)} :
    PartsUnambiguous parts ↔ ∀ p ∈ parts, p.2.Unambiguous := by
  induction parts with
  | nil => simp [PartsUnambiguous]
  | cons p rest ih => rw [PartsUnambiguous, ih, List.forall_mem_cons]

theorem FieldsAdmit.names {fields : List (String × LogicalType)} {values : List (String × Value)}
    (h : FieldsAdmit fields values) : values.map (·.1) = fields.map (·.1) := by
  have hnames := (fieldsAdmit_iff.1 h).imp fun _ _ hfield ↦ hfield.1.symm
  rw [← List.forall₂_eq_eq_eq, List.forall₂_map_left_iff, List.forall₂_map_right_iff]
  exact hnames.flip.imp fun _ _ heq ↦ heq.symm

section Faithful

variable [lib : Uuid.Library]

/-- Values of the type that are shown alike are the same. -/
def IsFaithful (t : LogicalType) : Prop :=
  ∀ {v w : Value} {x : Json}, t.Admits v → t.Admits w → v.toJson = .ok x → w.toJson = .ok x →
    v.Same w

variable {t : LogicalType}

/-- Null is shown like no other value, so it is enough to look at the others. -/
theorem isFaithful_of_ne_null
    (h : ∀ {v w : Value} {x : Json}, v ≠ .null → w ≠ .null → t.Admits v → t.Admits w →
      v.toJson = .ok x → w.toJson = .ok x → v.Same w) : t.IsFaithful := by
  intro v w x hv hw hx hy
  by_cases hnull : x = .null
  · obtain rfl := Value.eq_null_of_toJson (hnull ▸ hx)
    obtain rfl := Value.eq_null_of_toJson (hnull ▸ hy)
    exact .refl _
  · refine h ?_ ?_ hv hw hx hy
    · rintro rfl
      exact hnull (Except.ok.inj hx).symm
    · rintro rfl
      exact hnull (Except.ok.inj hy).symm

/-! ### Leaves -/

theorem eq_of_fixed (hlib : lib.Documented) {kind : FixedKind} {v w : Value}
    (hkind : kind ≠ .float ∧ kind ≠ .double)
    (hv : kind.Admits v) (hw : kind.Admits w) (h : v.toJson = w.toJson) : v = w := by
  match kind, v, w, hv, hw with
  | .boolean, .boolean a, .boolean b, _, _ => rw [Json.bool.inj (Except.ok.inj h)]
  | .integer _, .integer _ m, .integer _ n, ⟨rfl, _⟩, ⟨rfl, _⟩ =>
    rw [Json.ofInt_injective (Except.ok.inj h)]
  | .float, _, _, _, _ => exact absurd rfl hkind.1
  | .double, _, _, _, _ => exact absurd rfl hkind.2
  | .temporal _, .temporal _ m, .temporal _ n, ⟨rfl, _⟩, ⟨rfl, _⟩ =>
    rw [Json.ofInt_injective (Except.ok.inj h)]
  | .timeTz, .timeTz a, .timeTz b, _, _ =>
    rw [TimeTz.text_injective (Json.text.inj (Except.ok.inj h))]
  | .interval, .interval ⟨months, days, micros⟩, .interval ⟨months', days', micros'⟩, _, _ =>
    have hobject := Except.ok.inj h
    have hmembers := Json.ofMembers_injective (by simp) (by simp) hobject
    simp only [List.cons.injEq, Prod.mk.injEq, Json.int.injEq, true_and, and_true] at hmembers
    obtain ⟨rfl, rfl, hmicros⟩ := hmembers
    rw [Json.ofInt_injective hmicros]
  | .uuid, .uuid a, .uuid b, _, _ =>
    rw [Uuid.text_injective hlib (Json.text.inj (Except.ok.inj h))]

theorem isFaithful_fixed (hlib : lib.Documented) {kind : FixedKind}
    (hkind : kind ≠ .float ∧ kind ≠ .double) :
    (fixed kind).IsFaithful := by
  refine isFaithful_of_ne_null fun {v w x} hv₀ hw₀ hv hw hx hy ↦ ?_
  rw [eq_of_fixed hlib hkind (hv.resolve_left hv₀) (hw.resolve_left hw₀) (hx.trans hy.symm)]
  exact .refl w

/-- Bit strings are where values that are not equal are shown alike. -/
theorem isFaithful_string (kind : StringKind) : (string kind).IsFaithful := by
  refine isFaithful_of_ne_null fun {v w x} hv₀ hw₀ hv hw hx hy ↦ ?_
  have h := hx.trans hy.symm
  match kind, v, w, hv.resolve_left hv₀, hw.resolve_left hw₀ with
  | .varchar, .varchar s, .varchar s', _, _ =>
    rw [Json.text.inj (Except.ok.inj h)]
    exact .refl _
  | .blob, .blob bs, .blob bs', _, _ =>
    rw [escapeBlob_injective (Json.text.inj (Except.ok.inj h))]
    exact .refl _
  | .bit, .bit a, .bit b, _, _ =>
    exact ⟨b, rfl, BitString.bits_eq_of_text_eq (Json.text.inj (Except.ok.inj h))⟩

theorem isFaithful_decimal (type : DecimalType) : (decimal type).IsFaithful := by
  refine isFaithful_of_ne_null fun {v w x} hv₀ hw₀ hv hw hx hy ↦ ?_
  obtain ⟨_, m, _, _, rfl⟩ := hv.resolve_left hv₀
  obtain ⟨_, n, _, _, rfl⟩ := hw.resolve_left hw₀
  -- The scale is that of the type.
  have htext := Json.text.inj (Except.ok.inj (hx.trans hy.symm))
  obtain rfl : m = n :=
    Decimal.value_eq_of_text_eq (a := ⟨m, type.width, type.scale⟩)
      (b := ⟨n, type.width, type.scale⟩) rfl htext
  exact .refl _

theorem isFaithful_enumeration (type : EnumType) : (enumeration type).IsFaithful := by
  refine isFaithful_of_ne_null fun {v w x} hv₀ hw₀ hv hw hx hy ↦ ?_
  obtain ⟨s, _, rfl⟩ := hv.resolve_left hv₀
  obtain ⟨s', _, rfl⟩ := hw.resolve_left hw₀
  obtain rfl : s = s' := Json.text.inj (Except.ok.inj (hx.trans hy.symm))
  exact .refl _

/-! ### Nested types -/

/-- Rows that are shown as the same items are as many, and hold values that are the same. -/
theorem IsFaithful.rowsSame (h : t.IsFaithful) {n : Nat} {row row' : Fin n → Outcome Value}
    {items : List Json} (hv : ∀ i v, row i = .ok v → t.Admits v)
    (hw : ∀ i v, row' i = .ok v → t.Admits v)
    (hx : Outcome.collect n (fun i ↦ Value.rowToJson (row i)) = .ok items)
    (hy : Outcome.collect n (fun i ↦ Value.rowToJson (row' i)) = .ok items) (i : Fin n) :
    Value.RowSame (row i) (row' i) := by
  obtain ⟨_, hx⟩ := Outcome.collect_eq_ok_iff.1 hx
  obtain ⟨_, hy⟩ := Outcome.collect_eq_ok_iff.1 hy
  obtain ⟨v, hrow, hv'⟩ := Value.rowToJson_eq_ok_iff.1 (hx i)
  obtain ⟨w, hrow', hw'⟩ := Value.rowToJson_eq_ok_iff.1 (hy i)
  rw [hrow, hrow']
  exact ⟨w, rfl, h (hv i v hrow) (hw i w hrow') hv' hw'⟩

theorem isFaithful_list {element : LogicalType} (h : element.IsFaithful) :
    (list element).IsFaithful := by
  refine isFaithful_of_ne_null fun {v w x} hv₀ hw₀ hv hw hx hy ↦ ?_
  obtain ⟨n, row, rfl, hrow⟩ := hv.resolve_left hv₀
  obtain ⟨n', row', rfl, hrow'⟩ := hw.resolve_left hw₀
  obtain ⟨items, hitems, rfl⟩ := map_eq_ok_iff.1 hx
  obtain ⟨items', hitems', harray⟩ := map_eq_ok_iff.1 hy
  obtain rfl := Json.array.inj harray
  obtain rfl : n = n' := (Outcome.collect_eq_ok_iff.1 hitems).1.symm.trans
    (Outcome.collect_eq_ok_iff.1 hitems').1
  exact ⟨row', rfl, h.rowsSame hrow hrow' hitems hitems'⟩

theorem isFaithful_array {element : LogicalType} (h : element.IsFaithful) (length : UInt64) :
    (array element length).IsFaithful := by
  refine isFaithful_of_ne_null fun {v w x} hv₀ hw₀ hv hw hx hy ↦ ?_
  obtain ⟨row, rfl, hrow⟩ := hv.resolve_left hv₀
  obtain ⟨row', rfl, hrow'⟩ := hw.resolve_left hw₀
  obtain ⟨items, hitems, rfl⟩ := map_eq_ok_iff.1 hx
  obtain ⟨items', hitems', harray⟩ := map_eq_ok_iff.1 hy
  obtain rfl := Json.array.inj harray
  exact ⟨row', rfl, h.rowsSame hrow hrow' hitems hitems'⟩

/-- Fields of the same types that are shown as the same members are the same. -/
theorem fieldsSame_of_toJson {fields : List (String × LogicalType)}
    (h : ∀ f ∈ fields, f.2.IsFaithful) {values values' : List (String × Value)}
    {members : List (String × Json)} (hv : FieldsAdmit fields values)
    (hw : FieldsAdmit fields values') (hx : Value.fieldsToJson values = .ok members)
    (hy : Value.fieldsToJson values' = .ok members) : Value.FieldsSame values values' := by
  induction fields generalizing values values' members with
  | nil =>
    obtain rfl := List.forall₂_nil_left_iff.1 (fieldsAdmit_iff.1 hv)
    exact List.forall₂_nil_left_iff.1 (fieldsAdmit_iff.1 hw)
  | cons f fields ih =>
    obtain ⟨hf, hrest⟩ := List.forall_mem_cons.1 h
    match values, values', hv, hw with
    | (name, v) :: rest, (name', w) :: rest', ⟨⟨hname, hv⟩, hadmits⟩, ⟨⟨hname', hw⟩, hadmits'⟩ =>
      obtain ⟨x, others, hvx, hothers, rfl⟩ := Value.fieldsToJson_cons_eq_ok_iff.1 hx
      obtain ⟨y, others', hwy, hothers', hcons⟩ := Value.fieldsToJson_cons_eq_ok_iff.1 hy
      obtain ⟨hmember, rfl⟩ := List.cons.inj hcons
      obtain ⟨rfl, rfl⟩ := Prod.mk.inj hmember
      exact ⟨w, rest', rfl, hf hv hw hvx hwy, ih hrest hadmits hadmits' hothers hothers'⟩

theorem isFaithful_struct {fields : List (String × LogicalType)}
    (hnodup : (fields.map (·.1)).Nodup) (h : ∀ f ∈ fields, f.2.IsFaithful) :
    (struct fields).IsFaithful := by
  refine isFaithful_of_ne_null fun {v w x} hv₀ hw₀ hv hw hx hy ↦ ?_
  obtain ⟨values, rfl, hvalues⟩ := hv.resolve_left hv₀
  obtain ⟨values', rfl, hvalues'⟩ := hw.resolve_left hw₀
  obtain ⟨members, hmembers, rfl⟩ := map_eq_ok_iff.1 hx
  obtain ⟨members', hmembers', hobject⟩ := map_eq_ok_iff.1 hy
  have hnames : members.map (·.1) = fields.map (·.1) :=
    (Value.names_of_fieldsToJson hmembers).trans hvalues.names
  have hnames' : members'.map (·.1) = fields.map (·.1) :=
    (Value.names_of_fieldsToJson hmembers').trans hvalues'.names
  obtain rfl := Json.ofMembers_injective (hnames'.trans hnames.symm) (hnames' ▸ hnodup) hobject
  exact ⟨values', rfl, fieldsSame_of_toJson h hvalues hvalues' hmembers hmembers'⟩

/-- Pairs that are shown as the same objects are the same. -/
theorem pairsSame_of_toJson {key value : LogicalType} (hkey : key.IsFaithful)
    (hvalue : value.IsFaithful) {pairs pairs' : List (Value × Value)} {items : List Json}
    (hv : ∀ p ∈ pairs, key.Admits p.1 ∧ value.Admits p.2)
    (hw : ∀ p ∈ pairs', key.Admits p.1 ∧ value.Admits p.2)
    (hx : Value.pairsToJson pairs = .ok items) (hy : Value.pairsToJson pairs' = .ok items) :
    Value.PairsSame pairs pairs' := by
  induction pairs generalizing pairs' items with
  | nil =>
    obtain rfl := Except.ok.inj hx
    match pairs' with
    | [] => rfl
    | p' :: rest' =>
      obtain ⟨_, _, _, _, _, _, hcons⟩ := Value.pairsToJson_cons_eq_ok_iff.1 hy
      cases hcons
  | cons p rest ih =>
    obtain ⟨x, y, others, hkx, hvy, hothers, rfl⟩ := Value.pairsToJson_cons_eq_ok_iff.1 hx
    match pairs' with
    | [] => cases hy
    | p' :: rest' =>
      obtain ⟨x', y', others', hkx', hvy', hothers', hcons⟩ :=
        Value.pairsToJson_cons_eq_ok_iff.1 hy
      obtain ⟨hobject, rfl⟩ := List.cons.inj hcons
      have hmembers := Json.ofMembers_injective (by simp) (by simp) hobject
      obtain ⟨⟨rfl, rfl⟩⟩ : (x, y) = (x', y') := by simpa using hmembers
      obtain ⟨⟨hpkey, hpvalue⟩, hvrest⟩ := List.forall_mem_cons.1 hv
      obtain ⟨⟨hpkey', hpvalue'⟩, hwrest⟩ := List.forall_mem_cons.1 hw
      exact ⟨p'.1, p'.2, rest', rfl, ⟨hkey hpkey hpkey' hkx hkx', hvalue hpvalue hpvalue' hvy hvy'⟩,
        ih hvrest hwrest hothers hothers'⟩

theorem isFaithful_map {key value : LogicalType} (hkey : key.IsFaithful)
    (hvalue : value.IsFaithful) : (map key value).IsFaithful := by
  refine isFaithful_of_ne_null fun {v w x} hv₀ hw₀ hv hw hx hy ↦ ?_
  obtain ⟨pairs, rfl, hpairs⟩ := hv.resolve_left hv₀
  obtain ⟨pairs', rfl, hpairs'⟩ := hw.resolve_left hw₀
  obtain ⟨items, hitems, rfl⟩ := map_eq_ok_iff.1 hx
  obtain ⟨items', hitems', harray⟩ := map_eq_ok_iff.1 hy
  obtain rfl := Json.array.inj harray
  exact ⟨pairs', rfl, pairsSame_of_toJson hkey hvalue hpairs hpairs' hitems hitems'⟩

theorem isFaithful_union {alternatives : List (String × LogicalType)}
    (hnodup : (alternatives.map (·.1)).Nodup) (h : ∀ a ∈ alternatives, a.2.IsFaithful) :
    (union alternatives).IsFaithful := by
  refine isFaithful_of_ne_null fun {v w x} hv₀ hw₀ hv hw hx hy ↦ ?_
  obtain ⟨tag, v, rfl, hmember⟩ := hv.resolve_left hv₀
  obtain ⟨tag', w, rfl, hmember'⟩ := hw.resolve_left hw₀
  obtain ⟨a, ha, rfl, hadmits⟩ := alternativesAdmit_iff.1 hmember
  obtain ⟨a', ha', rfl, hadmits'⟩ := alternativesAdmit_iff.1 hmember'
  obtain ⟨x, hvx, hobject⟩ := bind_eq_ok_iff.1 hx
  obtain ⟨y, hwy, hobject'⟩ := bind_eq_ok_iff.1 hy
  -- Both are objects of one member, so the tags are the same.
  have hmembers : [(a.1, x)] = [(a'.1, y)] :=
    Json.object.inj (Except.ok.inj (hobject.trans hobject'.symm))
  obtain ⟨htag, rfl⟩ := Prod.mk.inj (List.cons.inj hmembers).1
  obtain rfl : a = a' := List.inj_on_of_nodup_map hnodup ha ha' htag
  exact ⟨w, rfl, h a ha hadmits hadmits' hvx hwy⟩

/-- The JSON of a value of an unambiguous type determines it. -/
theorem Unambiguous.isFaithful (hlib : lib.Documented) (h : t.Unambiguous) : t.IsFaithful := by
  induction t using LogicalType.inductionOn with
  | fixed kind => exact isFaithful_fixed hlib h
  | string kind => exact isFaithful_string kind
  | decimal type => exact isFaithful_decimal type
  | enumeration type => exact isFaithful_enumeration type
  | list element ih => exact isFaithful_list (ih h)
  | struct fields ih =>
    exact isFaithful_struct h.1 fun f hf ↦ ih f hf (partsUnambiguous_iff.1 h.2 f hf)
  | map key value ihkey ihvalue => exact isFaithful_map (ihkey h.1) (ihvalue h.2)
  | array element length ih => exact isFaithful_array (ih h) length
  | union alternatives ih =>
    exact isFaithful_union h.1 fun a ha ↦ ih a ha (partsUnambiguous_iff.1 h.2 a ha)
  | other id => exact isFaithful_of_ne_null fun hv₀ _ hv _ _ _ ↦ (hv.resolve_left hv₀).elim

end Faithful

end LogicalType

namespace Column

/-- Rows that are shown alike hold values that are the same, whatever chunks they are from: the
columns are any two of the same unambiguous type, each within reach of one that was opened. -/
theorem same_of_toJson_eq [lib : Uuid.Library] (hlib : lib.Documented) {chunk chunk' : Chunk}
    {config config' : DecodeConfig}
    {id id' count count' : Nat} {opened opened' : LogicalType} {c₀ c₀' c c' : Column}
    (hc₀ : decode chunk config id count opened = .ok c₀)
    (hc₀' : decode chunk' config' id' count' opened' = .ok c₀') (hc : c₀.Reaches c)
    (hc' : c₀'.Reaches c') {t : LogicalType} (ht : t.Unambiguous) (htype : c.type = t)
    (htype' : c'.type = t) {i j : Nat} {v w : Value} (hv : c.getItem i = .ok v)
    (hw : c'.getItem j = .ok w) {x : Json} (hx : v.toJson = .ok x) (hy : w.toJson = .ok x) :
    v.Same w := by
  obtain ⟨-, -, -, -, -, hadmits⟩ := admits_of_decode hc₀
  obtain ⟨-, -, -, -, -, hadmits'⟩ := admits_of_decode hc₀'
  exact ht.isFaithful hlib (htype ▸ hadmits c hc i v hv) (htype' ▸ hadmits' c' hc' j w hw) hx hy

/-- Bits and an integer. -/
def bitsAndCount : LogicalType :=
  .struct [("bits", .string .bit), ("count", .fixed (.integer .bigInt))]

/-- One row of three bits and an integer that is shown as a text. The padding in front of the bits
holds `fill`. -/
def paddedBits (fill : UInt8) : Chunk where
  vectors := #[
    { type := bitsAndCount, children := [1, 2] },
    { type := .string .bit
      data := #[2, 0, 0, 0, 5, fill + 5, 0, 0, 0, 0, 0, 0, 0, 0, 0, 0] },
    { type := .fixed (.integer .bigInt), data := #[0, 0, 0, 0, 0, 0, 0x20, 0] }]

/-- The row of bits with their padding. -/
def paddedRow (fill : UInt8) : Value :=
  .struct [("bits", .bit ⟨5, [fill + 5], by decide, by simp⟩), ("count", .integer .bigInt (2 ^ 53))]

/-- Rows with different padding are not equal, but they are shown alike and are the same. -/
theorem paddedRow_same :
    Uuid.standard.Documented ∧ ∃ c c' : Column, decode (paddedBits 0) {} 0 1 bitsAndCount = .ok c ∧
      decode (paddedBits 0xf8) {} 0 1 bitsAndCount = .ok c' ∧ c.getItem 0 = .ok (paddedRow 0) ∧
        c'.getItem 0 = .ok (paddedRow 0xf8) ∧ paddedRow 0 ≠ paddedRow 0xf8 ∧
        (paddedRow 0).Same (paddedRow 0xf8) := by
  obtain ⟨c, hc, hrow⟩ : ∃ c : Column, decode (paddedBits 0) {} 0 1 bitsAndCount = .ok c ∧
    c.getItem 0 = .ok (paddedRow 0) := ⟨_, rfl, by rfl⟩
  obtain ⟨c', hc', hrow'⟩ : ∃ c : Column, decode (paddedBits 0xf8) {} 0 1 bitsAndCount = .ok c ∧
    c.getItem 0 = .ok (paddedRow 0xf8) := ⟨_, rfl, by rfl⟩
  have htype : bitsAndCount.Unambiguous := ⟨by decide, trivial, ⟨by decide, by decide⟩, trivial⟩
  refine ⟨Uuid.documented_standard, c, c', hc, hc', hrow, hrow', ?_, ?_⟩
  · simp [paddedRow]
  · exact same_of_toJson_eq Uuid.documented_standard hc hc' .refl .refl htype
      (admits_of_decode hc).2.1 (admits_of_decode hc').2.1 hrow hrow' rfl rfl

end Column

end Columnar
