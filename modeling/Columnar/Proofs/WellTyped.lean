import Columnar.Proofs.Arena

/-!
# Which columns can be encoded

Literals need not have a value to be encoded. A decimal that is too large for its column, an index
past the end of a dictionary, a union tag without an alternative and a string that lies nowhere are
all written as they are. What the encoder asks for is that the parts of a literal are of the right
kind, all the way down: `LogicalType.Fits` gives the rules of this, one for each kind of type.

A column is encoded if and only if its type is one that can be written (`LogicalType.Writable`) and
all its literals fit (`Encoder.exists_addVector_iff`). That the literals are looked at one level after
the other, with nulls put in where a child has no literal of its own, makes no difference, nor does it
that there may be no literals at all.
-/

namespace Columnar

/-! ### Rules -/

/-- The literals that have a slot of the kind. The offset of a time has to have a place in the slot. -/
def FixedKind.Takes : FixedKind → Literal → Prop
  | .boolean, .boolean _ => True
  | .integer kind, .integer kind' _ => kind = kind'
  | .float, .float _ => True
  | .double, .double _ => True
  | .temporal kind, .temporal kind' _ => kind = kind'
  | .timeTz, .timeTz t => ∃ bits, t.toBits? = some bits
  | .interval, .interval _ => True
  | .uuid, .uuid _ => True
  | _, _ => False

/-- The literals of strings of the kind. Bits are written with one digit at least, and a string that
lies nowhere has to be too long for its slot. -/
def StringKind.Takes : StringKind → Literal → Prop
  | .varchar, .varchar _ => True
  | .blob, .blob _ => True
  | .bit, .bit digits => digits ≠ "" ∧ ∀ c ∈ digits.toList, c = '0' ∨ c = '1'
  | _, .dangling length => StringSlot.inlineLength < length
  | _, _ => False

/-- The literals of dictionary entries, which have to be there if they are given by their text. -/
def EnumType.Takes (t : EnumType) : Literal → Prop
  | .enumeration s => s ∈ t.values
  | .enumIndex _ => True
  | _ => False

namespace LogicalType

/-- The literal is of the type, all the way down. Null is of any type, and what a union holds does not
matter if its tag selects no alternative. -/
inductive Fits : LogicalType → Literal → Prop where
  | null {t : LogicalType} : Fits t .null
  | fixed {kind : FixedKind} {l : Literal} (h : kind.Takes l) : Fits (.fixed kind) l
  | string {kind : StringKind} {l : Literal} (h : kind.Takes l) : Fits (.string kind) l
  | decimal {t : DecimalType} {n : Int} : Fits (.decimal t) (.decimal n)
  | enumeration {t : EnumType} {l : Literal} (h : t.Takes l) : Fits (.enumeration t) l
  | list {element : LogicalType} {items : List Literal} (h : ∀ item ∈ items, Fits element item) :
    Fits (.list element) (.list items)
  | struct {fields : List (String × LogicalType)} {values : List Literal}
    (hlen : values.length = fields.length)
    (h : ∀ (k : Nat) (f : String × LogicalType) l, fields[k]? = some f → values[k]? = some l →
      Fits f.2 l) :
    Fits (.struct fields) (.struct values)
  | map {key value : LogicalType} {pairs : List (Literal × Literal)}
    (hkey : ∀ p ∈ pairs, Fits key p.1) (hvalue : ∀ p ∈ pairs, Fits value p.2) :
    Fits (.map key value) (.map pairs)
  | array {element : LogicalType} {length : UInt64} {items : List Literal}
    (hlen : items.length = length.toNat) (h : ∀ item ∈ items, Fits element item) :
    Fits (.array element length) (.array items)
  | union {alternatives : List (String × LogicalType)} {tag : UInt8} {member : Literal}
    (h : ∀ a, alternatives[tag.toNat]? = some a → Fits a.2 member) :
    Fits (.union alternatives) (.union tag member)

/-- Vectors of the type can be encoded: no part of it is without an encoder, and decimals have 1 to 38
digits. -/
inductive Writable : LogicalType → Prop where
  | fixed {kind : FixedKind} : Writable (.fixed kind)
  | string {kind : StringKind} : Writable (.string kind)
  | decimal {t : DecimalType} (hpos : 1 ≤ t.width.toNat) (hle : t.width.toNat ≤ 38) :
    Writable (.decimal t)
  | enumeration {t : EnumType} : Writable (.enumeration t)
  | list {element : LogicalType} (h : Writable element) : Writable (.list element)
  | struct {fields : List (String × LogicalType)} (h : ∀ f ∈ fields, Writable f.2) :
    Writable (.struct fields)
  | map {key value : LogicalType} (hkey : Writable key) (hvalue : Writable value) :
    Writable (.map key value)
  | array {element : LogicalType} {length : UInt64} (h : Writable element) :
    Writable (.array element length)
  | union {alternatives : List (String × LogicalType)} (h : ∀ a ∈ alternatives, Writable a.2) :
    Writable (.union alternatives)

/-! ### One level at a time -/

/-- The type has an encoder, whatever its parts are. -/
def HasEncoder : LogicalType → Prop
  | .decimal t => 1 ≤ t.width.toNat ∧ t.width.toNat ≤ 38
  | .other _ => False
  | _ => True

/-- The literal is null or of the type, whatever its parts are. -/
def Takes (t : LogicalType) (l : Literal) : Prop :=
  l = .null ∨
    match t with
    | .fixed kind => kind.Takes l
    | .string kind => kind.Takes l
    | .decimal _ => ∃ n, l = .decimal n
    | .enumeration t => t.Takes l
    | .list _ => ∃ items, l = .list items
    | .struct fields => ∃ values, l = .struct values ∧ values.length = fields.length
    | .map _ _ => ∃ pairs, l = .map pairs
    | .array _ length => ∃ items, l = .array items ∧ items.length = length.toNat
    | .union _ => ∃ tag member, l = .union tag member
    | .other _ => False

/-- A type can be written if it has an encoder and its parts can be written. -/
theorem writable_iff {t : LogicalType} :
    t.Writable ↔ t.HasEncoder ∧ ∀ p ∈ t.partTypes, p.Writable := by
  cases t with
  | fixed kind => exact ⟨fun _ ↦ ⟨trivial, by simp [partTypes]⟩, fun _ ↦ .fixed⟩
  | string kind => exact ⟨fun _ ↦ ⟨trivial, by simp [partTypes]⟩, fun _ ↦ .string⟩
  | decimal t =>
    refine ⟨fun h ↦ ?_, fun h ↦ .decimal h.1.1 h.1.2⟩
    cases h with
    | decimal hpos hle => exact ⟨⟨hpos, hle⟩, by simp [partTypes]⟩
  | enumeration t => exact ⟨fun _ ↦ ⟨trivial, by simp [partTypes]⟩, fun _ ↦ .enumeration⟩
  | list element =>
    refine ⟨fun h ↦ ⟨trivial, ?_⟩, fun h ↦ .list (h.2 _ (List.mem_singleton_self _))⟩
    cases h with
    | list h => exact fun p hp ↦ List.mem_singleton.1 hp ▸ h
  | struct fields =>
    rw [partTypes, List.forall_mem_map]
    refine ⟨fun h ↦ ⟨trivial, ?_⟩, fun h ↦ .struct h.2⟩
    cases h with
    | struct h => exact h
  | map key value =>
    constructor
    · rintro (_ | _ | _ | _ | _ | _ | ⟨hkey, hvalue⟩)
      refine ⟨trivial, fun p hp ↦ List.mem_singleton.1 hp ▸ .struct fun f hf ↦ ?_⟩
      rcases List.mem_pair.1 hf with rfl | rfl
      · exact hkey
      · exact hvalue
    · rintro ⟨-, h⟩
      cases h _ (List.mem_singleton_self _) with
      | struct h =>
        obtain ⟨hkey, h⟩ := List.forall_mem_cons.1 h
        exact .map hkey (h _ (List.mem_singleton_self _))
  | array element length =>
    refine ⟨fun h ↦ ⟨trivial, ?_⟩, fun h ↦ .array (h.2 _ (List.mem_singleton_self _))⟩
    cases h with
    | array h => exact fun p hp ↦ List.mem_singleton.1 hp ▸ h
  | union alternatives =>
    rw [partTypes, List.forall_mem_map, unionMembers, List.forall_mem_cons]
    refine ⟨fun h ↦ ⟨trivial, .fixed, ?_⟩, fun h ↦ .union h.2.2⟩
    cases h with
    | union h => exact h
  | other id =>
    refine ⟨fun h ↦ ?_, fun h ↦ h.1.elim⟩
    cases h

section Fits

variable {element key value : LogicalType} {fields alternatives : List (String × LogicalType)}
  {l : Literal}

theorem Fits.takes {t : LogicalType} (h : t.Fits l) : t.Takes l := by
  cases h with
  | null => exact .inl rfl
  | fixed h => exact .inr h
  | string h => exact .inr h
  | decimal => exact .inr ⟨_, rfl⟩
  | enumeration h => exact .inr h
  | list h => exact .inr ⟨_, rfl⟩
  | struct hlen h => exact .inr ⟨_, rfl, hlen⟩
  | map hkey hvalue => exact .inr ⟨_, rfl⟩
  | array hlen h => exact .inr ⟨_, rfl, hlen⟩
  | union h => exact .inr ⟨_, _, rfl⟩

theorem fits_list_iff :
    (list element).Fits l ↔ (list element).Takes l ∧ ∀ item ∈ l.items, element.Fits item := by
  refine ⟨fun h ↦ ⟨h.takes, ?_⟩, ?_⟩
  · cases h with
    | null => simp
    | list h => exact h
  · rintro ⟨rfl | ⟨items, rfl⟩, h⟩
    · exact .null
    · exact .list h

theorem fits_struct_iff :
    (struct fields).Fits l ↔
      (struct fields).Takes l ∧ ∀ f ∈ fields.zipIdx, f.1.2.Fits (l.field f.2) := by
  refine ⟨fun h ↦ ⟨h.takes, fun f hf ↦ ?_⟩, ?_⟩
  · cases h with
    | null => exact .null
    | @struct _ values hlen h =>
      have hf := List.mem_zipIdx_iff_getElem?.1 hf
      obtain ⟨hlt, -⟩ := List.getElem?_eq_some_iff.1 hf
      have hl : values[f.2]? = some (Literal.field f.2 (.struct values)) := by
        rw [Literal.field, List.getD_eq_getElem?_getD, List.getElem?_eq_getElem (hlen ▸ hlt)]
        rfl
      exact h f.2 f.1 _ hf hl
  · rintro ⟨rfl | ⟨values, rfl, hlen⟩, h⟩
    · exact .null
    · refine .struct hlen fun k f l hf hl ↦ ?_
      have hfit := h (f, k) (List.mem_zipIdx_iff_getElem?.2 hf)
      rwa [Literal.field, List.getD_eq_getElem?_getD, hl] at hfit

/-- A pair of a map is a struct of two fields. -/
theorem fits_pair_iff {p : Literal × Literal} :
    (struct (mapEntry key value)).Fits (.struct [p.1, p.2]) ↔ key.Fits p.1 ∧ value.Fits p.2 := by
  rw [fits_struct_iff]
  constructor
  · rintro ⟨-, h⟩
    obtain ⟨hkey, h⟩ := List.forall_mem_cons.1 h
    exact ⟨hkey, h _ (List.mem_singleton_self _)⟩
  · rintro ⟨hkey, hvalue⟩
    refine ⟨.inr ⟨_, rfl, rfl⟩, fun f hf ↦ ?_⟩
    rcases List.mem_pair.1 hf with rfl | rfl
    · exact hkey
    · exact hvalue

theorem fits_map_iff :
    (map key value).Fits l ↔ (map key value).Takes l ∧
      ∀ item ∈ l.entries.items, (struct (mapEntry key value)).Fits item := by
  refine ⟨fun h ↦ ⟨h.takes, ?_⟩, ?_⟩
  · cases h with
    | null => simp [Literal.entries]
    | map hkey hvalue =>
      intro item hitem
      obtain ⟨p, hp, rfl⟩ := List.mem_map.1 hitem
      exact fits_pair_iff.2 ⟨hkey p hp, hvalue p hp⟩
  · rintro ⟨rfl | ⟨pairs, rfl⟩, h⟩
    · exact .null
    · have hpairs : ∀ p ∈ pairs, key.Fits p.1 ∧ value.Fits p.2 :=
        fun p hp ↦ fits_pair_iff.1 (h _ (List.mem_map_of_mem hp))
      exact .map (fun p hp ↦ (hpairs p hp).1) fun p hp ↦ (hpairs p hp).2

theorem fits_array_iff {length : UInt64} :
    (array element length).Fits l ↔ (array element length).Takes l ∧
      ∀ item ∈ l.elements length.toNat, element.Fits item := by
  refine ⟨fun h ↦ ⟨h.takes, ?_⟩, ?_⟩
  · cases h with
    | null => exact fun item hitem ↦ List.eq_of_mem_replicate hitem ▸ .null
    | array hlen h => exact h
  · rintro ⟨rfl | ⟨items, rfl, hlen⟩, h⟩
    · exact .null
    · exact .array hlen h

/-- Behind the tag, the only member that may not be null is the one that the tag selects. -/
theorem fits_union_iff :
    (union alternatives).Fits l ↔ (union alternatives).Takes l ∧
      ∀ f ∈ (unionMembers alternatives).zipIdx,
        f.1.2.Fits ((l.members alternatives.length).field f.2) := by
  have hzip : (unionMembers alternatives).zipIdx =
      (("tag", tagType), 0) :: alternatives.zipIdx 1 := List.zipIdx_cons
  rw [hzip, List.forall_mem_cons]
  constructor
  · intro h
    refine ⟨h.takes, ?_, fun f hf ↦ ?_⟩
    · cases h with
      | null => exact .null
      | union h => exact .fixed rfl
    · obtain ⟨a, i⟩ := f
      obtain ⟨hle, ha⟩ := List.mem_zipIdx_iff_le_and_getElem?_sub.1 hf
      obtain ⟨k, rfl⟩ := Nat.exists_eq_add_of_le' hle
      have ha : alternatives[k]? = some a := ha
      obtain ⟨hlt, -⟩ := List.getElem?_eq_some_iff.1 ha
      cases h with
      | null => exact .null
      | @union _ tag member h =>
        show a.2.Fits (Literal.field (k + 1) _)
        rw [Literal.field_members_union _ _ hlt]
        split
        next htag => exact h a (htag ▸ ha)
        next => exact .null
  · rintro ⟨rfl | ⟨tag, member, rfl⟩, -, h⟩
    · exact .null
    · refine .union fun a ha ↦ ?_
      have hfit := h (a, tag.toNat + 1) (List.mem_zipIdx_iff_le_and_getElem?_sub.2 ⟨by simp, ha⟩)
      obtain ⟨hlt, -⟩ := List.getElem?_eq_some_iff.1 ha
      rwa [Literal.field_members_union _ _ hlt, if_pos rfl] at hfit

theorem fits_iff_of_leaf {t : LogicalType} (h : t.isNested = false) : t.Fits l ↔ t.Takes l := by
  refine ⟨Fits.takes, ?_⟩
  rintro (rfl | hl)
  · exact .null
  cases t with
  | fixed kind => exact .fixed hl
  | string kind => exact .string hl
  | decimal t =>
    obtain ⟨n, rfl⟩ := hl
    exact .decimal
  | enumeration t => exact .enumeration hl
  | other id => exact hl.elim
  | _ => simp [isNested] at h

end Fits

theorem forall_listed_iff {P : Literal → Prop} (hnull : P .null) {padding : Nat}
    {values : List Literal} :
    (∀ item ∈ listed padding values, P item) ↔ ∀ l ∈ values, ∀ item ∈ l.items, P item := by
  rw [listed, List.forall_mem_append, List.forall_mem_flatMap]
  exact and_iff_left fun item hitem ↦ List.eq_of_mem_replicate hitem ▸ hnull

theorem forall_fieldParts_iff {P : LogicalType → Literal → Prop}
    {fields : List (String × LogicalType)} {structs : List Literal} :
    (∀ part ∈ fieldParts fields structs, ∀ l ∈ part.2, P part.1 l) ↔
      ∀ l ∈ structs, ∀ f ∈ fields.zipIdx, P f.1.2 (l.field f.2) := by
  simp only [fieldParts, List.forall_mem_map]
  exact ⟨fun h l hl f hf ↦ h f hf l hl, fun h f hf l hl ↦ h l hl f hf⟩

/-- Literals fit if they do so at the level of the vector, and those of its parts do. -/
theorem forall_fits_iff (padding : Nat) {t : LogicalType} {values : List Literal} :
    (∀ l ∈ values, t.Fits l) ↔ (∀ l ∈ values, t.Takes l) ∧
      ∀ part ∈ partsOf padding t values, ∀ l ∈ part.2, part.1.Fits l := by
  cases t with
  | list element =>
    simp only [partsOf, List.forall_mem_singleton, fits_list_iff, forall_and]
    rw [forall_listed_iff .null]
  | struct fields =>
    simp only [partsOf, fits_struct_iff, forall_and]
    rw [forall_fieldParts_iff]
  | map key value =>
    simp only [partsOf, List.forall_mem_singleton, fits_map_iff, forall_and]
    rw [forall_listed_iff .null, List.forall_mem_map]
  | array element length =>
    simp only [partsOf, List.forall_mem_singleton, fits_array_iff, forall_and,
      List.forall_mem_flatMap]
  | union alternatives =>
    simp only [partsOf, fits_union_iff, forall_and]
    rw [forall_fieldParts_iff, List.forall_mem_map]
  | fixed _ | string _ | decimal _ | enumeration _ | other _ =>
    exact ⟨fun h ↦ ⟨fun l hl ↦ (h l hl).takes, fun _ hpart ↦ absurd hpart List.not_mem_nil⟩,
      fun h l hl ↦ (fits_iff_of_leaf rfl).2 (h.1 l hl)⟩

end LogicalType

/-! ### Own bytes -/

/-- Slots can be made if there is memory for them and all literals but nulls can be encoded. -/
theorem exists_encodeSlots_iff {width : Nat} {encode : Literal → Encoding (List UInt8)}
    {values : List Literal} :
    (∃ data, encodeSlots width encode values = .ok data) ↔
      values.length * width < Encoding.memoryLimit ∧
        ∀ l ∈ values, l = .null ∨ ∃ bytes, encode l = .ok bytes := by
  have hslot : ∀ l, (∃ slot, Encoder.slotOf width encode l = .ok slot) ↔
      l = .null ∨ ∃ bytes, encode l = .ok bytes := by
    intro l
    by_cases hnull : l = .null
    · subst hnull
      exact iff_of_true ⟨_, rfl⟩ (.inl rfl)
    · rw [Encoder.slotOf_of_ne_null hnull, exists_bind_eq_ok_iff, or_iff_right hnull]
      exact exists_congr fun bytes ↦ and_iff_left ⟨_, rfl⟩
  simp only [Encoder.encodeSlots_eq_ok_iff, exists_and_left, ← hslot, ← exists_forall₂_iff]
  exact and_congr_right fun _ ↦ ⟨fun ⟨_, slots, h, _⟩ ↦ ⟨slots, h⟩, fun ⟨slots, h⟩ ↦ ⟨_, slots, h, rfl⟩⟩

theorem FixedKind.exists_encode_iff {kind : FixedKind} {l : Literal} :
    (∃ bytes, kind.encode l = .ok bytes) ↔ kind.Takes l := by
  unfold FixedKind.encode FixedKind.Takes
  split
  case h_2 kind kind' n => by_cases h : kind = kind' <;> simp [h, Encoding.refuse]
  case h_5 kind kind' n => by_cases h : kind = kind' <;> simp [h, Encoding.refuse]
  case h_6 t => rcases Option.eq_none_or_eq_some t.toBits? with h | ⟨bits, h⟩ <;> simp [h]
  all_goals simp [Encoding.refuse]

theorem DecimalType.exists_encode_iff {t : DecimalType} {width : Nat} {l : Literal} :
    (∃ bytes, t.encode width l = .ok bytes) ↔ ∃ n, l = .decimal n := by
  cases l <;> simp [DecimalType.encode, Encoding.refuse]

theorem EnumType.exists_indexOf_iff {t : EnumType} {l : Literal} :
    (∃ index, t.indexOf l = .ok index) ↔ t.Takes l := by
  cases l with
  | enumeration s =>
    rw [EnumType.indexOf, EnumType.Takes]
    cases hfind : t.find? s with
    | none =>
      refine iff_of_false (by simp [Encoding.refuse]) fun hmem ↦ ?_
      have := Array.findIdx?_eq_none_iff.1 hfind s hmem
      simp at this
    | some index =>
      refine iff_of_true ⟨index, rfl⟩ ?_
      obtain ⟨hlt, hfound, -⟩ := Array.findIdx?_eq_some_iff_getElem.1 hfind
      exact eq_of_beq hfound ▸ Array.getElem_mem hlt
  | _ => simp [EnumType.indexOf, EnumType.Takes, Encoding.refuse]

theorem exists_encodeDigits_iff {digits : String} :
    (∃ bytes, encodeDigits digits = .ok bytes) ↔
      digits ≠ "" ∧ ∀ c ∈ digits.toList, c = '0' ∨ c = '1' := by
  have hbit : ∀ c, (∃ bit, bitOf c = .ok bit) ↔ c = '0' ∨ c = '1' := by
    intro c
    unfold bitOf
    split_ifs <;> simp_all [Encoding.refuse]
  by_cases hempty : digits = ""
  · subst hempty
    exact iff_of_false (by simp [encodeDigits, Encoding.refuse]) (by simp)
  · rw [encodeDigits, if_neg (by simpa using hempty), exists_map_eq_ok_iff, exists_mapM_eq_ok_iff]
    simp only [hbit, ne_eq, hempty, not_false_eq_true, true_and]

/-- Strings that lie nowhere have no bytes. -/
theorem StringKind.exists_encode_iff {kind : StringKind} {l : Literal} (h : ∀ n, l ≠ .dangling n) :
    (∃ bytes, kind.encode l = .ok bytes) ↔ kind.Takes l := by
  cases l with
  | dangling n => exact absurd rfl (h n)
  | bit digits =>
    cases kind
    case bit => exact exists_encodeDigits_iff
    all_goals simp [StringKind.encode, StringKind.Takes, Encoding.refuse]
  | _ => cases kind <;> simp [StringKind.encode, StringKind.Takes, Encoding.refuse]

namespace Encoder

section Succeeds

variable {α β : Type} {R : Builder → Builder → Prop} [IsPreorder Builder R] {b : Builder}

/-- The step succeeds. -/
def Succeeds (x : Encoder α) (b : Builder) : Prop := ∃ a b', x.run b = (.ok a, b')

theorem succeeds_pure (a : α) : Succeeds (pure a : Encoder α) b := ⟨a, b, rfl⟩

theorem succeeds_push (v : RawVector) : Succeeds (push v) b := ⟨_, _, rfl⟩

theorem succeeds_lift_iff {x : Encoding α} :
    Succeeds (liftM x : Encoder α) b ↔ ∃ a, x = .ok a := by
  cases x with
  | ok a => exact iff_of_true ⟨a, b, rfl⟩ ⟨a, rfl⟩
  | error failure =>
    refine iff_of_false ?_ (by simp)
    rintro ⟨a, b', hrun⟩
    cases hrun

omit [IsPreorder Builder R] in
/-- If it does not matter to the second step what the first one does, then each has to succeed. -/
theorem succeeds_bind_iff {x : Encoder α} {f : α → Encoder β} {Q : Prop} (hx : Preserves R x)
    (hf : ∀ a b', R b b' → (Succeeds (f a) b' ↔ Q)) :
    Succeeds (x >>= f) b ↔ Succeeds x b ∧ Q := by
  constructor
  · rintro ⟨c, b'', hrun⟩
    obtain ⟨a, b', ha, hc⟩ := run_bind_eq_ok_iff.1 hrun
    exact ⟨⟨a, b', ha⟩, (hf a b' (hx.of_run ha)).1 ⟨c, b'', hc⟩⟩
  · rintro ⟨⟨a, b', ha⟩, hQ⟩
    obtain ⟨c, b'', hc⟩ := (hf a b' (hx.of_run ha)).2 hQ
    exact ⟨c, b'', run_bind_eq_ok_iff.2 ⟨a, b', ha, hc⟩⟩

theorem succeeds_mapM_iff {f : α → Encoder β} {as : List α} {P : α → Prop}
    (hR : ∀ a ∈ as, Preserves R (f a))
    (hf : ∀ a ∈ as, ∀ b', R b b' → (Succeeds (f a) b' ↔ P a)) :
    Succeeds (as.mapM f) b ↔ ∀ a ∈ as, P a := by
  induction as generalizing b with
  | nil => exact iff_of_true (succeeds_pure _) (by simp)
  | cons a as ih =>
    obtain ⟨hRa, hRas⟩ := List.forall_mem_cons.1 hR
    obtain ⟨hfa, hfas⟩ := List.forall_mem_cons.1 hf
    rw [List.mapM_cons, List.forall_mem_cons, ← hfa b (refl_of R b)]
    refine succeeds_bind_iff hRa fun x b₁ hb₁ ↦ ?_
    rw [← ih (b := b₁) hRas fun a' ha' b₂ hb₂ ↦ hfas a' ha' b₂ (trans_of R hb₁ hb₂)]
    refine (succeeds_bind_iff (Q := True) (.mapM hRas) fun xs b₂ _ ↦ ?_).trans (and_iff_left trivial)
    exact iff_of_true (succeeds_pure _) trivial

end Succeeds

open Builder (AddsPayloads Precedes)
open LogicalType (listed partsOf fieldParts)

variable {b : Builder} {values : List Literal}

theorem succeeds_stringSlot_iff {kind : StringKind} {l : Literal} :
    Succeeds (stringSlot kind l) b ↔ l = .null ∨ kind.Takes l := by
  by_cases hnull : l = .null
  · subst hnull
    exact iff_of_true (succeeds_pure _) (.inl rfl)
  rw [or_iff_right hnull]
  by_cases hdangling : ∃ n, l = .dangling n
  · obtain ⟨n, rfl⟩ := hdangling
    rw [stringSlot, show kind.Takes (.dangling n) = (StringSlot.inlineLength < n) by cases kind <;> rfl]
    split_ifs with h
    · exact iff_of_true (succeeds_pure _) h
    · exact iff_of_false (fun ⟨_, _, hrun⟩ ↦ by cases hrun) h
  · rw [not_exists] at hdangling
    have hslot : stringSlot kind l = (do
        let bytes ← kind.encode l
        if bytes.length ≤ StringSlot.inlineLength then return StringSlot.ofInline bytes
        else return StringSlot.ofPointer bytes (← allocate bytes)) := by
      cases l with
      | null => exact absurd rfl hnull
      | dangling n => exact absurd rfl (hdangling n)
      | _ => rfl
    rw [hslot, ← StringKind.exists_encode_iff hdangling, ← succeeds_lift_iff (b := b)]
    refine (succeeds_bind_iff (R := AddsPayloads) (Q := True) (preserves_lift _)
      fun bytes b' _ ↦ ?_).trans (and_iff_left trivial)
    split_ifs
    · exact iff_of_true (succeeds_pure _) trivial
    · exact iff_of_true ⟨_, _, rfl⟩ trivial

/-- Rows are checked one by one, and nothing that comes after them fails. -/
theorem exists_checked_iff {α β : Type} {row : Literal → Encoding α} {g : Literal → α}
    {P : Literal → Prop} (hrow : ∀ l r, row l = .ok r ↔ P l ∧ r = g l) {rest : Encoding β}
    (hrest : ∃ data, rest = .ok data) :
    (∃ data, (values.mapM row >>= fun _ ↦ rest) = .ok data) ↔ ∀ l ∈ values, P l := by
  have hexists : ∀ l, (∃ r, row l = .ok r) ↔ P l := by simp [hrow]
  rw [exists_bind_eq_ok_iff]
  constructor
  · rintro ⟨rows, hrows, -⟩ l hl
    exact (hexists l).1 (exists_mapM_eq_ok_iff.1 ⟨rows, hrows⟩ l hl)
  · intro h
    obtain ⟨rows, hrows⟩ := exists_mapM_eq_ok_iff.2 fun l hl ↦ (hexists l).2 (h l hl)
    exact ⟨rows, hrows, hrest⟩

theorem exists_entries_of_reserve {lists : List Literal}
    (h : (listed b.listPadding lists).length * literalSize < Encoding.memoryLimit) :
    ∃ data, (do
      Encoding.reserve (listed b.listPadding lists).length literalSize
      return (entrySlots 0 (lists.map listOf)).toArray : Encoding (Array UInt8)) = .ok data := by
  rw [Encoding.reserve_eq_ok_iff.2 h]
  exact ⟨_, rfl⟩

/-- The slots of a vector can be made if its type has an encoder and its literals are of the type, at
the level of the vector. -/
theorem succeeds_ownData_iff {t : LogicalType}
    (hafford : t.Affordable b.booleanWidth b.listPadding values) :
    Succeeds (ownData b t values) b ↔ t.HasEncoder ∧ ∀ l ∈ values, t.Takes l := by
  have hlength := hafford.length_lt
  cases t with
  | fixed kind =>
    refine Iff.trans ?_ (and_iff_right trivial).symm
    refine succeeds_lift_iff.trans (exists_encodeSlots_iff.trans ?_)
    rw [and_iff_right (slotWidth_lt hafford)]
    simp only [FixedKind.exists_encode_iff]
    rfl
  | string kind =>
    refine Iff.trans ?_ (and_iff_right trivial).symm
    refine (succeeds_bind_iff (R := AddsPayloads) (Q := True)
      (.mapM fun l _ ↦ addsPayloads_stringSlot kind l)
      fun _ _ _ ↦ iff_of_true (succeeds_pure _) trivial).trans ((and_iff_left trivial).trans ?_)
    exact succeeds_mapM_iff (fun l _ ↦ addsPayloads_stringSlot kind l)
      fun l _ b' _ ↦ succeeds_stringSlot_iff
  | decimal t =>
    refine succeeds_lift_iff.trans ?_
    rw [show (LogicalType.decimal t).HasEncoder = (1 ≤ t.width.toNat ∧ t.width.toNat ≤ 38) from rfl,
      ← DecimalType.physicalWidth?_eq_some_iff, slotData, DecimalType.encodeSlots]
    cases hwidth : t.physicalWidth? with
    | none => simp [Encoding.refuse]
    | some width =>
      have hle : values.length * width ≤ values.length * literalSize :=
        Nat.mul_le_mul_left _ ((DecimalType.le_of_physicalWidth hwidth).trans (by decide))
      rw [exists_encodeSlots_iff, and_iff_right (hle.trans_lt hlength), and_iff_right ⟨width, rfl⟩]
      simp only [DecimalType.exists_encode_iff]
      rfl
  | enumeration t =>
    refine Iff.trans ?_ (and_iff_right trivial).symm
    have hwidth : t.indexWidth ≤ literalSize := by
      rw [EnumType.indexWidth]
      split_ifs <;> decide
    have hle := Nat.mul_le_mul_left values.length hwidth
    refine succeeds_lift_iff.trans (exists_encodeSlots_iff.trans ?_)
    rw [and_iff_right (hle.trans_lt hlength)]
    simp only [exists_map_eq_ok_iff, EnumType.exists_indexOf_iff]
    rfl
  | list element =>
    rw [LogicalType.Affordable] at hafford
    refine Iff.trans ?_ (and_iff_right trivial).symm
    exact succeeds_lift_iff.trans <| exists_checked_iff (fun _ _ ↦ listRow_eq_ok_iff)
      (exists_entries_of_reserve hafford.2.length_lt)
  | struct fields =>
    refine Iff.trans ?_ (and_iff_right trivial).symm
    exact succeeds_lift_iff.trans <| exists_checked_iff (fun _ _ ↦ structRow_eq_ok_iff) ⟨_, rfl⟩
  | map key value =>
    rw [LogicalType.Affordable] at hafford
    refine Iff.trans ?_ (and_iff_right trivial).symm
    exact succeeds_lift_iff.trans <| exists_checked_iff (fun _ _ ↦ mapRow_eq_ok_iff)
      (exists_entries_of_reserve hafford.2.1)
  | array element length =>
    rw [LogicalType.Affordable] at hafford
    refine Iff.trans ?_ (and_iff_right trivial).symm
    have hrows : (∃ data, (values.mapM (arrayRow (.array element length) length.toNat) >>=
        fun _ ↦ (return #[] : Encoding (Array UInt8))) = .ok data) ↔
          ∀ l ∈ values, (LogicalType.array element length).Takes l :=
      exists_checked_iff (fun _ _ ↦ arrayRow_eq_ok_iff) ⟨_, rfl⟩
    refine succeeds_lift_iff.trans (exists_bind_eq_ok_iff.trans ⟨?_, fun h ↦ ?_⟩)
    · rintro ⟨⟨⟩, -, h⟩
      exact hrows.1 h
    · -- Arrays of the right length have as many elements as memory was asked for.
      have hcount : (values.flatMap (Literal.elements length.toNat)).length =
          values.length * length.toNat := by
        have hlengths : ∀ items ∈ values.map (Literal.elements length.toNat),
            items.length = length.toNat := by
          intro items hitems
          obtain ⟨l, hl, rfl⟩ := List.mem_map.1 hitems
          rcases h l hl with rfl | ⟨items, rfl, hlen⟩
          · exact Literal.length_elements_null _
          · exact hlen
        rw [List.flatMap_def, length_flatten_of_length_eq hlengths, List.length_map]
      have hsize := hafford.2.length_lt
      rw [hcount] at hsize
      exact ⟨(), Encoding.reserve_eq_ok_iff.2 hsize, hrows.2 h⟩
  | union alternatives =>
    refine Iff.trans ?_ (and_iff_right trivial).symm
    exact succeeds_lift_iff.trans <| exists_checked_iff (fun _ _ ↦ unionRow_eq_ok_iff) ⟨_, rfl⟩
  | other id =>
    refine succeeds_lift_iff.trans (iff_of_false ?_ fun h ↦ h.1)
    simp [slotData, Encoding.refuse]

/-- What there is memory for a vector for, there is memory for its parts for. -/
theorem affordable_partsOf {t : LogicalType}
    (h : t.Affordable b.booleanWidth b.listPadding values) :
    ∀ part ∈ partsOf b.listPadding t values,
      part.1.Affordable b.booleanWidth b.listPadding part.2 := by
  rw [LogicalType.Affordable.eq_def] at h
  obtain ⟨hlength, h⟩ := h
  cases t with
  | fixed _ | string _ | decimal _ | enumeration _ | other _ =>
    exact fun _ hpart ↦ absurd hpart List.not_mem_nil
  | list element | array element length =>
    exact List.forall_mem_singleton.2 h
  | struct fields =>
    exact List.forall_mem_map.2 (LogicalType.fieldsAffordable_iff.1 h)
  | map key value =>
    obtain ⟨hentries, hkeys, hvalues⟩ := h
    refine List.forall_mem_singleton.2 ?_
    rw [LogicalType.Affordable, LogicalType.fieldsAffordable_iff]
    refine ⟨hentries, fun f hf ↦ ?_⟩
    rcases List.mem_pair.1 hf with rfl | rfl
    · exact hkeys
    · exact hvalues
  | union alternatives =>
    refine List.forall_mem_map.2 (List.forall_mem_cons.2 ⟨⟨?_, trivial⟩, ?_⟩)
    · rwa [List.length_map, List.length_map]
    · exact LogicalType.fieldsAffordable_iff.1 h

/-- Encoding succeeds if and only if the type can be written and all literals fit it. The induction is
on the type: a vector is encoded if its own slots can be made and all of its parts are encoded, and a
literal fits if it does at the level of the vector and its parts do. -/
theorem exists_addVector_iff {t : LogicalType}
    (hafford : t.Affordable b.booleanWidth b.listPadding values) :
    (∃ id b', (addVector t values).run b = (.ok id, b')) ↔
      t.Writable ∧ ∀ l ∈ values, t.Fits l := by
  show Succeeds (addVector t values) b ↔ _
  induction t using LogicalType.inductionOnParts generalizing values b with
  | step t ih =>
    have hparts : ∀ data b₁, b.Precedes b₁ →
        (Succeeds ((partsOf b.listPadding t values).mapM (fun part ↦ addVector part.1 part.2) >>=
          fun children ↦ push (vectorOf b t values data children)) b₁ ↔
        ∀ part ∈ partsOf b.listPadding t values,
          part.1.Writable ∧ ∀ l ∈ part.2, part.1.Fits l) := by
      intro data b₁ hb₁
      have hpreserves : ∀ part ∈ partsOf b.listPadding t values,
          Preserves Precedes (addVector part.1 part.2) := fun part _ ↦ precedes_addVector _ _
      rw [succeeds_bind_iff (R := Precedes) (Q := True) (.mapM hpreserves)
        fun _ _ _ ↦ iff_of_true (succeeds_push _) trivial, and_iff_left trivial]
      refine succeeds_mapM_iff hpreserves fun part hpart b₂ hb₂ ↦ ?_
      have hpartAfford := affordable_partsOf hafford part hpart
      rw [← (hb₁.trans hb₂).booleanWidth_eq, ← (hb₁.trans hb₂).listPadding_eq] at hpartAfford
      exact ih _ (LogicalType.fst_mem_partTypes hpart) hpartAfford
    have hown : Preserves Precedes (ownData b t values) :=
      fun s ↦ (addsPayloads_ownData b t values s).addsVectors.toPrecedes
    have hadd : Succeeds (addVector t values) b ↔ Succeeds (ownData b t values) b ∧
        ∀ part ∈ partsOf b.listPadding t values,
          part.1.Writable ∧ ∀ l ∈ part.2, part.1.Fits l := by
      rw [addVector_eq]
      exact succeeds_bind_iff hown hparts
    rw [hadd, succeeds_ownData_iff hafford, LogicalType.writable_iff,
      LogicalType.forall_fits_iff b.listPadding, ← LogicalType.partsOf_map_fst
        b.listPadding t values, List.forall_mem_map]
    simp only [forall_and]
    exact and_and_and_comm

/-- Lists of numbers, or of decimals with more digits behind the point than there are. -/
abbrev looseUnions : LogicalType :=
  .list (.union [("number", LogicalType.tagType), ("price", .decimal ⟨4, 9⟩)])

/-- A list with a decimal that is too large, and with a text where the tag selects nothing. -/
abbrev strayMembers : List Literal :=
  [.list [.union 1 (.decimal 123456789), .union 7 (.varchar "stray")], .null]

/-- The same text is refused where the tag selects the number, and the rest is encoded. -/
theorem strayMembers_encoded :
    let b : Builder := { listPadding := 1 }
    looseUnions.Affordable b.booleanWidth b.listPadding strayMembers ∧
      (∃ id b', (addVector looseUnions strayMembers).run b = (.ok id, b')) ∧
      looseUnions.Affordable b.booleanWidth b.listPadding [.list [.union 0 (.varchar "stray")]] ∧
      ¬ ∃ id b', (addVector looseUnions [.list [.union 0 (.varchar "stray")]]).run b =
        (.ok id, b') := by
  intro b
  have hafford : looseUnions.Affordable b.booleanWidth b.listPadding strayMembers :=
    ⟨by decide, by decide, ⟨by decide, trivial⟩, ⟨by decide, trivial⟩, trivial⟩
  have hafford' : looseUnions.Affordable b.booleanWidth b.listPadding
      [.list [.union 0 (.varchar "stray")]] :=
    ⟨by decide, by decide, ⟨by decide, trivial⟩, ⟨by decide, trivial⟩, trivial⟩
  refine ⟨hafford, (exists_addVector_iff hafford).2 ⟨.list (.union fun a ha ↦ ?_), fun l hl ↦ ?_⟩,
    hafford', fun h ↦ ?_⟩
  · rcases List.mem_pair.1 ha with rfl | rfl
    · exact .fixed
    · exact .decimal (by decide) (by decide)
  · rcases List.mem_pair.1 hl with rfl | rfl
    · refine .list fun item hitem ↦ ?_
      rcases List.mem_pair.1 hitem with rfl | rfl
      · refine .union fun a ha ↦ ?_
        obtain rfl := Option.some.inj ha
        exact .decimal
      · exact .union fun a ha ↦ by cases ha
    · exact .null
  · have hfits := ((exists_addVector_iff hafford').1 h).2 _ (List.mem_singleton_self _)
    cases hfits with
    | list hitems =>
      cases hitems _ (List.mem_singleton_self _) with
      | union hmember =>
        cases hmember _ rfl with
        | fixed htakes => exact htakes

end Encoder

end Columnar
