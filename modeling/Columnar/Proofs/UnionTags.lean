import Mathlib.Data.List.Nodup
import Columnar.Proofs.Origin

/-!
# Alternatives by their tags

A row of unions says which alternative it has twice: by the number that is stored in the column of
tags, and by the tag that is read along with the value. So there are two ways to the column of the
alternative, by its position and by its tag. If no two alternatives share a tag, both lead to the
same column, and the row of that column is the value of the row of unions
(`Column.alternativeTagged_of_reaches`).

The struct that unions are stored as has one field more, in front of the alternatives. That field is
called "tag" as well, and it is never taken for an alternative.
-/

namespace Columnar

theorem Slots.lt_of_get_eq_ok {s : Slots} {start len i : Nat} {slot : Option (List UInt8)}
    (h : s.get start len i = .ok slot) : i < len := by
  obtain ⟨_, hi, -⟩ := bind_eq_ok_iff.1 h
  exact of_decide_eq_true (Outcome.assert_eq_ok_iff.1 hi)

namespace Column

variable {c d structs member : Column} {columns : List (String × Column)} {name tag : String}
  {value : Value} {a b i k : Nat}

/-! ### Columns by name -/

theorem position?_eq_none_iff : position? columns name = none ↔ name ∉ columns.map (·.1) := by
  simp only [position?, List.findIdx?_eq_none_iff, beq_eq_false_iff_ne, List.mem_map, not_exists,
    not_and, ne_eq]

/-- If all names are different, a column is found under its own. -/
theorem position?_of_nodup (h : (columns.map (·.1)).Nodup) {f : String × Column}
    (hf : columns[k]? = some f) : position? columns f.1 = some k := by
  obtain ⟨hk, rfl⟩ := List.getElem?_eq_some_iff.1 hf
  refine List.findIdx?_eq_some_iff_getElem.2 ⟨hk, beq_self_eq_true _, fun j hj hname ↦ ?_⟩
  -- A column of the same name in front of it would be in the same place.
  have hsame : (columns.map (·.1))[j]? = (columns.map (·.1))[k]? := by
    simpa [hk, hj.trans hk] using hname
  exact hj.ne ((List.getElem?_inj (by simpa using hj.trans hk) h).1 hsame)

/-- What is looked up by its tag in a narrowed column is what is looked up in the column,
narrowed. -/
theorem alternativeTagged_narrow (hab : a + b ≤ c.len)
    (h : c.alternativeTagged tag = .ok (some member)) :
    alternativeTagged (c.narrow a b) tag = .ok (some (member.narrow a b)) := by
  rw [alternativeTagged] at h ⊢
  rw [Window.narrow_content]
  split at h
  next words tags alternatives hc =>
    split at h
    next index hindex =>
      obtain ⟨f, hf, hle, rfl⟩ := narrowed_eq_ok_iff.1 h
      refine narrowed_eq_ok_iff.2 ⟨f, hf, ?_, Window.narrow_narrow ..⟩
      exact Nat.le_trans (Nat.add_assoc .. ▸ Nat.add_le_add_left hab _) hle
    next => cases h
  next => cases h

theorem exists_of_type_eq_union {alternatives : List (String × LogicalType)}
    (h : c.type = .union alternatives) :
    ∃ words tags members start len, c = ⟨.union words tags members, start, len⟩ := by
  obtain ⟨layout, start, len⟩ := c
  cases layout with
  | union words tags members => exact ⟨words, tags, members, start, len, rfl⟩
  | _ => cases h

/-! ### Stored tags -/

/-- The tag that is stored in row `i` of unions, or `none` if it is null. -/
def storedTag (c : Column) (i : Nat) : Outcome (Option Nat) := do
  let tags ← c.tags
  let slot ← tags.get i
  return slot.map tagOf

/-- What row `row` of unions, which has the value `value` under the tag `tag`, has to do with the
column `member` of the alternative at position `position`. -/
structure TaggedRow (alternatives : List (String × LogicalType)) (unions structs : Column)
    (row : Nat) (tag : String) (value : Value) (position : Nat) (member : Column) : Prop where
  storedTag_eq : unions.storedTag row = .ok (some position)
  declared : alternatives[position]? = some (tag, member.type)
  alternativeTagged_eq : unions.alternativeTagged tag = .ok (some member)
  alternative_eq : unions.alternative position = .ok (some member)
  /-- The tags come first in the struct. -/
  field_eq : structs.field (position + 1) = .ok (some member)
  len_eq : member.len = unions.len
  getItem_eq : member.getItem row = .ok value

section Unions

variable {words : Bitmap} {tags : SlotWindow} {alternatives : List (String × Column)}
  {start len : Nat}

/-- Past the end of unions there are only nulls to be read. -/
theorem lt_of_get_eq_union
    (h : get ⟨.union words tags alternatives, start, len⟩ i = .ok (.union tag value)) :
    i < len := by
  rw [get, Layout.read] at h
  split at h
  next =>
    obtain ⟨-, -, h⟩ := bind_eq_ok_iff.1 h
    obtain ⟨slot, hslot, -⟩ := bind_eq_ok_iff.1 h
    exact Slots.lt_of_get_eq_ok hslot
  next => cases h

/-- The stored tag is the row of the column of tags. -/
theorem storedTag_eq_some_iff
    (h : Within (fun _ ↦ True) ⟨.union words tags alternatives, start, len⟩) (hi : i < len) :
    storedTag ⟨.union words tags alternatives, start, len⟩ i = .ok (some k) ↔
      getItem (ofFixed (.integer .uTinyInt) (tags.narrow start len)) i =
        .ok (.integer .uTinyInt k) := by
  have htags : Column.tags ⟨.union words tags alternatives, start, len⟩ =
      .ok (tags.narrow start len) := Window.slice_eq_ok_narrow h.here.1.1
  have hholds : tags.content.Holds (tags.start + start + len) := h.tagColumn.here.1.2
  rw [getItem_tags h hi, storedTag, htags, ok_bind, SlotWindow.get]
  simp only [Window.narrow_start, Window.narrow_content, Window.narrow_len,
    Slots.get_bind_of_holds hholds (Nat.le_refl _) hi, Nat.add_assoc]
  split
  next =>
    simp only [pure_eq_ok, Option.map_some, Except.ok.injEq, Option.some.injEq,
      Value.integer.injEq, true_and, Int.ofNat_inj]
  next => simp

/-- In the struct that unions are stored as, "tag" is the name of the tags. -/
theorem fieldNamed_tag (h : Within (fun _ ↦ True) ⟨.union words tags alternatives, start, len⟩)
    (hs : members ⟨.union words tags alternatives, start, len⟩ = .ok structs) :
    structs.fieldNamed "tag" =
      .ok (some (ofFixed (.integer .uTinyInt) (tags.narrow start len))) := by
  obtain rfl := Except.ok.inj hs
  rw [fieldNamed]
  dsimp only
  exact narrowed_eq_ok_iff.2 ⟨("tag", ofFixed (.integer .uTinyInt) tags), rfl, h.here.1.1, rfl⟩

/-- The field after the tags and `k` alternatives is alternative `k`. -/
theorem alternative_of_field
    (hs : members ⟨.union words tags alternatives, start, len⟩ = .ok structs)
    (h : structs.field (k + 1) = .ok (some member)) :
    alternative ⟨.union words tags alternatives, start, len⟩ k = .ok (some member) := by
  obtain rfl := Except.ok.inj hs
  exact h

/-- A tag is looked up by its position among the alternatives, which does not count the tags. -/
theorem alternativeTagged_eq :
    alternativeTagged ⟨.union words tags alternatives, start, len⟩ name =
      match position? alternatives name with
      | some k => alternative ⟨.union words tags alternatives, start, len⟩ k
      | none => .ok none :=
  rfl

/-- If no two alternatives share a tag, a tag leads to the alternative that has it. -/
theorem alternativeTagged_eq_alternative (hnodup : (alternatives.map (·.1)).Nodup)
    {f : String × Column} (hf : alternatives[k]? = some f) :
    alternativeTagged ⟨.union words tags alternatives, start, len⟩ f.1 =
      alternative ⟨.union words tags alternatives, start, len⟩ k := by
  rw [alternativeTagged_eq, position?_of_nodup hnodup hf]

theorem alternativeTagged_eq_none (h : name ∉ alternatives.map (·.1)) :
    alternativeTagged ⟨.union words tags alternatives, start, len⟩ name = .ok none := by
  rw [alternativeTagged_eq, position?_eq_none_iff.2 h]

/-- A row with a value is tied to the alternative that its tag stands for. -/
theorem taggedRow_of_get
    (h : Within (fun _ ↦ True) ⟨.union words tags alternatives, start, len⟩)
    (hs : members ⟨.union words tags alternatives, start, len⟩ = .ok structs)
    (hnodup : (alternatives.map (·.1)).Nodup)
    (hrow : get ⟨.union words tags alternatives, start, len⟩ i = .ok (.union tag value)) :
    ∃ k member, TaggedRow (Layout.fieldTypes alternatives)
      ⟨.union words tags alternatives, start, len⟩ structs i tag value k member := by
  have hi := lt_of_get_eq_union hrow
  rw [← getItem_of_lt (by exact hi)] at hrow
  have hunion := isUnionRow h hs hi
  rw [hrow, Layout.fieldTypes_eq_map] at hunion
  -- The row is a value, so neither the struct nor its tag is null, and the tag is not refused.
  obtain ⟨hstruct, htag⟩ := not_or.1 (mt hunion.null_iff.2 nofun)
  obtain ⟨k, hk⟩ := hunion.tag_cases.resolve_left htag
  have hlt : k < alternatives.length := by
    by_contra hle
    exact absurd (hunion.refused_of_le hstruct hk (by simpa using hle)) nofun
  obtain ⟨f, hf⟩ : ∃ f, alternatives[k]? = some f := ⟨_, List.getElem?_eq_getElem hlt⟩
  have hdeclared : (alternatives.map fun f ↦ (f.1, f.2.content.type))[k]? =
      some (f.1, Column.type f.2) := by
    rw [List.getElem?_map, hf]
    rfl
  obtain ⟨member, hfield, hvalue⟩ := hunion.selected hstruct hk hdeclared
  obtain ⟨v, hv, heq⟩ := map_eq_ok_iff.1 hvalue.symm
  obtain ⟨rfl, rfl⟩ := Value.union.inj heq
  have halternative := alternative_of_field hs hfield
  obtain ⟨g, hg, -, rfl⟩ := narrowed_eq_ok_iff.1 halternative
  obtain rfl : f = g := Option.some.inj (hf.symm.trans hg)
  exact ⟨k, f.2.narrow start len, (storedTag_eq_some_iff h hi).2 hk,
    Layout.fieldTypes_eq_map alternatives ▸ hdeclared,
    (alternativeTagged_eq_alternative hnodup hf).trans halternative, halternative, hfield, rfl, hv⟩

end Unions

/-- In a column of unions within reach of an opened one whose alternatives have different tags, the
tag that is read with a value leads to the alternative at the position that is stored in the row, and
the same row of that alternative is the value. A text that is no tag of the union leads nowhere, be
it "tag", which in the struct that the unions are stored as is the name of the stored tags. In every
slice a tag leads to the slice of what it leads to in the column. -/
theorem alternativeTagged_of_reaches {chunk : Chunk} {config : DecodeConfig} {id count : Nat}
    {t : LogicalType} {alternatives : List (String × LogicalType)}
    (hc : decode chunk config id count t = .ok c) (hd : c.Reaches d)
    (htype : d.type = .union alternatives) (hnodup : (alternatives.map (·.1)).Nodup) :
    ∃ structs tags : Column, d.members = .ok structs ∧ structs.fieldNamed "tag" = .ok (some tags) ∧
      (∀ i < d.len, ∀ k : Nat,
        d.storedTag i = .ok (some k) ↔ tags.getItem i = .ok (.integer .uTinyInt k)) ∧
      (∀ i tag value, d.get i = .ok (.union tag value) →
        ∃ k member, TaggedRow alternatives d structs i tag value k member) ∧
      (∀ text, text ∉ alternatives.map (·.1) → d.alternativeTagged text = .ok none) ∧
      ∀ a b, a + b ≤ d.len → ∃ w : Column, Window.slice d a b = .ok w ∧
        ∀ text member, d.alternativeTagged text = .ok (some member) →
          w.alternativeTagged text = .ok (some (member.narrow a b)) := by
  have hopened : c.Within fun _ ↦ True := (isOpened_of_decodeAt chunk.counts_true hc trivial).within
  have hwithin : d.Within fun _ ↦ True := hopened.reaches (fun _ _ ↦ trivial) hd
  obtain ⟨words, tags, members, start, len, rfl⟩ := exists_of_type_eq_union htype
  obtain rfl : Layout.fieldTypes members = alternatives := LogicalType.union.inj htype
  have hnames : (Layout.fieldTypes members).map (·.1) = members.map (·.1) := by
    rw [Layout.fieldTypes_eq_map, List.map_map]
    rfl
  rw [hnames] at hnodup
  refine ⟨_, _, rfl, fieldNamed_tag hwithin rfl, fun i hi k ↦ storedTag_eq_some_iff hwithin hi,
    fun i tag value hrow ↦ taggedRow_of_get hwithin rfl hnodup hrow,
    fun text htext ↦ alternativeTagged_eq_none (hnames ▸ htext), fun a b hab ↦ ?_⟩
  exact ⟨_, Window.slice_eq_ok_narrow hab, fun text member hm ↦ alternativeTagged_narrow hab hm⟩

/-- Three rows of a union of two alternatives of one byte, of which the first one is called "tag". -/
def taggedTag : Chunk where
  vectors := #[
    { type := .union [("tag", LogicalType.tagType), ("n", LogicalType.tagType)]
      children := [1, 2, 3] },
    { type := LogicalType.tagType, data := #[1, 0, 1] },
    { type := LogicalType.tagType, data := #[4, 5, 6] },
    { type := LogicalType.tagType, data := #[7, 8, 9] }]

/-- The first one of the last two rows has the value 5 under "tag", which is not its stored tag 0. -/
theorem taggedTag_alternativeTagged :
    let alternatives := [("tag", LogicalType.tagType), ("n", LogicalType.tagType)]
    ∃ c d structs tags member : Column,
      decode taggedTag {} 0 3 (.union alternatives) = .ok c ∧ c.Reaches d ∧
        d.type = .union alternatives ∧ (alternatives.map (·.1)).Nodup ∧
        d.get 0 = .ok (.union "tag" (.integer .uTinyInt 5)) ∧
        d.alternativeTagged "tag" = .ok (some member) ∧
        member.getItem 0 = .ok (.integer .uTinyInt 5) ∧
        d.members = .ok structs ∧ structs.fieldNamed "tag" = .ok (some tags) ∧
        tags.getItem 0 = .ok (.integer .uTinyInt 0) ∧
        d.alternativeTagged "missing" = .ok none := by
  intro alternatives
  obtain ⟨c, d, hc, hslice, hlen, htype, hrow, htag⟩ : ∃ c d : Column,
      decode taggedTag {} 0 3 (.union alternatives) = .ok c ∧ Window.slice c 1 2 = .ok d ∧
        c.len = 3 ∧ d.type = .union alternatives ∧
        d.get 0 = .ok (.union "tag" (.integer .uTinyInt 5)) ∧ d.storedTag 0 = .ok (some 0) :=
    ⟨_, _, rfl, rfl, rfl, rfl, by rfl, by rfl⟩
  have hle : 1 + 2 ≤ c.len := Nat.le_of_eq hlen.symm
  have hd : c.Reaches d := .step .refl (.slice 1 2) hle (by rw [access, hslice]; rfl)
  have hnodup : (alternatives.map (·.1)).Nodup := by decide
  obtain ⟨structs, tags, hstructs, htags, hstored, hrows, habsent, -⟩ :=
    alternativeTagged_of_reaches hc hd htype hnodup
  obtain ⟨k, member, hmember⟩ := hrows 0 _ _ hrow
  have hdlen : 0 < d.len := by
    obtain ⟨-, rfl⟩ := Window.slice_eq_ok_iff.1 hslice
    exact Nat.zero_lt_two
  exact ⟨c, d, structs, tags, member, hc, hd, htype, hnodup, hrow, hmember.alternativeTagged_eq,
    hmember.getItem_eq, hstructs, htags, (hstored 0 hdlen 0).1 htag, habsent _ (by decide)⟩

/-- A union of other alternatives has none called "tag". -/
example : ∃ c : Column,
    decode smallOrDecimal {} 0 2
        (.union [("small", .fixed (.integer .tinyInt)), ("decimal", .decimal ⟨4, 1⟩)]) = .ok c ∧
      c.alternativeTagged "tag" = .ok none :=
  ⟨_, rfl, rfl⟩

end Column

end Columnar
