import Columnar.Proofs.Footprint
import Columnar.Proofs.Refusals

/-!
# The nesting limit

The limit of a configuration is on the levels of nesting that are opened, and `LogicalType.depth`
counts the levels of a type. They are the same but for one type: a union without alternatives has
depth 1, and yet it is opened as a struct of its tags, which are a level below
(`LogicalType.BareUnionAt`). So a type within the limit is never refused for its nesting unless such
a union stands on the last level that the limit admits, and then it cannot be opened at all, however
good the chunk is (`Column.decode_within_limit`).
-/

namespace Columnar

namespace LogicalType

/-- A union without alternatives stands on level `n` of the type. A map has a level of pairs between
its own and that of its keys and values. -/
inductive BareUnionAt : Nat → LogicalType → Prop where
  | here : BareUnionAt 1 (.union [])
  | element {n : Nat} {t : LogicalType} (h : BareUnionAt n t) : BareUnionAt (n + 1) (.list t)
  | field {n : Nat} {fields : List (String × LogicalType)} {f : String × LogicalType}
    (hf : f ∈ fields) (h : BareUnionAt n f.2) : BareUnionAt (n + 1) (.struct fields)
  | key {n : Nat} {k v : LogicalType} (h : BareUnionAt n k) : BareUnionAt (n + 2) (.map k v)
  | value {n : Nat} {k v : LogicalType} (h : BareUnionAt n v) : BareUnionAt (n + 2) (.map k v)
  | item {n : Nat} {t : LogicalType} {length : UInt64} (h : BareUnionAt n t) :
    BareUnionAt (n + 1) (.array t length)
  | alternative {n : Nat} {alternatives : List (String × LogicalType)} {a : String × LogicalType}
    (ha : a ∈ alternatives) (h : BareUnionAt n a.2) : BareUnionAt (n + 1) (.union alternatives)

theorem one_le_depth (t : LogicalType) : 1 ≤ t.depth := by
  cases t <;> simp only [depth] <;> omega

/-- A union without alternatives is on one of the levels that are counted. -/
theorem BareUnionAt.le_depth {n : Nat} {t : LogicalType} (h : BareUnionAt n t) : n ≤ t.depth := by
  induction h with
  | here => exact Nat.le_refl 1
  | element _ ih | item _ ih =>
    simp only [depth]
    omega
  | key _ ih | value _ ih =>
    simp only [depth]
    omega
  | field hf _ ih | alternative hf _ ih =>
    have := depth_le_maxDepth hf
    simp only [depth]
    omega

end LogicalType

namespace Chunk

open LogicalType (BareUnionAt depth_le_maxDepth one_le_depth)

variable {chunk : Chunk} {r s q : Request}

/-- The level of `s` is one of the levels that the type of `r` counts, or `s` is for the tags of a
union without alternatives, which are on the level below it. -/
def LevelWithin (r s : Request) : Prop :=
  s.level < r.level + r.type.depth ∨ ∃ n, r.type.BareUnionAt n ∧ s.level = r.level + n

/-- What is within a part of a type is within the type, if the part is `k` levels down. -/
theorem LevelWithin.of_part {k : Nat} (h : LevelWithin q s) (hlevel : q.level = r.level + k)
    (hdepth : q.type.depth + k ≤ r.type.depth)
    (hbare : ∀ n, q.type.BareUnionAt n → r.type.BareUnionAt (n + k)) : LevelWithin r s := by
  obtain hlt | ⟨n, hn, heq⟩ := h
  · exact .inl (by omega)
  · exact .inr ⟨n + k, hbare n hn, by omega⟩

/-- A struct that is a pair has its bare unions where the map has them, one level higher up. -/
theorem bareUnionAt_map_of_entries {key value : LogicalType} {n : Nat}
    (h : BareUnionAt n (.list (.struct (LogicalType.mapEntry key value)))) :
    BareUnionAt n (.map key value) := by
  match h with
  | .element (.field hf h) =>
    rcases List.mem_pair.1 hf with rfl | rfl
    · exact .key h
    · exact .value h

/-- The tags of a union are no union. -/
theorem bareUnionAt_union_of_members {alternatives : List (String × LogicalType)} {n : Nat}
    (h : BareUnionAt n (.struct (LogicalType.unionMembers alternatives))) :
    BareUnionAt n (.union alternatives) := by
  match h with
  | .field hf h =>
    rcases List.mem_cons.1 hf with rfl | hf
    · cases h
    · exact .alternative hf h

/-- The requests that one request makes keep to the levels of its type. -/
theorem LeadsTo.levelWithin (hrq : chunk.LeadsTo r q) (h : LevelWithin q s) : LevelWithin r s := by
  cases hrq with
  | element hchild =>
    refine h.of_part rfl ?_ fun n hn ↦ .element hn
    exact Nat.le_of_eq (Nat.add_comm _ _)
  | field hf hchild =>
    have hmem := List.mem_of_getElem? hf
    refine h.of_part rfl ?_ fun n hn ↦ .field hmem hn
    have hle := Nat.add_le_add_left (depth_le_maxDepth hmem) 1
    exact (Nat.add_comm _ _).trans_le hle
  | entries =>
    refine h.of_part (k := 0) rfl ?_ fun n hn ↦ bareUnionAt_map_of_entries hn
    simp [LogicalType.depth, LogicalType.maxDepth, LogicalType.mapEntry]
  | item hchild =>
    refine h.of_part rfl ?_ fun n hn ↦ .item hn
    exact Nat.le_of_eq (Nat.add_comm _ _)
  | @members level id count alternatives =>
    cases alternatives with
    | cons a rest =>
      refine h.of_part (k := 0) rfl ?_ fun n hn ↦ bareUnionAt_union_of_members hn
      have := one_le_depth a.2
      simp only [LogicalType.depth, LogicalType.maxDepth, LogicalType.unionMembers]
      omega
    | nil =>
      -- The one place where a struct has more levels than the type it stores.
      obtain hlt | ⟨n, hn, heq⟩ := h
      · change s.level < level + 2 at hlt
        by_cases hle : s.level ≤ level
        · exact .inl (Nat.lt_succ_of_le hle)
        · exact .inr ⟨1, .here, by show s.level = level + 1; omega⟩
      · exact .inr ⟨n, bareUnionAt_union_of_members hn, heq⟩

/-- All requests that a request leads to keep to the levels of its type. The induction is on the
steps, the first of them taken off. -/
theorem levelWithin_of_leadsTo (h : Relation.ReflTransGen chunk.LeadsTo r s) : LevelWithin r s := by
  induction h using Relation.ReflTransGen.head_induction_on with
  | refl =>
    have := one_le_depth s.type
    exact .inl (by omega)
  | head hstep _ ih => exact hstep.levelWithin ih

end Chunk

namespace Column

open LogicalType (BareUnionAt)

variable {chunk : Chunk} {config : DecodeConfig} {level id count limit : Nat} {t : LogicalType}
  {c : Column}

/-- If a vector is refused for its nesting, then its type has a level beyond the limit, or a union
without alternatives on the last one. -/
theorem exists_level_of_nestingTooDeep
    (h : decodeAt chunk config level id count t = Outcome.refuse (.nestingTooDeep limit)) :
    config.maxNestingDepth + 1 < level + t.depth ∨
      ∃ n, t.BareUnionAt n ∧ config.maxNestingDepth < level + n := by
  obtain ⟨s, cause, hreach, hrefused, hcause⟩ := failsOnly_decodeAt ⟨level, id, count, t⟩ _ h
  obtain rfl := Failure.error.inj hcause
  obtain ⟨hlevel⟩ := hrefused
  obtain hlt | ⟨n, hn, heq⟩ := Chunk.levelWithin_of_leadsTo hreach
  · exact .inl (Nat.lt_of_le_of_lt hlevel hlt)
  · exact .inr ⟨n, hn, heq ▸ hlevel⟩

/-! ### Bare unions on the last level -/

/-- The keys and values of an opened map were opened. -/
theorem exists_of_decodeMap {key value : LogicalType}
    (h : decodeAt chunk config level id count (.map key value) = .ok c) {f : String × LogicalType}
    (hf : f ∈ LogicalType.mapEntry key value) :
    ∃ child rows col, decodeAt chunk config (level + 2) child rows f.2 = .ok col := by
  rw [decodeAt_map, bind_eq_ok_iff] at h
  obtain ⟨entries, hentries, -⟩ := h
  obtain ⟨-, _, rows, _, -, -, hpairs, -⟩ :=
    decodeList_eq_ok_iff.1 (decodeAt_list_eq_ok_iff.1 hentries).2
  obtain ⟨child, col, hcol⟩ := exists_of_decodeStruct hpairs hf
  exact ⟨child, rows, col, hcol⟩

/-- The tags and the alternatives of an opened union were opened. -/
theorem exists_of_decodeUnion {alternatives : List (String × LogicalType)}
    (h : decodeAt chunk config level id count (.union alternatives) = .ok c)
    {f : String × LogicalType} (hf : f ∈ LogicalType.unionMembers alternatives) :
    ∃ child col, decodeAt chunk config (level + 1) child count f.2 = .ok col := by
  rw [decodeAt_union, bind_eq_ok_iff] at h
  obtain ⟨members, hmembers, -⟩ := h
  exact exists_of_decodeStruct hmembers hf

/-- No union without alternatives is on the last level of an opened type, for its tags are a level
below. The induction is on the levels above the union. -/
theorem level_add_le_of_bareUnionAt {n : Nat} (hn : t.BareUnionAt n)
    (h : decodeAt chunk config level id count t = .ok c) : level + n ≤ config.maxNestingDepth := by
  induction hn generalizing level id count c with
  | here =>
    obtain ⟨_, _, htags⟩ := exists_of_decodeUnion h (List.mem_cons_self ..)
    exact (decodeAt_fixed_eq_ok_iff.1 htags).1
  | element _ ih =>
    obtain ⟨-, _, _, _, -, -, helements, -⟩ :=
      decodeList_eq_ok_iff.1 (decodeAt_list_eq_ok_iff.1 h).2
    exact Nat.add_right_comm level 1 _ ▸ ih helements
  | field hf _ ih =>
    obtain ⟨_, _, hfield⟩ := exists_of_decodeStruct h hf
    exact Nat.add_right_comm level 1 _ ▸ ih hfield
  | key _ ih =>
    obtain ⟨_, _, _, hkey⟩ := exists_of_decodeMap h (List.mem_pair.2 (.inl rfl))
    exact Nat.add_right_comm level 2 _ ▸ ih hkey
  | value _ ih =>
    obtain ⟨_, _, _, hvalue⟩ := exists_of_decodeMap h (List.mem_pair.2 (.inr rfl))
    exact Nat.add_right_comm level 2 _ ▸ ih hvalue
  | item _ ih =>
    obtain ⟨-, -, _, _, -, hitems, -⟩ :=
      decodeArray_eq_ok_iff.1 (decodeAt_array_eq_ok_iff.1 h).2
    exact Nat.add_right_comm level 1 _ ▸ ih hitems
  | alternative ha _ ih =>
    obtain ⟨_, _, halternative⟩ := exists_of_decodeUnion h (List.mem_cons_of_mem _ ha)
    exact Nat.add_right_comm level 1 _ ▸ ih halternative

end Column

/-! ### Other limits -/

namespace DecodeConfig

/-- The configuration with another limit. -/
def withLimit (config : DecodeConfig) (limit : Nat) : DecodeConfig :=
  { config with maxNestingDepth := limit }

end DecodeConfig

namespace Column

open LogicalType (BareUnionAt)
open Outcome (SameUnless)

variable {chunk : Chunk} {config : DecodeConfig} {level id count low high : Nat} {t : LogicalType}
  {c : Column}

/-- The failure of a level below a limit. -/
abbrev TooDeep (limit : Nat) (failure : Failure) : Prop :=
  failure = .error (.nestingTooDeep limit)

/-- A lower limit refuses levels, and makes no other difference. -/
theorem configsAgree_withLimit (hle : low ≤ high) :
    ConfigsAgree (TooDeep low) (config.withLimit low) (config.withLimit high) := by
  refine ⟨rfl, fun level ↦ ?_⟩
  by_cases hlevel : level ≤ low
  · refine .of_eq ?_
    rw [(checkDepth_eq_ok_iff (u := ())).2 hlevel, (checkDepth_eq_ok_iff (u := ())).2]
    exact hlevel.trans hle
  · refine .inr ⟨_, ?_, rfl⟩
    show Outcome.require (decide (level ≤ low)) _ = _
    rw [decide_eq_false hlevel]
    rfl

theorem sameUnless_decodeAt (hle : low ≤ high) : SameUnless (TooDeep low)
    (decodeAt chunk (config.withLimit low) level id count t)
    (decodeAt chunk (config.withLimit high) level id count t) :=
  openedAlikeUnless (configsAgree_withLimit hle) t level id count (.refl chunk id)

/-- A vector that can be opened with some limit, but not with this one, is refused for its
nesting. -/
theorem eq_refuse_of_withLimit {limit : Nat}
    (h : decodeAt chunk (config.withLimit limit) level id count t = .ok c)
    (hne : ∀ d, decodeAt chunk config level id count t ≠ .ok d) :
    decodeAt chunk config level id count t =
      Outcome.refuse (.nestingTooDeep config.maxNestingDepth) := by
  rcases Nat.le_total config.maxNestingDepth limit with hle | hle
  · obtain heq | ⟨failure, hfailure, rfl⟩ := sameUnless_decodeAt hle
    · exact absurd (heq.trans h) (hne c)
    · exact hfailure
  · obtain heq | ⟨failure, hfailure, -⟩ := sameUnless_decodeAt hle
    · exact absurd (heq.symm.trans h) (hne c)
    · cases h.symm.trans hfailure

/-! ### Types within the limit -/

/-- A type within the limit is never refused for its nesting, unless a union without alternatives
stands on the last level that the limit admits. Then its vectors are never opened, and are refused
for their nesting whenever they could be opened with another limit. -/
theorem decode_within_limit (hdepth : t.depth ≤ config.maxNestingDepth) :
    (¬ t.BareUnionAt config.maxNestingDepth → ∀ limit,
      decode chunk config id count t ≠ Outcome.refuse (.nestingTooDeep limit)) ∧
    (t.BareUnionAt config.maxNestingDepth → ∀ limit c,
      decode chunk (config.withLimit limit) id count t = .ok c →
        decode chunk config id count t =
          Outcome.refuse (.nestingTooDeep config.maxNestingDepth)) := by
  constructor
  · intro hbare limit h
    obtain hlt | ⟨n, hn, hlt⟩ := exists_level_of_nestingTooDeep h
    · omega
    · have hle := hn.le_depth
      exact hbare ((by omega : n = config.maxNestingDepth) ▸ hn)
  · intro hbare limit c h
    refine eq_refuse_of_withLimit h fun d hd ↦ ?_
    have := level_add_le_of_bareUnionAt hbare hd
    omega

/-- One row of a union without alternatives: a struct of nothing but its tags. -/
def bareUnion : Chunk where
  vectors := #[
    { type := LogicalType.tagType, data := #[0] },
    { type := .union [], children := [0] }]
  columns := [1]
  rowCount := 1

/-- The union has depth 1. With a limit of 2 it is opened, and with a limit of 1 it is refused. -/
theorem bareUnion_within_limit :
    ({} : DecodeConfig).validate = .ok () ∧ (LogicalType.union []).depth ≤ 1 ∧
      decode bareUnion (({} : DecodeConfig).withLimit 1) 1 1 (.union []) =
        Outcome.refuse (.nestingTooDeep 1) ∧
      (LogicalType.union []).depth ≤ 2 ∧ ∀ limit,
        decode bareUnion (({} : DecodeConfig).withLimit 2) 1 1 (.union []) ≠
          Outcome.refuse (.nestingTooDeep limit) := by
  have hone : (LogicalType.union []).depth ≤ 1 := by decide
  have htwo : (LogicalType.union []).depth ≤ 2 := by decide
  have hbare : ¬ BareUnionAt 2 (.union []) := by
    rintro ⟨⟩
    contradiction
  have hopened : decode bareUnion (({} : DecodeConfig).withLimit 2) 1 1 (.union []) =
      .ok (.whole (.union none (.whole ⟨#[0], 1, none⟩ 1) []) 1) := rfl
  refine ⟨rfl, hone, ?_, htwo, ?_⟩
  · show decode bareUnion { maxNestingDepth := 1 } 1 1 (.union []) = _
    exact (decode_within_limit hone).2 .here 2 _ hopened
  · show ∀ limit, decode bareUnion { maxNestingDepth := 2 } 1 1 (.union []) ≠ _
    exact (decode_within_limit htwo).1 hbare

end Column

end Columnar
