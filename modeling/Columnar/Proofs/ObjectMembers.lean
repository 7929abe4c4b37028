import Mathlib.Data.List.Dedup
import Mathlib.Data.String.Basic
import Columnar.Proofs.FaithfulJson

/-!
# What becomes of the fields of a struct

A struct row is shown as an object, which has each name once. The members of an object are in the
order of their names (`Json.names_foldl_insert`), so there are as many of them as there are
different names, and of several fields with one name only the last one is left
(`Json.member?_ofMembers_of_last`). All this is known of any map of members that finds a new value
under its name and the old values under theirs, as no other map does (`Json.eq_insert_iff`).

Nothing keeps the fields of a struct from having the same name, and structs that are made from rows
have fields without names. So whether all fields are found again (`Value.KeepsFields`) depends on the
type alone: it is the case if and only if its names are pairwise different
(`Column.keepsFields_iff_of_reaches`).
-/

namespace Columnar

namespace Json

/-- The number of members of an object. -/
def memberCount : Json → Nat
  | .object members => members.length
  | _ => 0

/-! ### Names of members -/

theorem mem_names_insert {name other : String} {value : Json} {members : List (String × Json)} :
    other ∈ (insert name value members).map (·.1) ↔
      other = name ∨ other ∈ members.map (·.1) := by
  induction members with
  | nil => simp [insert]
  | cons m rest ih =>
    obtain ⟨key, old⟩ := m
    by_cases hlt : name < key
    · rw [insert, if_pos hlt, List.map_cons, List.mem_cons]
    by_cases heq : name = key
    · subst heq
      rw [insert, if_neg hlt, if_pos rfl, List.map_cons, List.map_cons, List.mem_cons]
      simp
    · rw [insert, if_neg hlt, if_neg heq, List.map_cons, List.map_cons, List.mem_cons, List.mem_cons,
        ih]
      exact or_left_comm

/-- A member is added where its name belongs. -/
theorem pairwise_names_insert {members : List (String × Json)} (name : String) (value : Json)
    (h : (members.map (·.1)).Pairwise (· < ·)) :
    ((insert name value members).map (·.1)).Pairwise (· < ·) := by
  induction members with
  | nil => exact List.pairwise_singleton _ _
  | cons m rest ih =>
    obtain ⟨key, old⟩ := m
    obtain ⟨hkey, hrest⟩ := List.pairwise_cons.1 h
    by_cases hlt : name < key
    · rw [insert, if_pos hlt]
      refine List.pairwise_cons.2 ⟨fun other hother ↦ ?_, h⟩
      rcases List.mem_cons.1 hother with rfl | hother
      · exact hlt
      · exact hlt.trans (hkey other hother)
    by_cases heq : name = key
    · subst heq
      rw [insert, if_neg hlt, if_pos rfl]
      exact List.pairwise_cons.2 ⟨hkey, hrest⟩
    · rw [insert, if_neg hlt, if_neg heq]
      refine List.pairwise_cons.2 ⟨fun other hother ↦ ?_, ih hrest⟩
      rcases mem_names_insert.1 hother with rfl | hother
      · exact lt_of_le_of_ne (not_lt.1 hlt) (Ne.symm heq)
      · exact hkey other hother

theorem mem_iff_lookup_eq {members : List (String × Json)} (h : (members.map (·.1)).Nodup)
    {m : String × Json} : m ∈ members ↔ members.lookup m.1 = some m.2 := by
  refine ⟨lookup_of_mem h, fun hm ↦ ?_⟩
  obtain ⟨before, after, rfl, -⟩ := List.lookup_eq_some_iff.1 hm
  exact List.mem_append_right _ List.mem_cons_self

/-- In the order of their names, members that are found under the same names are the same. -/
theorem eq_of_lookup_eq {members others : List (String × Json)}
    (h : (members.map (·.1)).Pairwise (· < ·)) (h' : (others.map (·.1)).Pairwise (· < ·))
    (hlookup : ∀ name, members.lookup name = others.lookup name) : members = others := by
  have hnodup : (members.map (·.1)).Nodup := h.imp fun hlt ↦ ne_of_lt hlt
  have hnodup' : (others.map (·.1)).Nodup := h'.imp fun hlt ↦ ne_of_lt hlt
  have hperm : members.Perm others :=
    (List.perm_ext_iff_of_nodup (.of_map _ hnodup) (.of_map _ hnodup')).2 fun m ↦ by
      rw [mem_iff_lookup_eq hnodup, mem_iff_lookup_eq hnodup', hlookup]
  exact hperm.eq_of_pairwise (fun _ _ _ _ hlt hgt ↦ absurd hlt (lt_asymm hgt))
    (List.pairwise_map.1 h) (List.pairwise_map.1 h')

/-- What is asked of a map of members in the order of their names, and determines `insert`: under the
name that is inserted the new value is found, and under other names what was found before. -/
theorem eq_insert_iff {name : String} {value : Json} {members result : List (String × Json)}
    (h : (members.map (·.1)).Pairwise (· < ·)) (hresult : (result.map (·.1)).Pairwise (· < ·)) :
    result = insert name value members ↔ ∀ other,
      result.lookup other = if other = name then some value else members.lookup other := by
  constructor
  · rintro rfl other
    exact lookup_insert
  · intro hlookup
    refine eq_of_lookup_eq hresult (pairwise_names_insert name value h) fun other ↦ ?_
    rw [hlookup, lookup_insert]

/-- Filling an object up with more members adds their names. -/
theorem names_foldl_insert (members acc : List (String × Json))
    (h : (acc.map (·.1)).Pairwise (· < ·)) :
    ((members.foldl (fun acc m ↦ insert m.1 m.2 acc) acc).map (·.1)).Pairwise (· < ·) ∧
      ∀ name, name ∈ (members.foldl (fun acc m ↦ insert m.1 m.2 acc) acc).map (·.1) ↔
        name ∈ members.map (·.1) ∨ name ∈ acc.map (·.1) := by
  induction members generalizing acc with
  | nil => exact ⟨h, fun name ↦ by simp⟩
  | cons m rest ih =>
    obtain ⟨hsorted, hmem⟩ := ih _ (pairwise_names_insert m.1 m.2 h)
    refine ⟨hsorted, fun name ↦ (hmem name).trans ?_⟩
    rw [mem_names_insert, List.map_cons, List.mem_cons]
    exact or_left_comm.trans (or_assoc.symm)

/-- There is one member for each of the different names. -/
theorem memberCount_ofMembers (members : List (String × Json)) :
    (ofMembers members).memberCount = (members.map (·.1)).dedup.length := by
  obtain ⟨hsorted, hmem⟩ := names_foldl_insert members [] .nil
  have hnodup := hsorted.imp fun h ↦ ne_of_lt h
  have hperm := (List.perm_ext_iff_of_nodup hnodup (List.nodup_dedup (members.map (·.1)))).2
    fun name ↦ by rw [hmem, List.mem_dedup]; simp
  rw [ofMembers, memberCount, ← hperm.length_eq, List.length_map]

/-- Of the members with one name the last one is left. -/
theorem member?_ofMembers_of_last {before after : List (String × Json)} {m : String × Json}
    (h : m.1 ∉ after.map (·.1)) : (ofMembers (before ++ m :: after)).member? m.1 = some m.2 := by
  have hnone : after.reverse.lookup m.1 = none := by
    refine List.lookup_eq_none_iff.2 fun other hother ↦ bne_iff_ne.2 fun heq ↦ h ?_
    exact heq ▸ List.mem_map_of_mem (List.mem_reverse.1 hother)
  rw [member?_ofMembers, List.reverse_append, List.reverse_cons, List.append_assoc,
    List.lookup_append, hnone, Option.none_or, List.singleton_append, lookup_cons_eq_ite,
    if_pos rfl]

end Json

namespace Value

variable [Uuid.Library]

/-- The object has as many members as there are fields, and under the name of each field the JSON of
that field. -/
def KeepsFields (fields : List (String × Value)) (json : Json) : Prop :=
  json.memberCount = fields.length ∧
    ∀ f ∈ fields, ∃ x, f.2.toJson = .ok x ∧ json.member? f.1 = some x

/-- The member of a field stands between those of the fields before it and those of the fields behind
it. -/
theorem fieldsToJson_append_eq_ok {before after : List (String × Value)} {f : String × Value}
    {members : List (String × Json)} (h : fieldsToJson (before ++ f :: after) = .ok members) :
    ∃ (ms : List (String × Json)) (m : String × Json) (ns : List (String × Json)), f.1 = m.1 ∧
      f.2.toJson = .ok m.2 ∧ fieldsToJson after = .ok ns ∧ members = ms ++ m :: ns := by
  induction before generalizing members with
  | nil =>
    obtain ⟨x, ns, hx, hafter, rfl⟩ := fieldsToJson_cons_eq_ok_iff.1 h
    exact ⟨[], (f.1, x), ns, rfl, hx, hafter, rfl⟩
  | cons g rest ih =>
    obtain ⟨x, others, -, hrest, rfl⟩ := fieldsToJson_cons_eq_ok_iff.1 h
    obtain ⟨ms, m, ns, hname, hx, hafter, rfl⟩ := ih hrest
    exact ⟨(g.1, x) :: ms, m, ns, hname, hx, hafter, rfl⟩

/-- The last field of a name is found under it. -/
theorem exists_member?_of_last {before after : List (String × Value)} {f : String × Value}
    {json : Json} (hjson : (Value.struct (before ++ f :: after)).toJson = .ok json)
    (h : f.1 ∉ after.map (·.1)) : ∃ x, f.2.toJson = .ok x ∧ json.member? f.1 = some x := by
  obtain ⟨members, hmembers, rfl⟩ := map_eq_ok_iff.1 hjson
  obtain ⟨ms, m, ns, hname, hx, hafter, rfl⟩ := fieldsToJson_append_eq_ok hmembers
  have hnames : ns.map (·.1) = after.map (·.1) := names_of_fieldsToJson hafter
  exact ⟨m.2, hx, hname ▸ Json.member?_ofMembers_of_last (by rwa [hnames, ← hname])⟩

/-- All fields are kept if their names are pairwise different, and only then. -/
theorem keepsFields_iff {fields : List (String × Value)} {json : Json}
    (hjson : (Value.struct fields).toJson = .ok json) :
    KeepsFields fields json ↔ (fields.map (·.1)).Nodup := by
  obtain ⟨members, hmembers, rfl⟩ := map_eq_ok_iff.1 hjson
  have hcount := Json.memberCount_ofMembers members
  rw [names_of_fieldsToJson hmembers] at hcount
  constructor
  · rintro ⟨hlength, -⟩
    -- A list with as many different entries as entries has no entry twice.
    have heq := (List.dedup_sublist (fields.map (·.1))).eq_of_length
      (by rw [← hcount, hlength, List.length_map])
    exact List.dedup_eq_self.1 heq
  · intro hnodup
    refine ⟨by rw [hcount, List.dedup_eq_self.2 hnodup, List.length_map], fun f hf ↦ ?_⟩
    obtain ⟨before, after, rfl⟩ := List.append_of_mem hf
    refine exists_member?_of_last hjson fun hmem ↦ ?_
    rw [List.map_append, List.map_cons, List.nodup_append, List.nodup_cons] at hnodup
    exact hnodup.2.1.1 hmem

end Value

namespace Column

/-- What becomes of the fields of a struct row, in any column of structs within reach of one that was
opened. Its object has one member for each of the different names that the type declares, and under
each name the JSON of the last field of that name. So all fields are kept if the names of the type
are pairwise different, and only then. -/
theorem keepsFields_iff_of_reaches [Uuid.Library] {chunk : Chunk} {config : DecodeConfig}
    {id count : Nat} {opened : LogicalType} {c₀ c : Column}
    (hc₀ : decode chunk config id count opened = .ok c₀)
    (hc : c₀.Reaches c) {types : List (String × LogicalType)} (htype : c.type = .struct types)
    {i : Nat} {fields : List (String × Value)} (hrow : c.getItem i = .ok (.struct fields))
    {json : Json} (hjson : (Value.struct fields).toJson = .ok json) :
    (∃ members, json = .object members) ∧ json.memberCount = (types.map (·.1)).dedup.length ∧
      (∀ before f after, fields = before ++ f :: after → f.1 ∉ after.map (·.1) →
        ∃ x, f.2.toJson = .ok x ∧ json.member? f.1 = some x) ∧
      (Value.KeepsFields fields json ↔ (types.map (·.1)).Nodup) := by
  obtain ⟨-, -, -, -, -, hadmits⟩ := admits_of_decode hc₀
  have hadmit : (LogicalType.struct types).Admits (.struct fields) :=
    htype ▸ hadmits c hc i _ hrow
  obtain ⟨values, hvalues, hfields⟩ := hadmit.resolve_left (by simp)
  obtain rfl := Value.struct.inj hvalues
  have hnames : fields.map (·.1) = types.map (·.1) := hfields.names
  obtain ⟨members, hmembers, hobject⟩ := map_eq_ok_iff.1 hjson
  refine ⟨⟨_, hobject.symm⟩, ?_, ?_, hnames ▸ Value.keepsFields_iff hjson⟩
  · rw [← hobject, Json.memberCount_ofMembers, Value.names_of_fieldsToJson hmembers, hnames]
  · rintro before f after rfl hlast
    exact Value.exists_member?_of_last hjson hlast

/-- Two fields without a name. -/
def namelessFields : List (String × LogicalType) :=
  [("", LogicalType.tagType), ("", LogicalType.tagType)]

/-- One row of lists of such structs: the list of the struct of 1 and 2. -/
def listedPair : Chunk where
  vectors := #[
    { type := LogicalType.tagType, data := #[1] },
    { type := LogicalType.tagType, data := #[2] },
    { type := .struct namelessFields, children := [0, 1] },
    { type := .list (.struct namelessFields)
      data := ([0, 1].flatMap (LittleEndian.ofNat 8)).toArray
      children := [2]
      childCount := 1 }]

/-- The struct has two fields, but its object has one member, and that is the second field. -/
theorem listedPair_losesField :
    ∃ lists structs : Column,
      decode listedPair {} 3 1 (.list (.struct namelessFields)) = .ok lists ∧
        lists.Reaches structs ∧ structs.type = .struct namelessFields ∧
        structs.getItem 0 =
          .ok (.struct [("", .integer .uTinyInt 1), ("", .integer .uTinyInt 2)]) ∧
        ∃ json : Json,
          (Value.struct [("", .integer .uTinyInt 1), ("", .integer .uTinyInt 2)]).toJson =
            .ok json ∧ json.memberCount = 1 ∧ json.member? "" = some (.int 2) ∧
          ¬ Value.KeepsFields [("", .integer .uTinyInt 1), ("", .integer .uTinyInt 2)] json := by
  obtain ⟨lists, hlists, structs, helements, htype, hrow⟩ : ∃ lists : Column,
      decode listedPair {} 3 1 (.list (.struct namelessFields)) = .ok lists ∧ ∃ structs : Column,
        lists.access (.elements 0) = .ok (some structs) ∧
        structs.type = .struct namelessFields ∧ structs.getItem 0 =
          .ok (.struct [("", .integer .uTinyInt 1), ("", .integer .uTinyInt 2)]) :=
    ⟨_, rfl, _, rfl, rfl, rfl⟩
  obtain ⟨json, hjson, hcount, hlast⟩ : ∃ json : Json,
      (Value.struct [("", .integer .uTinyInt 1), ("", .integer .uTinyInt 2)]).toJson = .ok json ∧
        json.memberCount = 1 ∧ json.member? "" = some (.int 2) := ⟨_, rfl, rfl, rfl⟩
  have hlen : 0 < lists.len := (admits_of_decode hlists).1.symm ▸ Nat.zero_lt_one
  have hreach : lists.Reaches structs := .step .refl (.elements 0) hlen helements
  obtain ⟨-, -, -, hkeeps⟩ := keepsFields_iff_of_reaches hlists hreach htype hrow hjson
  exact ⟨lists, structs, hlists, hreach, htype, hrow, json, hjson, hcount, hlast,
    fun h ↦ absurd (hkeeps.1 h) (by decide)⟩

end Column

end Columnar
