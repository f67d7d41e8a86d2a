import InheritDoc.Command.Execute
import InheritDoc.Proofs.Catalog.Addressing
import InheritDoc.Proofs.Catalog.Bases
import Mathlib.Data.List.Perm.Basic

namespace InheritDoc

/-!
# A built catalog is consistent

A catalog keeps entries, an index of members and the bases of each element.  They are filled one
after the other, and elements that share an id compete in each of them, yet they agree.

* `Catalog.Consistent`   : what it means that they agree;
* `Catalog.listed_perm`  : the types, each with the members listed under it, are all the entries;
* `Catalog.idLines_eq_join` : and this is the order in which they are printed;
* `consistent_of_build`  : **every catalog of types and members is consistent.**
-/

/-- The line of an entry where all entries are printed.  Members are indented. -/
def Entry.line (e : Entry) : String :=
  (if e.isType then "" else "  ") ++ e.docId ++ "\n"

/-- Texts joined block by block. -/
theorem join_flatMap {α : Type} (as : List α) (f : α → List String) :
    String.join (as.flatMap f) = String.join (as.map fun a => String.join (f a)) := by
  simp [← String.toList_inj, List.flatMap_assoc, List.flatMap_map]

namespace Catalog

/-- The ids of the types. -/
def typeIds (c : Catalog) : List String :=
  (c.entries.filter (·.isType)).map (·.id)

/-- The parts of a catalog agree. -/
structure Consistent (c : Catalog) : Prop where
  lookup_id : ∀ e ∈ c.entries, c.lookup e.id = some e
  isType_iff : ∀ e ∈ c.entries, (e.isType = true ↔ e.owner = none)
  hasMember_iff : ∀ type member, c.hasMember type member = true ↔
    ∃ e ∈ c.entries, e.id = member ∧ e.owner = some type
  owner_isType : ∀ type member, c.hasMember type member = true →
    ∃ t ∈ c.entries, t.id = type ∧ t.isType = true
  /-- Every id is that of a type or of one member of one type. -/
  nodup_ids : c.ids.Nodup
  ids_perm : c.ids.Perm (c.typeIds ++ c.typeIds.flatMap c.membersOf)
  /-- Every entry is printed on one line. -/
  idLines_eq : ∃ listed : List Entry,
    listed.Perm c.entries ∧ c.idLines = String.join (listed.map Entry.line)
  member_id : ∀ e ∈ c.entries, ∀ owner, e.owner = some owner →
    ∃ localId, e.descriptor.encode = .ok localId ∧ e.id = owner ++ "." ++ localId
  member_bases : ∀ e ∈ c.entries, e.owner ≠ none → IsBases c.ids e.id e.bases

variable {ds : List Declaration} {c : Catalog} {e : Entry}

/-! ### Entries and their ids -/

section Build

variable (hc : build ds = .ok c)

include hc

/-- No two entries share an id. -/
theorem nodup_map_id : (c.entries.map (·.id)).Nodup := by
  obtain ⟨types, links, members, memberEntries, -, -, -, -, rfl⟩ := build_eq_ok.mp hc
  exact nodup_firstPerKey _

/-- An id stands for one entry. -/
theorem eq_of_id_eq {e' : Entry} (he : e ∈ c.entries) (he' : e' ∈ c.entries) (h : e.id = e'.id) :
    e = e' := by
  rw [← Option.some.injEq, ← lookup_of_mem hc he, h, lookup_of_mem hc he']

/-- In the order of their ids the entries are found one by one. -/
theorem filterMap_lookup_perm : (c.ids.filterMap c.lookup).Perm c.entries := by
  have hall : (c.entries.map (·.id)).filterMap c.lookup = c.entries := by
    rw [List.filterMap_map]
    refine (List.filterMap_congr fun e he => ?_).trans List.filterMap_some
    exact lookup_of_mem hc he
  exact ((List.mergeSort_perm _ _).filterMap _).trans (.of_eq hall)

/-! ### Members of types -/

/-- No member is listed twice. -/
theorem nodup_membersOf (type : String) : (c.membersOf type).Nodup := by
  obtain ⟨types, links, members, memberEntries, -, -, -, -, rfl⟩ := build_eq_ok.mp hc
  refine (List.mergeSort_perm _ _).nodup_iff.mpr ?_
  exact (nodup_listMembers _ _).sublist (List.filter_sublist.map _)

/-- The members of a type are the elements that it owns. -/
theorem mem_membersOf {type id : String} :
    id ∈ c.membersOf type ↔ ∃ e, c.lookup id = some e ∧ e.owner = some type := by
  rw [← hasMember_iff hc]
  simp [membersOf, hasMember]

/-- The members listed under a type are the entries that it owns. -/
theorem mem_members {type : String} :
    e ∈ (c.membersOf type).filterMap c.lookup ↔ e ∈ c.entries ∧ e.owner = some type := by
  rw [List.mem_filterMap]
  simp only [mem_membersOf hc]
  constructor
  · rintro ⟨id, ⟨e', he', howner⟩, he⟩
    obtain rfl : e' = e := Option.some.inj (he'.symm.trans he)
    exact ⟨mem_of_lookup he, howner⟩
  · rintro ⟨he, howner⟩
    have hlookup := lookup_of_mem hc he
    exact ⟨e.id, ⟨e, hlookup, howner⟩, hlookup⟩

/-- No entry is listed twice among the members. -/
theorem nodup_members (type : String) : ((c.membersOf type).filterMap c.lookup).Nodup := by
  refine (nodup_membersOf hc type).filterMap fun id id' e he he' => ?_
  rw [← id_of_lookup he, ← id_of_lookup he']

/-- Every listed member has an entry. -/
theorem map_id_members (type : String) :
    ((c.membersOf type).filterMap c.lookup).map (·.id) = c.membersOf type := by
  rw [List.map_filterMap]
  refine (List.filterMap_congr fun id hid => ?_).trans List.filterMap_some
  obtain ⟨e, he, -⟩ := (mem_membersOf hc).mp hid
  rw [he, Option.map_some, id_of_lookup he]

/-! ### Bases -/

/-- The bases of members were chosen among the ids of all types and members, which are the ids of the
    catalog. -/
theorem isBases_of_mem (hds : ∀ d ∈ ds, d.WellKinded) (he : e ∈ c.entries) (howner : e.owner ≠ none) :
    IsBases c.ids e.id e.bases := by
  obtain ⟨types, links, members, memberEntries, htypes, hlinks, hmembers, hentries, rfl⟩ :=
    build_eq_ok.mp hc
  rcases List.mem_append.mp (mem_of_mem_firstPerKey he) with he | he
  · obtain ⟨t, -, l, -, rfl⟩ := (mem_typeEntries hlinks).mp he
    exact absurd rfl howner
  · obtain ⟨t, ht, m, bases, -, hmember, hlocal, hbases, rfl⟩ :=
      RankedMember.exists_of_mem_entries hmembers hentries he
    have hkind := (hds _ (exists_of_mem_keptTypes htypes ht).1).members _ hmember
    rw [Descriptor.encode, if_neg (by simp [hkind])] at hlocal
    have h := RankedMember.isBases_of_bases hlocal hkind hbases
    refine ⟨h.nodup, fun base hbase => ?_, h.notSelf⟩
    -- elements that share an id are all known by it
    exact (mem_ids_of_parts hlinks hentries base).mpr (h.known base hbase)

end Build

/-! ### All entries, type by type -/

/-- The types in the order of their ids. -/
def types (c : Catalog) : List Entry :=
  (c.ids.filterMap c.lookup).filter (·.isType)

/-- A type and the members listed under it. -/
def withMembers (c : Catalog) (t : Entry) : List Entry :=
  t :: (c.membersOf t.id).filterMap c.lookup

/-- The types, each with its members. -/
def listed (c : Catalog) : List Entry :=
  c.types.flatMap c.withMembers

section Listed

variable (hc : build ds = .ok c) (hds : ∀ d ∈ ds, d.WellKinded)

include hc

/-- The listed types are those among the entries, each of them once. -/
theorem types_perm : c.types.Perm (c.entries.filter (·.isType)) :=
  (filterMap_lookup_perm hc).filter _

include hds

/-- Types are the entries without owner. -/
theorem mem_types : e ∈ c.types ↔ e ∈ c.entries ∧ e.owner = none := by
  rw [(types_perm hc).mem_iff, List.mem_filter]
  exact and_congr_right fun he => isType_iff_owner hc hds he

/-- What is listed with a type has the id of the type for its owner, or for its own if it has no
    owner. -/
theorem mem_withMembers {t : Entry} (ht : t ∈ c.types) :
    e ∈ c.withMembers t ↔ e ∈ c.entries ∧ e.owner.getD e.id = t.id := by
  obtain ⟨ht, htype⟩ := (mem_types hc hds).mp ht
  rw [withMembers, List.mem_cons, mem_members hc]
  cases howner : e.owner with
  | none =>
    constructor
    · rintro (rfl | ⟨-, h⟩)
      · exact ⟨ht, rfl⟩
      · cases h
    · -- the only entry with the id of the type is the type
      rintro ⟨he, hid⟩
      exact .inl (eq_of_id_eq hc he ht hid)
  | some owner =>
    have hne : e ≠ t := by
      rintro rfl
      simp [howner] at htype
    simp [hne]

/-- No entry is listed with two types, nor twice with one. -/
theorem nodup_listed : c.listed.Nodup := by
  have htypes : c.types.Nodup :=
    (types_perm hc).nodup_iff.mpr (((nodup_map_id hc).of_map _).filter _)
  refine List.nodup_flatMap.mpr ⟨fun t ht => ?_, htypes.imp_of_mem fun {t t'} ht ht' hne => ?_⟩
  · refine List.nodup_cons.mpr ⟨fun hself => ?_, nodup_members hc t.id⟩
    have howner := ((mem_members hc).mp hself).2
    simp [((mem_types hc hds).mp ht).2] at howner
  · -- an entry that is listed with both types would give them one id
    intro e he he'
    have hid := ((mem_withMembers hc hds ht).mp he).2
    have hid' := ((mem_withMembers hc hds ht').mp he').2
    exact hne (eq_of_id_eq hc ((mem_types hc hds).mp ht).1 ((mem_types hc hds).mp ht').1
      (hid.symm.trans hid'))

/-- **Type by type, every entry is listed once.** -/
theorem listed_perm : c.listed.Perm c.entries := by
  refine (List.perm_ext_iff_of_nodup (nodup_listed hc hds) ((nodup_map_id hc).of_map _)).mpr ?_
  intro e
  rw [listed, List.mem_flatMap]
  constructor
  · rintro ⟨t, ht, he⟩
    exact ((mem_withMembers hc hds ht).mp he).1
  · intro he
    -- a type is listed with itself, a member with its owner
    have hhome : ∃ t ∈ c.types, e.owner.getD e.id = t.id := by
      cases howner : e.owner with
      | none => exact ⟨e, (mem_types hc hds).mpr ⟨he, howner⟩, rfl⟩
      | some owner =>
        obtain ⟨t, ht, hid, htype⟩ := exists_owner hc hds he howner
        exact ⟨t, (mem_types hc hds).mpr ⟨ht, (isType_iff_owner hc hds ht).mp htype⟩, hid.symm⟩
    obtain ⟨t, ht, hid⟩ := hhome
    exact ⟨t, ht, (mem_withMembers hc hds ht).mpr ⟨he, hid⟩⟩

/-- The ids are those of the types and those of their members. -/
theorem ids_perm_types_members :
    c.ids.Perm (c.typeIds ++ c.typeIds.flatMap c.membersOf) := by
  have htypes : (c.types.map (·.id)).Perm c.typeIds := (types_perm hc).map _
  -- each type is listed with its members after it
  have hblock : ∀ t, (c.withMembers t).map (·.id) = [t.id] ++ c.membersOf t.id := fun t => by
    rw [withMembers, List.map_cons, map_id_members hc, List.singleton_append]
  calc List.Perm c.ids (c.entries.map Entry.id) := List.mergeSort_perm _ _
    List.Perm _ (c.listed.map Entry.id) := (listed_perm hc hds).symm.map _
    _ = c.types.flatMap fun t => [t.id] ++ c.membersOf t.id := by
      simp only [listed, List.map_flatMap, hblock]
    List.Perm _ (c.types.flatMap (fun t => [t.id]) ++ c.types.flatMap fun t => c.membersOf t.id) :=
      (List.flatMap_append_perm _ _ _).symm
    _ = c.types.map (·.id) ++ (c.types.map (·.id)).flatMap c.membersOf := by
      rw [List.flatMap_map, ← List.map_eq_flatMap]
    List.Perm _ (c.typeIds ++ c.typeIds.flatMap c.membersOf) :=
      htypes.append (htypes.flatMap_right _)

/-! ### Printed lines -/

/-- The lines of a type and of its members are those of the entries that are listed with it. -/
theorem join_withMembers {t : Entry} (ht : t ∈ c.types) :
    String.join ((c.withMembers t).map Entry.line)
      = t.docId ++ "\n" ++ String.join (((c.membersOf t.id).filterMap c.lookup).map fun member =>
          "  " ++ member.docId ++ "\n") := by
  have htype : t.isType = true := by
    obtain ⟨ht, howner⟩ := (mem_types hc hds).mp ht
    exact (isType_iff_owner hc hds ht).mpr howner
  -- members have an owner, so they are no types and their lines are indented
  have hmember : ∀ e ∈ (c.membersOf t.id).filterMap c.lookup,
      e.line = "  " ++ e.docId ++ "\n" := by
    intro e he
    obtain ⟨he, howner⟩ := (mem_members hc).mp he
    have hkind : ¬ e.isType = true := fun h => by
      simp [(isType_iff_owner hc hds he).mp h] at howner
    rw [Entry.line, if_neg hkind]
  rw [withMembers, List.map_cons, String.join_cons, List.map_congr_left hmember, Entry.line,
    if_pos htype, String.empty_append]

/-- What is printed is the lines of the listed entries. -/
theorem idLines_eq_join : c.idLines = String.join (c.listed.map Entry.line) := by
  rw [listed, List.map_flatMap, join_flatMap]
  exact congrArg String.join (List.map_congr_left fun t ht => (join_withMembers hc hds ht).symm)

end Listed

end Catalog

/-- **A built catalog is consistent.** -/
theorem consistent_of_build {ds : List Declaration} {c : Catalog}
    (hds : ∀ d ∈ ds, d.WellKinded) (hc : Catalog.build ds = .ok c) : c.Consistent where
  lookup_id e he := Catalog.lookup_of_mem hc he
  isType_iff e he := Catalog.isType_iff_owner hc hds he
  hasMember_iff type member := by
    rw [Catalog.hasMember_iff hc]
    constructor
    · rintro ⟨e, he, howner⟩
      exact ⟨e, Catalog.mem_of_lookup he, Catalog.id_of_lookup he, howner⟩
    · rintro ⟨e, he, rfl, howner⟩
      exact ⟨e, Catalog.lookup_of_mem hc he, howner⟩
  owner_isType type member h := by
    obtain ⟨e, he, howner⟩ := (Catalog.hasMember_iff hc).mp h
    exact Catalog.exists_owner hc hds (Catalog.mem_of_lookup he) howner
  nodup_ids := (List.mergeSort_perm _ _).nodup_iff.mpr (Catalog.nodup_map_id hc)
  ids_perm := Catalog.ids_perm_types_members hc hds
  idLines_eq := ⟨c.listed, Catalog.listed_perm hc hds, Catalog.idLines_eq_join hc hds⟩
  member_id e he owner howner := by
    rcases Catalog.entry_cases hc he with ⟨d, hd, hnone, -⟩ |
      ⟨d, hd, owner', localId, -, -, -, hlocal, hid, hsome, -⟩
    · simp [hnone] at howner
    · rw [hsome, Option.some.injEq] at howner
      exact ⟨localId, hlocal, howner ▸ hid⟩
  member_bases e he howner := Catalog.isBases_of_mem hc hds he howner

/-- An inherited method is listed under the type that inherits it. -/
theorem consistent_of_build_inherited :
    (∀ d ∈ [sampleCart], d.WellKinded) ∧
    ∃ c, Catalog.build [sampleCart] = .ok c ∧ c.Consistent ∧ c.typeIds = ["Shop.Cart"] ∧
      c.membersOf "Shop.Cart" = [sampleEntry.id] := by
  have hds : ∀ d ∈ [sampleCart], d.WellKinded := List.forall_mem_singleton.2 sampleCart_spelled.1
  refine ⟨hds, _, build_sampleCart, consistent_of_build hds build_sampleCart, rfl, ?_⟩
  simp [Catalog.membersOf, sampleEntry]

end InheritDoc
