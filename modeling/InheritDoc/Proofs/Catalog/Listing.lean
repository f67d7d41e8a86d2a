import InheritDoc.Proofs.Catalog.Entries

namespace InheritDoc

/-!
# Members and their types

The index of the members agrees with the entries, though both are filled from the same list of
members by rules of their own.

* `mem_listMembers`  : what is listed is the first member with its id, unless the id is taken;
* `Catalog.hasMember_iff` : a member is listed under a type exactly if its entry has that owner;
* `Catalog.mem_ids_of_parts` : the ids of a catalog are those of its types and members.
-/

/-! ### Listed members -/

/-- A member is listed exactly if it is the first one with its id and the id is not taken. -/
theorem mem_listMembers {taken : List String} {members : List RankedMember} {type id : String} :
    (type, id) ∈ listMembers taken members ↔
      id ∉ taken ∧ ∃ m, members.find? (·.id = id) = some m ∧ m.owner = type := by
  induction members generalizing taken with
  | nil => simp [listMembers]
  | cons m members ih =>
    rw [listMembers, List.find?_cons]
    -- the first member with an id takes it from all later ones
    by_cases hid : m.id = id
    · subst hid
      by_cases htaken : m.id ∈ taken
      · simp [htaken, ih]
      · simp [htaken, ih, eq_comm]
    · split
      · simp [ih, hid]
      · simp [ih, hid, Ne.symm hid]

/-- No id is listed twice. -/
theorem nodup_listMembers (taken : List String) (members : List RankedMember) :
    ((listMembers taken members).map (·.2)).Nodup := by
  induction members generalizing taken with
  | nil => simp [listMembers]
  | cons m members ih =>
    rw [listMembers]
    split
    · exact ih taken
    · refine List.nodup_cons.mpr ⟨fun hmem => ?_, ih (m.id :: taken)⟩
      obtain ⟨⟨type, id⟩, hlisted, rfl⟩ := List.mem_map.mp hmem
      exact (mem_listMembers.mp hlisted).1 List.mem_cons_self

/-! ### Entries of types and of members -/

/-- The entries of types have the ids of the types. -/
theorem map_id_typeEntries {types : List DeclaredType} {links : List Links}
    (h : types.mapM DeclaredType.links = .ok links) :
    (types.zipWith DeclaredType.entry links).map (·.id) = types.map (·.id) := by
  rw [mapM_eq_ok] at h
  induction h with
  | nil => rfl
  | cons _ _ ih => rw [List.zipWith_cons_cons, List.map_cons, ih, List.map_cons, DeclaredType.entry]

/-- The entries of members have the ids and the owners of the members. -/
theorem map_owner_memberEntries {hierarchy : Hierarchy} {known : List String}
    {members : List RankedMember} {memberEntries : List Entry}
    (h : members.mapM (RankedMember.entry hierarchy known) = .ok memberEntries) :
    memberEntries.map (fun e => (e.id, e.owner)) = members.map fun m => (m.id, some m.owner) := by
  refine map_eq_map_of_mapM h fun m _ e he => ?_
  obtain ⟨bases, -, rfl⟩ := RankedMember.entry_eq_ok.mp he
  rfl

/-- The first entry with an id has the owner of the first member with it. -/
theorem find?_memberEntries {hierarchy : Hierarchy} {known : List String}
    {members : List RankedMember} {memberEntries : List Entry}
    (h : members.mapM (RankedMember.entry hierarchy known) = .ok memberEntries) (id : String) :
    (memberEntries.find? (·.id = id)).map (·.owner)
      = (members.find? (·.id = id)).map (some ·.owner) := by
  have hkeys := congrArg (fun keys => (keys.find? (·.1 = id)).map (·.2)) (map_owner_memberEntries h)
  simpa [List.find?_map, Function.comp_def] using hkeys

namespace Catalog

variable {ds : List Declaration} {c : Catalog}

/-- **The index of members agrees with the entries.** -/
theorem hasMember_iff (h : build ds = .ok c) {type member : String} :
    c.hasMember type member = true ↔
      ∃ e, c.lookup member = some e ∧ e.owner = some type := by
  obtain ⟨types, links, members, memberEntries, -, hlinks, -, hentries, rfl⟩ := build_eq_ok.mp h
  rw [hasMember, List.contains_iff_mem, mem_listMembers, lookup, find?_firstPerKey,
    List.find?_append]
  cases htype : (types.zipWith DeclaredType.entry links).find? (·.id = member) with
  | some e =>
    -- the id is that of a type, whose entry has no owner
    have hmem := List.mem_of_find?_eq_some htype
    have hid : e.id = member := by simpa using List.find?_some htype
    have htaken : member ∈ types.map (·.id) := by
      rw [← map_id_typeEntries hlinks, ← hid]
      exact List.mem_map_of_mem hmem
    obtain ⟨t, -, l, -, rfl⟩ := (mem_typeEntries hlinks).mp hmem
    simp [htaken, DeclaredType.entry]
  | none =>
    have hfree : member ∉ types.map (·.id) := by
      rw [← map_id_typeEntries hlinks, List.mem_map]
      rintro ⟨e, he, hid⟩
      exact List.find?_eq_none.mp htype e he (by simpa using hid)
    have hfind := find?_memberEntries hentries member
    rw [Option.none_or]
    constructor
    · rintro ⟨-, m, hm, rfl⟩
      rw [hm, Option.map_some] at hfind
      exact Option.map_eq_some_iff.mp hfind
    · rintro ⟨e, he, howner⟩
      rw [he, Option.map_some, howner] at hfind
      obtain ⟨m, hm, hmowner⟩ := Option.map_eq_some_iff.mp hfind.symm
      exact ⟨hfree, m, hm, Option.some.inj hmowner⟩

/-- The ids of a catalog are those of the types and of their members, also where several of them
    have one id. -/
theorem mem_ids_of_parts {types : List DeclaredType} {links : List Links} {members : List RankedMember}
    {memberEntries : List Entry} {hierarchy hierarchy' : Hierarchy} {known : List String}
    {listing : List (String × String)}
    (hlinks : types.mapM DeclaredType.links = .ok links)
    (hentries : members.mapM (RankedMember.entry hierarchy known) = .ok memberEntries) (id : String) :
    id ∈ (Catalog.mk (firstPerKey (·.id) (types.zipWith DeclaredType.entry links ++ memberEntries))
        hierarchy' listing).ids ↔
      id ∈ types.map (·.id) ++ members.map (·.id) := by
  have hids : memberEntries.map (·.id) = members.map (·.id) := by
    have howners := congrArg (List.map (·.1)) (map_owner_memberEntries hentries)
    simpa only [List.map_map, Function.comp_def] using howners
  rw [ids, List.mem_mergeSort, mem_map_firstPerKey, List.map_append, map_id_typeEntries hlinks, hids]

end Catalog

end InheritDoc
