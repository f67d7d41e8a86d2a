import InheritDoc.Proofs.Catalog.Listing
import InheritDoc.Proofs.Catalog.Precedence
import Mathlib.Data.List.Nodup

namespace InheritDoc

/-!
# Where the entries of a catalog come from

Of a catalog only entries, links and an index are kept.  What they were made of can be told from the
declarations again.

* `Kept`            : a declared type that a catalog is made of;
* `Kept.eq_of_id`   : of each type there is one;
* `Catalog.Indexes` : the entry of a type is made of its kept declaration;
* `Catalog.exists_members_of_kept` : every member of a kept type has an entry under its id;
* `Catalog.exists_member_of_owner` : an entry that has an owner is made of a member of its owner, in
  view of the hierarchy and the ids of the finished catalog.
-/

/-! ### Kept types -/

/-- The declared type is one that a catalog of the declarations is made of. -/
def Kept (ds : List Declaration) (t : DeclaredType) : Prop :=
  ∃ types, keptTypes ds = .ok types ∧ t ∈ types

namespace Kept

variable {ds : List Declaration} {t t' : DeclaredType}

/-- No declaration of a kept type has more members than the one that is kept. -/
theorem foremost (h : Kept ds t) : Foremost ds t.id t.declaration := by
  obtain ⟨types, htypes, ht⟩ := h
  exact foremost_of_mem_keptTypes htypes ht

/-- Of each type one declaration is kept. -/
theorem eq_of_id (h : Kept ds t) (h' : Kept ds t') (hid : t.id = t'.id) : t = t' := by
  obtain ⟨types, htypes, ht⟩ := h
  obtain ⟨types', htypes', ht'⟩ := h'
  obtain rfl : types = types' := Except.ok.inj (htypes.symm.trans htypes')
  exact List.inj_on_of_nodup_map (sorted_ids_keptTypes htypes).2 ht ht' hid

end Kept

/-! ### Members in view of the catalog -/

/-- Whether an id is known is all that matters for the entry of a member. -/
theorem RankedMember.entry_congr {known known' : List String} (h : ∀ id, id ∈ known ↔ id ∈ known')
    (hierarchy : Hierarchy) (m : RankedMember) :
    m.entry hierarchy known = m.entry hierarchy known' := by
  simp only [entry, bases, implemented, h]

/-- A member is called what its id says after the owner. -/
theorem RankedMember.localId_of_id {m : RankedMember} {type localId : String} (howner : m.owner = type)
    (h : m.id = type ++ "." ++ localId) : m.localId = localId := by
  have hcancel : type ++ "." ++ m.localId = type ++ "." ++ localId := howner ▸ h
  simpa [String.toList_inj] using congrArg String.toList hcancel

namespace Catalog

variable {ds : List Declaration} {c : Catalog}

/-- The entry of a declared type has its descriptor and its links. -/
def Indexes (c : Catalog) (t : DeclaredType) : Prop :=
  ∃ links, t.links = .ok links ∧ c.lookup t.id = some (t.entry links)

section Build

variable (hc : build ds = .ok c)

include hc

/-- Of a type that is declared a declaration is kept. -/
theorem exists_kept {d : Declaration} (hd : d ∈ ds) {id : String}
    (hid : d.descriptor.encode = .ok id) : ∃ t, Kept ds t ∧ t.id = id := by
  obtain ⟨types, -, -, -, htypes, -⟩ := build_eq_ok.mp hc
  have hmem : id ∈ types.map (·.id) := (mem_ids_keptTypes htypes).mpr ⟨d, hd, hid⟩
  obtain ⟨t, ht, rfl⟩ := List.mem_map.mp hmem
  exact ⟨t, ⟨types, htypes, ht⟩, rfl⟩

/-- The entry under the id of a type is made of its kept declaration, for types come before members
    and no other type has the id. -/
theorem indexes_of_kept {t : DeclaredType} (ht : Kept ds t) : c.Indexes t := by
  obtain ⟨types, links, lists, memberEntries, htypes, hlinks, -, hentries, rfl⟩ := build_eq_ok.mp hc
  obtain ⟨types', htypes', hmem⟩ := ht
  obtain rfl : types = types' := Except.ok.inj (htypes.symm.trans htypes')
  obtain ⟨e, he, hid, howner⟩ := exists_typeEntry hlinks hmem memberEntries
  have hlookup := lookup_of_mem hc he
  rcases List.mem_append.mp (mem_of_mem_firstPerKey he) with htype | hmember
  · obtain ⟨t', ht', l, hl, rfl⟩ := (mem_typeEntries hlinks).mp htype
    obtain rfl : t' = t := Kept.eq_of_id ⟨types, htypes, ht'⟩ ⟨types, htypes, hmem⟩ hid
    exact ⟨l, hl, hlookup⟩
  · -- members have an owner
    obtain ⟨m, -, hentry⟩ := exists_of_mem_mapM hentries hmember
    obtain ⟨bases, -, rfl⟩ := RankedMember.entry_eq_ok.mp hentry
    cases howner

/-- The members of a kept type can be ranked, and the id of each of them has an entry. -/
theorem exists_members_of_kept {t : DeclaredType} (ht : Kept ds t) :
    ∃ members, RankedMember.ofType c.hierarchy t = .ok members ∧
      ∀ m ∈ members, ∃ e, c.lookup m.id = some e := by
  obtain ⟨types, links, lists, memberEntries, htypes, hlinks, hmembers, hentries, rfl⟩ :=
    build_eq_ok.mp hc
  obtain ⟨types', htypes', hmem⟩ := ht
  obtain rfl : types = types' := Except.ok.inj (htypes.symm.trans htypes')
  obtain ⟨members, hlisted, hofType⟩ := exists_result_of_mem_mapM hmembers hmem
  refine ⟨members, hofType, fun m hm => mem_ids_iff.mp ?_⟩
  rw [mem_ids_of_parts hlinks hentries]
  exact List.mem_append_right _ (List.mem_map_of_mem (List.mem_flatten.mpr ⟨members, hlisted, hm⟩))

/-- An entry that has an owner is made of a member of its owner. -/
theorem exists_member_of_owner {e : Entry} (he : e ∈ c.entries) {type : String}
    (howner : e.owner = some type) :
    ∃ t members m, Kept ds t ∧ t.id = type ∧ RankedMember.ofType c.hierarchy t = .ok members ∧
      m ∈ members ∧ m.owner = type ∧ m.entry c.hierarchy c.ids = .ok e := by
  obtain ⟨types, links, lists, memberEntries, htypes, hlinks, hmembers, hentries, rfl⟩ :=
    build_eq_ok.mp hc
  rcases List.mem_append.mp (mem_of_mem_firstPerKey he) with htype | hmember
  · -- types have no owner
    obtain ⟨t, -, l, -, rfl⟩ := (mem_typeEntries hlinks).mp htype
    cases howner
  · obtain ⟨m, hm, hentry⟩ := exists_of_mem_mapM hentries hmember
    obtain ⟨members, hlisted, hm⟩ := List.mem_flatten.mp hm
    obtain ⟨t, ht, hofType⟩ := exists_of_mem_mapM hmembers hlisted
    have hid : t.id = type := by
      obtain ⟨bases, -, rfl⟩ := RankedMember.entry_eq_ok.mp hentry
      rw [← (RankedMember.exists_of_mem_ofType hofType hm).1]
      exact Option.some.inj howner
    refine ⟨t, members, m, ⟨types, htypes, ht⟩, hid, hofType, hm, ?_, ?_⟩
    · rw [(RankedMember.exists_of_mem_ofType hofType hm).1, hid]
    · rw [← hentry]
      exact RankedMember.entry_congr (mem_ids_of_parts hlinks hentries) _ m

end Build

end Catalog

end InheritDoc
