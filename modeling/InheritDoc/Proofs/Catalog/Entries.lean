import InheritDoc.Catalog.Build
import InheritDoc.Proofs.Outcome

namespace InheritDoc

/-!
# The entries of a built catalog

What a build that succeeds has done, step by step, and where the entries come from.

* `mem_firstPerKey`      : an item is kept if it is the first one with its key;
* `Catalog.build_eq_ok`  : the steps of a build;
* `Catalog.entry_cases`  : an entry is a declared type, or a member listed under a type that has an
  entry itself;
* `Catalog.lookup_of_mem` : an entry is found under its id.
-/

/-! ### One per key -/

section FirstPerKey

variable {α : Type} {key : α → String}

/-- An item is kept exactly if it is the first one with its key. -/
theorem mem_firstPerKey {as : List α} {a : α} :
    a ∈ firstPerKey key as ↔ as.find? (key · = key a) = some a := by
  induction as with
  | nil => simp [firstPerKey]
  | cons b as ih =>
    rw [firstPerKey, List.mem_cons, List.mem_filter, ih, List.find?_cons]
    by_cases hkey : key b = key a
    · simp [hkey, eq_comm]
    · have hne : a ≠ b := fun h => hkey (h ▸ rfl)
      simp [hkey, Ne.symm hkey, hne]

/-- What is kept was there before. -/
theorem mem_of_mem_firstPerKey {as : List α} {a : α} (h : a ∈ firstPerKey key as) : a ∈ as :=
  List.mem_of_find?_eq_some (mem_firstPerKey.mp h)

/-- The first item with a key is found among the kept ones. -/
theorem find?_firstPerKey (as : List α) (k : String) :
    (firstPerKey key as).find? (key · = k) = as.find? (key · = k) := by
  induction as with
  | nil => rfl
  | cons a as ih =>
    rw [firstPerKey, List.find?_cons, List.find?_cons]
    by_cases hkey : key a = k
    · simp [hkey]
    · -- what is dropped has the key of the first, which is not the one that is looked for
      have hother : ∀ b, (key b ≠ key a ∧ key b = k) ↔ key b = k := by
        refine fun b => and_iff_right_of_imp ?_
        rintro rfl
        exact Ne.symm hkey
      simp only [hkey, decide_false, List.find?_filter, decide_eq_true_eq, hother, ih]

/-- No key is kept twice. -/
theorem nodup_firstPerKey (as : List α) : ((firstPerKey key as).map key).Nodup := by
  induction as with
  | nil => exact .nil
  | cons a as ih =>
    rw [firstPerKey, List.map_cons, List.nodup_cons]
    exact ⟨by simp, ih.sublist (List.filter_sublist.map key)⟩

/-- Every key is kept. -/
theorem mem_map_firstPerKey {as : List α} {k : String} :
    k ∈ (firstPerKey key as).map key ↔ k ∈ as.map key := by
  have hfound : ∀ bs : List α, k ∈ bs.map key ↔ (bs.find? (key · = k)).isSome := fun bs => by
    simp [List.find?_isSome]
  rw [hfound, hfound, find?_firstPerKey]

end FirstPerKey

/-! ### Types -/

/-- A declaration is prepared if its type has an id. -/
theorem DeclaredType.of_eq_ok {d : Declaration} {t : DeclaredType} :
    DeclaredType.of d = .ok t ↔ ∃ id, d.descriptor.encode = .ok id ∧ t = ⟨id, d.text, d⟩ :=
  bind_pure_eq_ok

/-- The kept types are found if all declared types have ids. -/
theorem keptTypes_eq_ok {ds : List Declaration} {types : List DeclaredType} :
    keptTypes ds = .ok types ↔ ∃ all, ds.mapM DeclaredType.of = .ok all ∧
      types = firstPerKey (·.id) (all.mergeSort DeclaredType.precedes) :=
  bind_pure_eq_ok

/-- A kept type comes from a declaration and has its id. -/
theorem exists_of_mem_keptTypes {ds : List Declaration} {types : List DeclaredType}
    (h : keptTypes ds = .ok types) {t : DeclaredType} (ht : t ∈ types) :
    t.declaration ∈ ds ∧ t.declaration.descriptor.encode = .ok t.id := by
  obtain ⟨all, hall, rfl⟩ := keptTypes_eq_ok.mp h
  have hmem : t ∈ all := List.mem_mergeSort.mp (mem_of_mem_firstPerKey ht)
  obtain ⟨d, hd, hof⟩ := exists_of_mem_mapM hall hmem
  obtain ⟨id, hid, rfl⟩ := DeclaredType.of_eq_ok.mp hof
  exact ⟨hd, hid⟩

/-- The entries of the kept types. -/
theorem mem_typeEntries {types : List DeclaredType} {links : List Links}
    (h : types.mapM DeclaredType.links = .ok links) {e : Entry} :
    e ∈ types.zipWith DeclaredType.entry links ↔
      ∃ t ∈ types, ∃ l, t.links = .ok l ∧ e = t.entry l := by
  rw [mapM_eq_ok] at h
  induction h with
  | nil => simp
  | cons hhead _ ih => simp [ih, hhead]

/-! ### Members -/

namespace RankedMember

/-- A member is ranked if it has an id and the type that declares it has one. -/
theorem of_eq_ok {owner : String} {ancestors : List String} {d : Descriptor} {m : RankedMember} :
    of owner ancestors d = .ok m ↔ ∃ localId declaring, d.encode = .ok localId ∧
      d.enclosing.elim (.ok owner) Descriptor.encode = .ok declaring ∧
      m = ⟨owner, localId, declaring,
        if declaring = owner then 0 else ancestors.idxOf declaring + 1, d⟩ := by
  -- a member without an enclosing type is declared where it is listed
  cases henclosing : d.enclosing with
  | none =>
    simp only [of, henclosing, pure_bind, bind_pure_eq_ok, Option.elim_none, Except.ok.injEq]
    constructor
    · rintro ⟨localId, hlocal, rfl⟩
      exact ⟨localId, owner, hlocal, rfl, by simp⟩
    · rintro ⟨localId, declaring, hlocal, rfl, rfl⟩
      exact ⟨localId, hlocal, by simp⟩
  | some enclosing =>
    simp only [of, henclosing, bind_eq_ok (x := d.encode), bind_pure_eq_ok, Option.elim_some]
    constructor
    · rintro ⟨localId, hlocal, declaring, hdeclaring, rfl⟩
      exact ⟨localId, declaring, hlocal, hdeclaring, rfl⟩
    · rintro ⟨localId, declaring, hlocal, hdeclaring, rfl⟩
      exact ⟨localId, hlocal, declaring, hdeclaring, rfl⟩

/-- The members of a type are found if all of them can be ranked. -/
theorem ofType_eq_ok {hierarchy : Hierarchy} {t : DeclaredType} {members : List RankedMember} :
    ofType hierarchy t = .ok members ↔
      ∃ all, t.declaration.members.mapM (of t.id (hierarchy.ancestors t.id)) = .ok all ∧
        members = firstPerKey id (all.mergeSort precedes) :=
  bind_pure_eq_ok

/-- A member of a declared type is listed under the type and comes from its declaration.  It is
    ranked by how far up the ancestors of the type it is declared. -/
theorem exists_of_mem_ofType {hierarchy : Hierarchy} {t : DeclaredType}
    {members : List RankedMember} (h : ofType hierarchy t = .ok members) {m : RankedMember}
    (hm : m ∈ members) :
    m.owner = t.id ∧ m.descriptor ∈ t.declaration.members ∧
      m.descriptor.encode = .ok m.localId ∧
      m.descriptor.enclosing.elim (.ok t.id) Descriptor.encode = .ok m.declaring ∧
      m.rank = if m.declaring = t.id then 0
        else (hierarchy.ancestors t.id).idxOf m.declaring + 1 := by
  obtain ⟨all, hall, rfl⟩ := ofType_eq_ok.mp h
  have hmem : m ∈ all := List.mem_mergeSort.mp (mem_of_mem_firstPerKey hm)
  obtain ⟨d, hd, hof⟩ := exists_of_mem_mapM hall hmem
  obtain ⟨localId, declaring, hlocal, hdeclaring, rfl⟩ := of_eq_ok.mp hof
  exact ⟨rfl, hd, hlocal, hdeclaring, rfl⟩

/-- A member has an entry if it has bases. -/
theorem entry_eq_ok {hierarchy : Hierarchy} {known : List String} {m : RankedMember} {e : Entry} :
    m.entry hierarchy known = .ok e ↔ ∃ bases, m.bases hierarchy known = .ok bases ∧
      e = ⟨m.id, m.descriptor, some m.owner, some m.declaring, bases⟩ :=
  bind_pure_eq_ok

/-- What the entry of a member comes from: a member of one of the declared types. -/
theorem exists_of_mem_entries {hierarchy : Hierarchy} {known : List String}
    {types : List DeclaredType} {members : List (List RankedMember)} {memberEntries : List Entry}
    (hmembers : types.mapM (ofType hierarchy) = .ok members)
    (hentries : members.flatten.mapM (entry hierarchy known) = .ok memberEntries) {e : Entry}
    (he : e ∈ memberEntries) :
    ∃ t ∈ types, ∃ (m : RankedMember) (bases : List String), m.owner = t.id ∧
      m.descriptor ∈ t.declaration.members ∧ m.descriptor.encode = .ok m.localId ∧
      m.bases hierarchy known = .ok bases ∧
      e = ⟨m.id, m.descriptor, some m.owner, some m.declaring, bases⟩ := by
  -- back through the steps: entry, ranked member, declared type
  obtain ⟨m, hm, hentry⟩ := exists_of_mem_mapM hentries he
  obtain ⟨bases, hbases, rfl⟩ := entry_eq_ok.mp hentry
  obtain ⟨listed, hlisted, hm⟩ := List.mem_flatten.mp hm
  obtain ⟨t, ht, hofType⟩ := exists_of_mem_mapM hmembers hlisted
  obtain ⟨howner, hmember, hlocal, -⟩ := exists_of_mem_ofType hofType hm
  exact ⟨t, ht, m, bases, howner, hmember, hlocal, hbases, rfl⟩

end RankedMember

/-! ### The catalog -/

namespace Catalog

variable {ds : List Declaration} {c : Catalog}

/-- The steps of a build that succeeds. -/
theorem build_eq_ok : build ds = .ok c ↔ ∃ types links members memberEntries,
    keptTypes ds = .ok types ∧ types.mapM DeclaredType.links = .ok links ∧
    types.mapM (RankedMember.ofType ((types.map (·.id)).zip links)) = .ok members ∧
    members.flatten.mapM (RankedMember.entry ((types.map (·.id)).zip links)
      (types.map (·.id) ++ members.flatten.map (·.id))) = .ok memberEntries ∧
    c = ⟨firstPerKey (·.id) (types.zipWith DeclaredType.entry links ++ memberEntries),
      (types.map (·.id)).zip links, listMembers (types.map (·.id)) members.flatten⟩ := by
  simp only [build, bind_eq_ok, pure, Except.pure, Except.ok.injEq]
  constructor
  · rintro ⟨types, htypes, links, hlinks, members, hmembers, memberEntries, hentries, rfl⟩
    exact ⟨types, links, members, memberEntries, htypes, hlinks, hmembers, hentries, rfl⟩
  · rintro ⟨types, links, members, memberEntries, htypes, hlinks, hmembers, hentries, rfl⟩
    exact ⟨types, htypes, links, hlinks, members, hmembers, memberEntries, hentries, rfl⟩

/-- What is built depends on the kept types only. -/
theorem build_eq_of_keptTypes {ds' : List Declaration} (h : keptTypes ds = keptTypes ds') :
    build ds = build ds' := by
  simp only [build, h]

/-- The entry under an id has that id. -/
theorem id_of_lookup {id : String} {e : Entry} (h : c.lookup id = some e) : e.id = id := by
  simpa using List.find?_some h

theorem mem_of_lookup {id : String} {e : Entry} (h : c.lookup id = some e) : e ∈ c.entries :=
  List.mem_of_find?_eq_some h

/-- The ids of a catalog are those of its entries. -/
theorem mem_ids_iff {id : String} : id ∈ c.ids ↔ ∃ e, c.lookup id = some e := by
  rw [ids, List.mem_mergeSort, List.mem_map, ← Option.isSome_iff_exists, lookup, List.find?_isSome]
  simp

/-- An entry is found under its id. -/
theorem lookup_of_mem (h : build ds = .ok c) {e : Entry} (he : e ∈ c.entries) :
    c.lookup e.id = some e := by
  obtain ⟨types, links, members, memberEntries, -, -, -, -, rfl⟩ := build_eq_ok.mp h
  rw [lookup, find?_firstPerKey]
  exact mem_firstPerKey.mp he

/-- Every kept type has an entry, for types come before members. -/
theorem exists_typeEntry {types : List DeclaredType} {links : List Links}
    (hlinks : types.mapM DeclaredType.links = .ok links) {t : DeclaredType} (ht : t ∈ types)
    (memberEntries : List Entry) :
    ∃ e ∈ firstPerKey (·.id) (types.zipWith DeclaredType.entry links ++ memberEntries),
      e.id = t.id ∧ e.owner = none := by
  obtain ⟨l, -, hl⟩ := exists_result_of_mem_mapM hlinks ht
  have hmem : t.entry l ∈ types.zipWith DeclaredType.entry links :=
    (mem_typeEntries hlinks).mpr ⟨t, ht, l, hl, rfl⟩
  -- the first entry with the id of the type is one of a type
  obtain ⟨e, he⟩ := Option.isSome_iff_exists.mp
    (List.find?_isSome (p := fun e => e.id = t.id) |>.mpr ⟨_, hmem, by simp [DeclaredType.entry]⟩)
  have hid : e.id = t.id := by simpa using List.find?_some he
  obtain ⟨t', -, l', -, rfl⟩ := (mem_typeEntries hlinks).mp (List.mem_of_find?_eq_some he)
  refine ⟨t'.entry l', mem_firstPerKey.mpr ?_, hid, rfl⟩
  rw [hid, List.find?_append, he, Option.some_or]

/-- What an entry comes from: the declaration of a type, or a member of one.  In the latter case it
    is listed under the id of the type, where a type is found. -/
theorem entry_cases (h : build ds = .ok c) {e : Entry} (he : e ∈ c.entries) :
    (∃ d ∈ ds, e.owner = none ∧ e.descriptor = d.descriptor ∧ d.descriptor.encode = .ok e.id) ∨
    ∃ d ∈ ds, ∃ owner localId t, d.descriptor.encode = .ok owner ∧ e.descriptor ∈ d.members ∧
      e.descriptor.encode = .ok localId ∧ e.id = owner ++ "." ++ localId ∧ e.owner = some owner ∧
      t ∈ c.entries ∧ t.id = owner ∧ t.owner = none := by
  obtain ⟨types, links, members, memberEntries, htypes, hlinks, hmembers, hentries, rfl⟩ :=
    build_eq_ok.mp h
  rcases List.mem_append.mp (mem_of_mem_firstPerKey he) with he | he
  · -- types come first, each with an id of its own
    obtain ⟨t, ht, l, -, rfl⟩ := (mem_typeEntries hlinks).mp he
    obtain ⟨hd, hid⟩ := exists_of_mem_keptTypes htypes ht
    exact .inl ⟨t.declaration, hd, rfl, rfl, hid⟩
  · -- a member comes from a declaration that was kept, and so has its type
    obtain ⟨t, ht, m, bases, howner, hmember, hlocal, -, rfl⟩ :=
      RankedMember.exists_of_mem_entries hmembers hentries he
    obtain ⟨hd, hid⟩ := exists_of_mem_keptTypes htypes ht
    obtain ⟨te, hte, hteId, hteOwner⟩ := exists_typeEntry hlinks ht memberEntries
    exact .inr ⟨t.declaration, hd, t.id, m.localId, te, hid, hmember, hlocal,
      by rw [RankedMember.id, howner], by rw [howner], hte, hteId, hteOwner⟩

end Catalog

/-! ### A catalog of one declaration -/

/-- A method with an array parameter. -/
def sampleMethod : Descriptor :=
  ((Descriptor.method "Add").withParameter (.named "System" "Int32[]") false).inType
    (.classDecl "Shop" "Base")

/-- A type that inherits a method from a type outside of the catalog. -/
def sampleCart : Declaration where
  descriptor := .classDecl "Shop" "Cart"
  members := [sampleMethod]

/-- The entry of the inherited method. -/
def sampleEntry : Entry where
  id := "Shop.Cart.Add(System.Int32[])"
  descriptor := sampleMethod
  owner := some "Shop.Cart"
  declaring := some "Shop.Base"

theorem of_sampleCart :
    DeclaredType.of sampleCart = .ok ⟨"Shop.Cart", sampleCart.text, sampleCart⟩ :=
  DeclaredType.of_eq_ok.mpr ⟨_, by decide +kernel, rfl⟩

/-- A single declaration is kept. -/
theorem keptTypes_sampleCart :
    keptTypes [sampleCart] = .ok [⟨"Shop.Cart", sampleCart.text, sampleCart⟩] :=
  keptTypes_eq_ok.mpr ⟨_, mapM_eq_ok.mpr (.cons of_sampleCart .nil), by simp [firstPerKey]⟩

/-- The catalog of the sample declaration has its type and the method that it inherits. -/
theorem build_sampleCart : Catalog.build [sampleCart]
    = .ok ⟨[⟨"Shop.Cart", .classDecl "Shop" "Cart", none, none, []⟩, sampleEntry],
        [("Shop.Cart", {})], [("Shop.Cart", "Shop.Cart.Add(System.Int32[])")]⟩ := by
  have hancestors : Hierarchy.ancestors [("Shop.Cart", {})] "Shop.Cart" = [] := by
    simp [Hierarchy.ancestors, Hierarchy.baseChain, Hierarchy.follow, Hierarchy.walk]
  refine Catalog.build_eq_ok.mpr ⟨[⟨"Shop.Cart", sampleCart.text, sampleCart⟩], [{}],
    [[⟨"Shop.Cart", "Add(System.Int32[])", "Shop.Base", 1, sampleMethod⟩]], [sampleEntry],
    keptTypes_sampleCart, rfl, ?_, ?_, ?_⟩
  · refine mapM_eq_ok.mpr (.cons (RankedMember.ofType_eq_ok.mpr ⟨_, mapM_eq_ok.mpr (.cons
      (RankedMember.of_eq_ok.mpr ⟨"Add(System.Int32[])", "Shop.Base", ?_, ?_, rfl⟩) .nil), ?_⟩)
      .nil)
    · decide +kernel
    · decide +kernel
    · simp [hancestors, firstPerKey]
  · refine mapM_eq_ok.mpr (.cons (RankedMember.entry_eq_ok.mpr ⟨[], ?_, ?_⟩) .nil)
    · simp only [RankedMember.bases, List.map_cons, List.map_nil, List.zip_cons_cons,
        List.zip_nil_right, hancestors]
      rfl
    · simp [sampleEntry, RankedMember.id]
  · simp [firstPerKey, listMembers, RankedMember.id, DeclaredType.entry, sampleEntry, sampleCart,
      Links.parents]

end InheritDoc
