import InheritDoc.Proofs.Catalog.Bases
import InheritDoc.Proofs.Catalog.Linearization
import InheritDoc.Proofs.Catalog.Members

namespace InheritDoc

/-!
# What a member overrides

The bases of each member are looked up on the ancestors of its own type, and each type has an order
of ancestors of its own.  Yet the bases of different members fit together: whatever an overridden
member overrides is overridden, too, also where types inherit from each other in a circle.

* `Catalog.bases_of_owner` : the bases of a member begin with the same member on the ancestors;
* `Catalog.mem_bases_of_ancestor` : any ancestor that has the member gives a base;
* `Catalog.filter_bases`   : such bases stand in the order of the ancestors;
* `overrides_closed`       : **overriding is closed under ancestry.**
-/

/-! ### Members of one name -/

/-- The member of one name on different types has different ids. -/
theorem memberId_inj {type type' localId : String}
    (h : type ++ "." ++ localId = type' ++ "." ++ localId) : type = type' := by
  simpa [String.toList_inj] using congrArg String.toList h

/-- A type is no ancestor of its own, so no ancestor has the member itself. -/
theorem RankedMember.inherited_eq (hierarchy : Hierarchy) (known : List String) (m : RankedMember) :
    m.inherited hierarchy known
      = ((hierarchy.ancestors m.owner).map (· ++ "." ++ m.localId)).filter (· ∈ known) := by
  refine List.filter_congr fun base hbase => ?_
  obtain ⟨ancestor, hancestor, rfl⟩ := List.mem_map.mp hbase
  have hne : ancestor ++ "." ++ m.localId ≠ m.id := by
    intro hself
    rw [memberId_inj hself] at hancestor
    exact hierarchy.notMem_ancestors_self m.owner hancestor
  simp [hne]

namespace Catalog

variable {ds : List Declaration} {c : Catalog}

/-- The member on each of some types, as far as there is one. -/
def onTypes (c : Catalog) (types : List String) (localId : String) : List String :=
  (types.map (· ++ "." ++ localId)).filter (· ∈ c.ids)

/-- The elements of a given local id on the types. -/
theorem mem_onTypes {types : List String} {localId id : String} :
    id ∈ c.onTypes types localId ↔ (∃ type ∈ types, type ++ "." ++ localId = id) ∧ id ∈ c.ids := by
  rw [onTypes, List.mem_filter, List.mem_map, decide_eq_true_eq]

section Owner

variable (hc : build ds = .ok c) {e : Entry} {type localId : String}
  (he : c.lookup (type ++ "." ++ localId) = some e) (howner : e.owner = some type)

include hc he howner

/-- The bases of a member: the same member on the ancestors of its owner, then others. -/
theorem bases_of_owner : ∃ others, c.basesOf (type ++ "." ++ localId)
      = c.onTypes (c.ancestorsOf type) localId ++ others ∧
    ∀ base ∈ others, base ∈ c.ids ∧ base ∉ c.onTypes (c.ancestorsOf type) localId := by
  obtain ⟨t, members, m, -, -, -, -, hmowner, hentry⟩ :=
    exists_member_of_owner hc (mem_of_lookup he) howner
  obtain ⟨bases, hbases, rfl⟩ := RankedMember.entry_eq_ok.mp hentry
  -- the entry has the id of the member, so the member is called as its id says
  have hlocal : m.localId = localId := RankedMember.localId_of_id hmowner (id_of_lookup he)
  have hinherited : m.inherited c.hierarchy c.ids = c.onTypes (c.ancestorsOf type) localId := by
    rw [RankedMember.inherited_eq, hmowner, hlocal]
    rfl
  obtain ⟨targets, htargets, rfl⟩ := RankedMember.bases_eq_ok.mp hbases
  rw [hinherited] at he
  refine ⟨targets.filter (· ∉ c.onTypes (c.ancestorsOf type) localId), ?_, fun base hbase => ?_⟩
  · rw [basesOf, he, Option.map_some, Option.getD_some]
  · rw [List.mem_filter, decide_eq_true_eq] at hbase
    refine ⟨?_, hbase.2⟩
    obtain ⟨-, rfl⟩ | ⟨interface, interfaceId, memberId, -, -, -, rfl⟩ :=
      RankedMember.implemented_eq_ok.mp htargets
    · exact absurd hbase.1 List.not_mem_nil
    · exact of_decide_eq_true (List.mem_filter.mp hbase.1).2

/-- The same member on an ancestor is a base if there is one. -/
theorem mem_bases_of_ancestor {ancestor : String} (hancestor : ancestor ∈ c.ancestorsOf type)
    (hknown : ancestor ++ "." ++ localId ∈ c.ids) :
    ancestor ++ "." ++ localId ∈ c.basesOf (type ++ "." ++ localId) := by
  obtain ⟨others, hbases, -⟩ := bases_of_owner hc he howner
  rw [hbases, List.mem_append]
  exact .inl (mem_onTypes.mpr ⟨⟨ancestor, hancestor, rfl⟩, hknown⟩)

/-- Bases that are found on ancestors stand in the order of the ancestors. -/
theorem filter_bases :
    (c.basesOf (type ++ "." ++ localId)).filter
        (· ∈ (c.ancestorsOf type).map (· ++ "." ++ localId))
      = c.onTypes (c.ancestorsOf type) localId := by
  obtain ⟨others, hbases, hothers⟩ := bases_of_owner hc he howner
  rw [hbases, List.filter_append]
  have hfound : (c.onTypes (c.ancestorsOf type) localId).filter
      (· ∈ (c.ancestorsOf type).map (· ++ "." ++ localId))
        = c.onTypes (c.ancestorsOf type) localId := by
    apply List.filter_eq_self.mpr
    intro base hbase
    exact decide_eq_true (List.mem_of_mem_filter hbase)
  have hrest : others.filter (· ∈ (c.ancestorsOf type).map (· ++ "." ++ localId)) = [] := by
    apply List.filter_eq_nil_iff.mpr
    intro base hbase hmem
    -- a base on an ancestor that is known has been listed before
    obtain ⟨hknown, hunlisted⟩ := hothers base hbase
    exact hunlisted (mem_onTypes.mpr ⟨List.mem_map.mp (of_decide_eq_true hmem), hknown⟩)
  rw [hfound, hrest, List.append_nil]

end Owner

end Catalog

/-- **Overriding is closed under ancestry.**  Let a type own a member, and let an ancestor of the type
    have one of the same name.  Then the member of the type overrides that of the ancestor, and
    whatever the ancestors of the ancestor have under the name, itself excepted.  The members that it
    overrides on ancestors stand in the order of the ancestors. -/
theorem overrides_closed {ds : List Declaration} {c : Catalog} (hc : Catalog.build ds = .ok c)
    {type ancestor localId : String} {e : Entry}
    (he : c.lookup (type ++ "." ++ localId) = some e) (howner : e.owner = some type)
    (hancestor : ancestor ∈ c.ancestorsOf type) (hknown : ancestor ++ "." ++ localId ∈ c.ids) :
    ancestor ++ "." ++ localId ∈ c.basesOf (type ++ "." ++ localId) ∧
    (∀ further ∈ c.ancestorsOf ancestor, further ++ "." ++ localId ∈ c.ids →
      further ++ "." ++ localId ∈ c.basesOf (type ++ "." ++ localId) ∨
        further ++ "." ++ localId = type ++ "." ++ localId) ∧
    (c.basesOf (type ++ "." ++ localId)).filter
        (· ∈ (c.ancestorsOf type).map (· ++ "." ++ localId))
      = c.onTypes (c.ancestorsOf type) localId := by
  refine ⟨Catalog.mem_bases_of_ancestor hc he howner hancestor hknown, ?_,
    Catalog.filter_bases hc he howner⟩
  intro further hfurther hfound
  -- an ancestor of the ancestor is an ancestor, unless it is the type again
  rcases List.mem_cons.mp (c.hierarchy.mem_ancestors_trans hancestor hfurther) with rfl | hmem
  · exact .inr rfl
  · exact .inl (Catalog.mem_bases_of_ancestor hc he howner hmem hfound)

/-! ### Types in a circle -/

/-- A type with a base type and with a property of its own. -/
def sampleHeir (name base : String) : Declaration where
  descriptor := .classDecl "Shop" name
  base := some (.named "Shop" base)
  members := [sampleTotal .property name]

/-- Three types that inherit from each other in a circle. -/
def sampleCircle : List Declaration :=
  [sampleHeir "Base" "Cart", sampleHeir "Cart" "List", sampleHeir "List" "Base"]

/-- The links of the three types. -/
def sampleCircleLinks : Hierarchy :=
  [("Shop.Base", ⟨some "Shop.Cart", []⟩), ("Shop.Cart", ⟨some "Shop.List", []⟩),
    ("Shop.List", ⟨some "Shop.Base", []⟩)]

/-- On a circle of base types each type has the two others as ancestors. -/
theorem ancestors_sampleCircle :
    sampleCircleLinks.ancestors "Shop.Base" = ["Shop.Cart", "Shop.List"] ∧
    sampleCircleLinks.ancestors "Shop.Cart" = ["Shop.List", "Shop.Base"] ∧
    sampleCircleLinks.ancestors "Shop.List" = ["Shop.Base", "Shop.Cart"] := by
  simp [Hierarchy.ancestors, Hierarchy.baseChain, Hierarchy.follow, Hierarchy.walk,
    sampleCircleLinks, List.lookup_cons]

/-- A type of the circle under its id. -/
def sampleHeirType (id name base : String) : DeclaredType :=
  ⟨id, (sampleHeir name base).text, sampleHeir name base⟩

/-- The property of a type of the circle. -/
def sampleHeirMember (id name : String) : RankedMember :=
  ⟨id, "Total", id, 0, sampleTotal .property name⟩

/-- The id of a sample type. -/
theorem of_sampleHeir {id name base : String}
    (hid : (Descriptor.classDecl "Shop" name).encode = .ok id) :
    DeclaredType.of (sampleHeir name base) = .ok (sampleHeirType id name base) :=
  DeclaredType.of_eq_ok.mpr ⟨id, hid, rfl⟩

/-- A sample type has its one member. -/
theorem ofType_sampleHeir (hierarchy : Hierarchy) {id name base : String}
    (hid : (Descriptor.classDecl "Shop" name).encode = .ok id) :
    RankedMember.ofType hierarchy (sampleHeirType id name base)
      = .ok [sampleHeirMember id name] := by
  have hlocal : (sampleTotal .property name).encode = .ok "Total" := rfl
  refine RankedMember.ofType_eq_ok.mpr ⟨_, mapM_eq_ok.mpr
    (.cons (RankedMember.of_eq_ok.mpr ⟨"Total", id, hlocal, hid, rfl⟩) .nil), ?_⟩
  simp [firstPerKey, sampleHeirMember, sampleHeirType]

/-- The bases of the property of a type of the circle are on its ancestors. -/
theorem entry_sampleHeir (hierarchy : Hierarchy) (known : List String) (id name : String) :
    (sampleHeirMember id name).entry hierarchy known
      = .ok ⟨id ++ "." ++ "Total", sampleTotal .property name, some id, some id,
          ((hierarchy.ancestors id).map (· ++ "." ++ "Total")).filter (· ∈ known)⟩ := by
  refine RankedMember.entry_eq_ok.mpr ⟨_, RankedMember.bases_eq_ok.mpr ⟨[], rfl, rfl⟩, ?_⟩
  rw [RankedMember.inherited_eq, List.filter_nil, List.append_nil]
  rfl

/-- Declarations are sorted by the ids of their types first. -/
theorem DeclaredType.precedes_of_id_lt {t t' : DeclaredType} (h : t.id < t'.id) :
    t.precedes t' = true :=
  (precedes_iff t t').mpr (Prod.Lex.toLex_le_toLex.mpr (.inl h))

/-- The catalog of the circle. -/
def sampleCircleCatalog : Catalog where
  entries :=
    [⟨"Shop.Base", .classDecl "Shop" "Base", none, none, ["Shop.Cart"]⟩,
      ⟨"Shop.Cart", .classDecl "Shop" "Cart", none, none, ["Shop.List"]⟩,
      ⟨"Shop.List", .classDecl "Shop" "List", none, none, ["Shop.Base"]⟩,
      ⟨"Shop.Base.Total", sampleTotal .property "Base", some "Shop.Base", some "Shop.Base",
        ["Shop.Cart.Total", "Shop.List.Total"]⟩,
      ⟨"Shop.Cart.Total", sampleTotal .property "Cart", some "Shop.Cart", some "Shop.Cart",
        ["Shop.List.Total", "Shop.Base.Total"]⟩,
      ⟨"Shop.List.Total", sampleTotal .property "List", some "Shop.List", some "Shop.List",
        ["Shop.Base.Total", "Shop.Cart.Total"]⟩]
  hierarchy := sampleCircleLinks
  listing := [("Shop.Base", "Shop.Base.Total"), ("Shop.Cart", "Shop.Cart.Total"),
    ("Shop.List", "Shop.List.Total")]

/-- The catalog of the circle. -/
theorem build_sampleCircle : Catalog.build sampleCircle = .ok sampleCircleCatalog := by
  have hlist : (Descriptor.classDecl "Shop" "List").encode = .ok "Shop.List" := by decide +kernel
  obtain ⟨hbase, hcart, hlast⟩ := ancestors_sampleCircle
  refine Catalog.build_eq_ok.mpr ⟨[sampleHeirType "Shop.Base" "Base" "Cart",
      sampleHeirType "Shop.Cart" "Cart" "List", sampleHeirType "Shop.List" "List" "Base"],
    [⟨some "Shop.Cart", []⟩, ⟨some "Shop.List", []⟩, ⟨some "Shop.Base", []⟩],
    [[sampleHeirMember "Shop.Base" "Base"], [sampleHeirMember "Shop.Cart" "Cart"],
      [sampleHeirMember "Shop.List" "List"]], _, ?_, ?_, ?_,
    mapM_eq_ok.mpr (.cons (entry_sampleHeir _ _ _ _) (.cons (entry_sampleHeir _ _ _ _)
      (.cons (entry_sampleHeir _ _ _ _) .nil))), ?_⟩
  · refine keptTypes_eq_ok.mpr ⟨_, mapM_eq_ok.mpr (.cons (of_sampleHeir encode_sampleBase)
      (.cons (of_sampleHeir encode_sampleCart) (.cons (of_sampleHeir hlist) .nil))), ?_⟩
    rw [List.mergeSort_of_pairwise ?_]
    · simp [firstPerKey, sampleHeirType]
    · -- the declarations are given in the order of their ids
      have hbaseCart : "Shop.Base" < "Shop.Cart" := by decide
      have hcartList : "Shop.Cart" < "Shop.List" := by decide
      simp only [List.pairwise_cons, List.forall_mem_cons, List.Pairwise.nil, List.not_mem_nil,
        false_imp_iff, implies_true, and_true]
      exact ⟨⟨DeclaredType.precedes_of_id_lt hbaseCart,
        DeclaredType.precedes_of_id_lt (hbaseCart.trans hcartList)⟩,
        DeclaredType.precedes_of_id_lt hcartList⟩
  · exact mapM_eq_ok.mpr (.cons rfl (.cons rfl (.cons rfl .nil)))
  · exact mapM_eq_ok.mpr (.cons (ofType_sampleHeir _ encode_sampleBase)
      (.cons (ofType_sampleHeir _ encode_sampleCart) (.cons (ofType_sampleHeir _ hlist) .nil)))
  · -- the entries, with the members of the ancestors as bases
    have hlinks : (List.map (·.id) [sampleHeirType "Shop.Base" "Base" "Cart",
        sampleHeirType "Shop.Cart" "Cart" "List", sampleHeirType "Shop.List" "List" "Base"]).zip
        [⟨some "Shop.Cart", []⟩, ⟨some "Shop.List", []⟩, ⟨some "Shop.Base", []⟩]
        = sampleCircleLinks := rfl
    rw [hlinks, hbase, hcart, hlast]
    simp [firstPerKey, listMembers, RankedMember.id, DeclaredType.entry, sampleHeirType,
      sampleHeirMember, sampleHeir, Links.parents, sampleCircleCatalog]

/-- In the circle a type overrides the property of the type before it, and the property that this one
    overrides, unless it is its own. -/
theorem overrides_closed_circle :
    (Catalog.build sampleCircle = .ok sampleCircleCatalog ∧
      (∃ e, sampleCircleCatalog.lookup "Shop.Base.Total" = some e ∧ e.owner = some "Shop.Base") ∧
      "Shop.Cart" ∈ sampleCircleCatalog.ancestorsOf "Shop.Base" ∧
      "Shop.Cart.Total" ∈ sampleCircleCatalog.ids ∧
      sampleCircleCatalog.ancestorsOf "Shop.Cart" = ["Shop.List", "Shop.Base"]) ∧
    "Shop.Cart.Total" ∈ sampleCircleCatalog.basesOf "Shop.Base.Total" ∧
    "Shop.List.Total" ∈ sampleCircleCatalog.basesOf "Shop.Base.Total" := by
  obtain ⟨hbase, hcart, -⟩ := ancestors_sampleCircle
  have hlookup : sampleCircleCatalog.lookup ("Shop.Base" ++ "." ++ "Total")
      = some ⟨"Shop.Base.Total", sampleTotal .property "Base", some "Shop.Base", some "Shop.Base",
          ["Shop.Cart.Total", "Shop.List.Total"]⟩ := by
    simp [Catalog.lookup, sampleCircleCatalog]
  have hancestor : "Shop.Cart" ∈ sampleCircleCatalog.ancestorsOf "Shop.Base" := by
    rw [Catalog.ancestorsOf, sampleCircleCatalog, hbase]
    exact List.mem_cons_self
  have hids : ∀ type ∈ ["Shop.Cart", "Shop.List"],
      type ++ "." ++ "Total" ∈ sampleCircleCatalog.ids := by
    simp [Catalog.ids, sampleCircleCatalog]
  obtain ⟨hoverridden, hfurther, -⟩ := overrides_closed build_sampleCircle hlookup rfl hancestor
    (hids _ List.mem_cons_self)
  refine ⟨⟨build_sampleCircle, ⟨_, hlookup, rfl⟩, hancestor, hids _ List.mem_cons_self, hcart⟩,
    hoverridden, ?_⟩
  have hlist : "Shop.List" ∈ sampleCircleCatalog.ancestorsOf "Shop.Cart" := by
    rw [Catalog.ancestorsOf, sampleCircleCatalog, hcart]
    exact List.mem_cons_self
  exact (hfurther _ hlist (hids _ (by simp))).resolve_right (by decide)

end InheritDoc
