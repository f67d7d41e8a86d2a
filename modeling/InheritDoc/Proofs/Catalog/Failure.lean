import InheritDoc.Proofs.Catalog.Bases
import InheritDoc.Proofs.Catalog.Precedence

namespace InheritDoc

/-!
# Which builds fail

A build goes over the declarations, the links of the types that are kept, the members of these, and
the members again for what they inherit from.  All declared types need ids, but of the links and
members only those of kept declarations are ever looked at, and what is known about a member that has
an id is enough to say what it inherits from.

* `Declaration.Precedes`, `Chosen` : the declaration of a type that is kept;
* `mem_keptTypes`        : what is kept of some declarations are the chosen ones;
* `Superseded`, `keptTypes_superseded` : a declaration that another one comes before is dropped;
* `Declaration.LinkFails`, `Declaration.MemberFails` : what makes a kept declaration fail;
* `RankedMember.not_fails_bases` : the bases of a member with an id can be told;
* `build_failure`        : **builds fail on bad input only, and not in their last pass.**
-/

/-! ### The declaration that is kept -/

/-- The first declaration has more members, or as many and no greater text. -/
def Declaration.Precedes (d d' : Declaration) : Prop :=
  d'.members.length < d.members.length ∨
    d.members.length = d'.members.length ∧ d.text ≤ d'.text

namespace Declaration.Precedes

variable {d d' d'' : Declaration}

/-- Precedence of declarations is transitive. -/
theorem trans (h : d.Precedes d') (h' : d'.Precedes d'') : d.Precedes d'' := by
  rcases h with hlt | ⟨heq, hle⟩
  · rcases h' with hlt' | ⟨heq', -⟩
    · exact .inl (by omega)
    · exact .inl (by omega)
  · rcases h' with hlt' | ⟨heq', hle'⟩
    · exact .inl (by omega)
    · exact .inr ⟨heq.trans heq', hle.trans hle'⟩

/-- Only equal declarations precede each other, for the text of a declaration determines it. -/
theorem antisymm (h : d.Precedes d') (h' : d'.Precedes d) : d = d' := by
  rcases h with hlt | ⟨heq, hle⟩
  · rcases h' with hlt' | ⟨heq', -⟩
    · omega
    · omega
  · rcases h' with hlt' | ⟨-, hle'⟩
    · omega
    · exact Declaration.text_injective (le_antisymm hle hle')

end Declaration.Precedes

/-- The declaration comes first among those of the type `id`. -/
structure Chosen (ds : List Declaration) (id : String) (d : Declaration) : Prop where
  mem : d ∈ ds
  encode : d.descriptor.encode = .ok id
  first : ∀ d' ∈ ds, d'.descriptor.encode = .ok id → d.Precedes d'

/-- One declaration is chosen for an id. -/
theorem Chosen.unique {ds : List Declaration} {id : String} {d d' : Declaration}
    (h : Chosen ds id d) (h' : Chosen ds id d') : d = d' :=
  (h.first d' h'.mem h'.encode).antisymm (h'.first d h.mem h.encode)

section KeptTypes

variable {ds ds' : List Declaration} {types types' : List DeclaredType}

/-- What is kept of a type is its declaration that comes first. -/
theorem chosen_of_mem_keptTypes (h : keptTypes ds = .ok types) {t : DeclaredType} (ht : t ∈ types) :
    Chosen ds t.id t.declaration := by
  obtain ⟨hmem, hencode⟩ := exists_of_mem_keptTypes h ht
  exact ⟨hmem, hencode, fun d hd hid => compare_of_mem_keptTypes h ht hd hid⟩

/-- The kept types are the chosen declarations, with their ids and texts. -/
theorem mem_keptTypes (h : keptTypes ds = .ok types) {t : DeclaredType} :
    t ∈ types ↔ ∃ id d, Chosen ds id d ∧ t = ⟨id, d.text, d⟩ := by
  have htext : ∀ u ∈ types, u = ⟨u.id, u.declaration.text, u.declaration⟩ := by
    intro u hu
    obtain ⟨all, hall, rfl⟩ := keptTypes_eq_ok.mp h
    obtain ⟨d, -, hof⟩ := exists_of_mem_mapM hall (List.mem_mergeSort.mp (mem_of_mem_firstPerKey hu))
    obtain ⟨id, -, rfl⟩ := DeclaredType.of_eq_ok.mp hof
    rfl
  constructor
  · intro ht
    exact ⟨t.id, t.declaration, chosen_of_mem_keptTypes h ht, htext t ht⟩
  · rintro ⟨id, d, hd, rfl⟩
    -- some declaration of the type is kept, and no other one is chosen
    obtain ⟨u, hu, rfl⟩ := List.mem_map.mp ((mem_ids_keptTypes h).mpr ⟨d, hd.mem, hd.encode⟩)
    obtain rfl := hd.unique (chosen_of_mem_keptTypes h hu)
    rwa [← htext u hu]

/-- The kept types are determined by which declarations are chosen. -/
theorem keptTypes_unique (h : keptTypes ds = .ok types) (h' : keptTypes ds' = .ok types')
    (hchosen : ∀ id d, Chosen ds id d ↔ Chosen ds' id d) : types = types' := by
  obtain ⟨hsorted, hnodup⟩ := sorted_ids_keptTypes h
  obtain ⟨hsorted', hnodup'⟩ := sorted_ids_keptTypes h'
  have hperm : types.Perm types' :=
    (List.perm_ext_iff_of_nodup hnodup.of_map hnodup'.of_map).mpr fun t => by
      simp only [mem_keptTypes h, mem_keptTypes h', hchosen]
  -- both lists are in increasing order of ids, and an id belongs to one type only
  refine List.Perm.eq_of_pairwise (fun a b ha hb hab hba => ?_) (List.pairwise_map.mp hsorted)
    (List.pairwise_map.mp hsorted') hperm
  exact List.inj_on_of_nodup_map hnodup ha (hperm.mem_iff.mpr hb) (le_antisymm hab hba)

end KeptTypes

/-! ### Dropped declarations -/

/-- Another one of the declarations is of the same type and comes before `d`. -/
def Superseded (ds : List Declaration) (d : Declaration) : Prop :=
  ∃ id, d.descriptor.encode = .ok id ∧ ∃ k ∈ ds, k.descriptor.encode = .ok id ∧ k.Precedes d

section Superseded

variable {before after : List Declaration} {d : Declaration}

/-- A declaration that another one comes before does not matter to what is chosen. -/
theorem chosen_superseded (h : Superseded (before ++ after) d) (id : String) (x : Declaration) :
    Chosen (before ++ d :: after) id x ↔ Chosen (before ++ after) id x := by
  obtain ⟨type, hd, k, hk, hktype, hkd⟩ := h
  have hmem : ∀ y, y ∈ before ++ d :: after ↔ y = d ∨ y ∈ before ++ after := by
    intro y
    rw [List.mem_append, List.mem_append, List.mem_cons]
    tauto
  constructor
  · intro hx
    refine ⟨?_, hx.encode, fun y hy hid => hx.first y ((hmem y).mpr (.inr hy)) hid⟩
    rcases (hmem x).mp hx.mem with rfl | hrest
    · -- if it is chosen all the same, then it equals the one that comes before it
      obtain rfl : type = id := Except.ok.inj (hd.symm.trans hx.encode)
      obtain rfl := hkd.antisymm (hx.first k ((hmem k).mpr (.inr hk)) hktype)
      exact hk
    · exact hrest
  · intro hx
    refine ⟨(hmem x).mpr (.inr hx.mem), hx.encode, fun y hy hid => ?_⟩
    rcases (hmem y).mp hy with rfl | hrest
    · obtain rfl : type = id := Except.ok.inj (hd.symm.trans hid)
      exact (hx.first k hk hktype).trans hkd
    · exact hx.first y hrest hid

/-- Nor does it matter to what is kept, nor to the error if some type has no id. -/
theorem keptTypes_superseded (h : Superseded (before ++ after) d) :
    keptTypes (before ++ d :: after) = keptTypes (before ++ after) := by
  obtain ⟨id, hid, -⟩ := id h
  have hof : DeclaredType.of d = .ok ⟨id, d.text, d⟩ := DeclaredType.of_eq_ok.mpr ⟨id, hid, rfl⟩
  -- the superseded declaration itself has an id, so an error comes from one of the others
  have hall : (before ++ d :: after).mapM DeclaredType.of = (do
      let bs ← before.mapM DeclaredType.of
      let as ← after.mapM DeclaredType.of
      return bs ++ ⟨id, d.text, d⟩ :: as) := by
    simp only [List.mapM_append, List.mapM_cons, hof, bind_assoc, pure_bind]
    rfl
  have hrest : (before ++ after).mapM DeclaredType.of = (do
      let bs ← before.mapM DeclaredType.of
      let as ← after.mapM DeclaredType.of
      return bs ++ as) := List.mapM_append
  cases hbefore : before.mapM DeclaredType.of with
  | error e => simp only [keptTypes, hall, hrest, hbefore]; rfl
  | ok bs =>
    cases hafter : after.mapM DeclaredType.of with
    | error e => simp only [keptTypes, hall, hrest, hbefore, hafter]; rfl
    | ok as =>
      rw [hbefore, hafter] at hall hrest
      have htypes := keptTypes_eq_ok.mpr ⟨_, hall, rfl⟩
      have htypes' := keptTypes_eq_ok.mpr ⟨_, hrest, rfl⟩
      rw [htypes, htypes', keptTypes_unique htypes htypes' (chosen_superseded h)]

end Superseded

/-! ### Links and members -/

/-- The base type or one of the interfaces has no declaration id. -/
def Declaration.LinkFails (d : Declaration) : Prop :=
  ∃ r, (d.base = some r ∨ r ∈ d.interfaces) ∧ Fails r.declarationId

/-- A member has no id, or the enclosing type that is given for it has none. -/
def Declaration.MemberFails (d : Declaration) : Prop :=
  ∃ m ∈ d.members, Fails m.encode ∨ ∃ o, m.enclosing = some o ∧ Fails o.encode

/-- The links of a declaration fail with one of its references. -/
theorem DeclaredType.fails_links (t : DeclaredType) : Fails t.links ↔ t.declaration.LinkFails := by
  have hinterfaces : Fails (t.declaration.interfaces.mapM TypeRef.declarationId) ↔
      ∃ r ∈ t.declaration.interfaces, Fails r.declarationId := fails_mapM
  unfold links Declaration.LinkFails
  rw [fails_bind]
  simp only [fails_bind_pure, hinterfaces]
  cases t.declaration.base with
  | none => simp [Fails, pure, Except.pure]
  | some r =>
    cases hr : r.declarationId with
    | error e => simp [Fails, hr]
    | ok id => simp [Fails, hr]

/-- An explicit implementation that has an id implements a member that has one.  The interface is part
    of the id, and so is everything that the id of the implemented member is made of. -/
theorem Descriptor.exists_implemented {d : Descriptor} {interface : TypeRef} {localId : String}
    (hkind : d.kind.isType = false) (hinterface : d.explicitInterface = some interface)
    (hlocal : d.encode = .ok localId) :
    ∃ interfaceId memberId, interface.declarationId = .ok interfaceId ∧
      { d with explicitInterface := none }.encode = .ok memberId := by
  have hencode : ∀ x : Descriptor, x.kind = d.kind → x.encode = x.encodeMember := by
    intro x hx
    rw [encode, if_neg (by simp [hx, hkind])]
  rw [hencode d rfl] at hlocal
  obtain ⟨hname, name, parameters, target, hencoded, hparameters, htarget, -⟩ :=
    encodeMember_eq_ok.mp hlocal
  obtain ⟨hnone, -⟩ | ⟨i, interfaceId, hi, hinterfaceId, -⟩ := encodeMemberName_eq_ok.mp hencoded
  · simp [hinterface] at hnone
  · obtain rfl : interface = i := Option.some.inj (hinterface.symm.trans hi)
    refine ⟨interfaceId, d.memberName ++ d.memberArity ++ parameters ++ target, hinterfaceId, ?_⟩
    rw [hencode { d with explicitInterface := none } rfl]
    -- without the interface the name is written as it is, and the rest stays the same
    exact encodeMember_eq_ok.mpr ⟨hname, d.memberName, parameters, target,
      encodeMemberName_eq_ok.mpr (.inl ⟨rfl, rfl⟩), hparameters, htarget, rfl⟩

namespace RankedMember

/-- Whether a member can be ranked does not depend on the ancestors of its type. -/
theorem fails_of {owner : String} {ancestors : List String} {d : Descriptor} :
    Fails (of owner ancestors d) ↔ Fails d.encode ∨ ∃ o, d.enclosing = some o ∧ Fails o.encode := by
  cases henclosing : d.enclosing with
  | none => simp only [of, henclosing, pure_bind, fails_bind_pure, reduceCtorEq, false_and,
      exists_false, or_false]
  | some o =>
    simp only [of, henclosing, Option.some.injEq, exists_eq_left']
    rw [fails_bind]
    simp only [fails_bind_pure]
    cases hd : d.encode with
    | error e => simp [Fails]
    | ok id => simp [Fails]

/-- The members of a type fail with one of them. -/
theorem fails_ofType {hierarchy : Hierarchy} {t : DeclaredType} :
    Fails (ofType hierarchy t) ↔ t.declaration.MemberFails := by
  rw [ofType, fails_bind_pure, fails_mapM]
  simp only [fails_of]
  rfl

/-- **What a member inherits from can be told if it has an id.** -/
theorem not_fails_bases {hierarchy : Hierarchy} {known : List String} {m : RankedMember}
    (hkind : m.descriptor.kind.isType = false) (hlocal : m.descriptor.encode = .ok m.localId) :
    ¬ Fails (m.bases hierarchy known) := by
  rw [not_fails]
  -- only the member that is implemented explicitly has to be encoded
  suffices himplemented : ∃ targets, m.implemented known = .ok targets by
    obtain ⟨targets, htargets⟩ := himplemented
    exact ⟨_, bases_eq_ok.mpr ⟨targets, htargets, rfl⟩⟩
  cases hinterface : m.descriptor.explicitInterface with
  | none => exact ⟨[], implemented_eq_ok.mpr (.inl ⟨hinterface, rfl⟩)⟩
  | some interface =>
    obtain ⟨interfaceId, memberId, hinterfaceId, hmemberId⟩ :=
      Descriptor.exists_implemented hkind hinterface hlocal
    exact ⟨_, implemented_eq_ok.mpr
      (.inr ⟨interface, interfaceId, memberId, hinterface, hinterfaceId, hmemberId, rfl⟩)⟩

end RankedMember

/-! ### Builds -/

/-- The passes in which a build can fail after the types have been chosen. -/
theorem Catalog.fails_build {ds : List Declaration} {types : List DeclaredType}
    (h : keptTypes ds = .ok types) :
    Fails (build ds) ↔ Fails (types.mapM DeclaredType.links) ∨
      ∃ links, types.mapM DeclaredType.links = .ok links ∧
        (Fails (types.mapM (RankedMember.ofType ((types.map (·.id)).zip links))) ∨
          ∃ members, types.mapM (RankedMember.ofType ((types.map (·.id)).zip links)) = .ok members ∧
            Fails (members.flatten.mapM (RankedMember.entry ((types.map (·.id)).zip links)
              (types.map (·.id) ++ members.flatten.map (·.id))))) := by
  have hkept : ¬ Fails (.ok types : Except EncodeError (List DeclaredType)) := not_fails_pure types
  simp only [build, fails_bind, not_fails_pure, and_false, exists_false, or_false, h, hkept, false_or,
    Except.ok.injEq, exists_eq_left']

section Build

variable {ds : List Declaration} (hkinds : ∀ d ∈ ds, ∀ m ∈ d.members, m.kind.isType = false)

include hkinds

/-- Once the members of all types are ranked, each of them has its bases. -/
theorem not_fails_bases_of_ranked {types : List DeclaredType}
    (htypes : ∀ t ∈ types, t.declaration ∈ ds) {hierarchy : Hierarchy}
    {members : List (List RankedMember)}
    (hmembers : types.mapM (RankedMember.ofType hierarchy) = .ok members) (known : List String)
    {m : RankedMember} (hm : m ∈ members.flatten) : ¬ Fails (m.bases hierarchy known) := by
  obtain ⟨listed, hlisted, hm⟩ := List.mem_flatten.mp hm
  obtain ⟨t, ht, hofType⟩ := exists_of_mem_mapM hmembers hlisted
  obtain ⟨-, hmember, hlocal, -⟩ := RankedMember.exists_of_mem_ofType hofType hm
  exact RankedMember.not_fails_bases (hkinds _ (htypes t ht) _ hmember) hlocal

/-- After the types have been chosen, a build fails at their links or at their members. -/
theorem fails_build_of_keptTypes {types : List DeclaredType} (h : keptTypes ds = .ok types) :
    Fails (Catalog.build ds) ↔
      ∃ t ∈ types, t.declaration.LinkFails ∨ t.declaration.MemberFails := by
  have hmem : ∀ t ∈ types, t.declaration ∈ ds := fun t ht => (exists_of_mem_keptTypes h ht).1
  have hlinks : Fails (types.mapM DeclaredType.links) ↔ ∃ t ∈ types, t.declaration.LinkFails := by
    simp only [fails_mapM, DeclaredType.fails_links]
  have hranks : ∀ hierarchy, Fails (types.mapM (RankedMember.ofType hierarchy)) ↔
      ∃ t ∈ types, t.declaration.MemberFails := by
    simp only [fails_mapM, RankedMember.fails_ofType, implies_true]
  rw [Catalog.fails_build h]
  constructor
  · rintro (hfails | ⟨links, -, hfails | ⟨members, hmembers, hfails⟩⟩)
    · obtain ⟨t, ht, hlink⟩ := hlinks.mp hfails
      exact ⟨t, ht, .inl hlink⟩
    · obtain ⟨t, ht, hmember⟩ := (hranks _).mp hfails
      exact ⟨t, ht, .inr hmember⟩
    · -- the last pass does not fail
      obtain ⟨m, hm, hentry⟩ := fails_mapM.mp hfails
      exact absurd (fails_bind_pure.mp hentry)
        (not_fails_bases_of_ranked hkinds hmem hmembers _ hm)
  · rintro ⟨t, ht, hlink | hmember⟩
    · exact .inl (hlinks.mpr ⟨t, ht, hlink⟩)
    · by_cases hfails : Fails (types.mapM DeclaredType.links)
      · exact .inl hfails
      · obtain ⟨links, hlinks⟩ := not_fails.mp hfails
        exact .inr ⟨links, hlinks, .inl ((hranks _).mpr ⟨t, ht, hmember⟩)⟩

end Build

/-- **Builds fail on bad input only.**  A build fails exactly if a declared type has no id, or a link or
    a member of a chosen declaration has none; a declaration that is dropped makes no difference at
    all, and once all members are ranked, nothing can fail any more. -/
theorem build_failure {ds : List Declaration}
    (hkinds : ∀ d ∈ ds, ∀ m ∈ d.members, m.kind.isType = false) :
    (Fails (Catalog.build ds) ↔ (∃ d ∈ ds, Fails d.descriptor.encode) ∨
      ∃ id d, Chosen ds id d ∧ (d.LinkFails ∨ d.MemberFails)) ∧
    (∀ before d after, ds = before ++ d :: after → Superseded (before ++ after) d →
      Catalog.build ds = Catalog.build (before ++ after)) ∧
    ∀ (types : List DeclaredType) hierarchy members, (∀ t ∈ types, t.declaration ∈ ds) →
      types.mapM (RankedMember.ofType hierarchy) = .ok members →
      ∀ known, ∀ m ∈ members.flatten, ¬ Fails (m.bases hierarchy known) := by
  have hfails : Fails (keptTypes ds) ↔ ∃ d ∈ ds, Fails d.descriptor.encode := by
    rw [keptTypes, fails_bind_pure, fails_mapM]
    simp only [DeclaredType.of, fails_bind_pure]
  refine ⟨?_, ?_, fun types hierarchy members htypes hmembers known m hm =>
    not_fails_bases_of_ranked hkinds htypes hmembers known hm⟩
  · -- an error before the declarations are chosen comes from one of their ids, one after from the
    -- chosen
    cases htypes : keptTypes ds with
    | error e =>
      have hbad := hfails.mp ⟨e, htypes⟩
      have hbuild : Fails (Catalog.build ds) := fails_bind.mpr (.inl ⟨e, htypes⟩)
      exact ⟨fun _ => .inl hbad, fun _ => hbuild⟩
    | ok types =>
      have hgood : ¬ ∃ d ∈ ds, Fails d.descriptor.encode := by
        rw [← hfails]
        exact not_fails.mpr ⟨types, htypes⟩
      rw [fails_build_of_keptTypes hkinds htypes, or_iff_right hgood]
      simp only [mem_keptTypes htypes]
      constructor
      · rintro ⟨_, ⟨id, d, hd, rfl⟩, hfault⟩
        exact ⟨id, d, hd, hfault⟩
      · rintro ⟨id, d, hd, hfault⟩
        exact ⟨_, ⟨id, d, hd, rfl⟩, hfault⟩
  · rintro before d after rfl hsuperseded
    exact Catalog.build_eq_of_keptTypes (keptTypes_superseded hsuperseded)

/-- A declaration with two members, of which the second implements a member of an interface. -/
def sampleWhole : Declaration where
  descriptor := .classDecl "Shop" "Cart"
  members := [sampleMethod, (Descriptor.method "Dispose").implementing (.named "System" "IDisposable")]

/-- A declaration of the same type with one member.  Neither the member nor the base type has a
    name. -/
def sampleBroken : Declaration where
  descriptor := .classDecl "Shop" "Cart"
  base := some {}
  members := [.field ""]

/-- By itself the broken declaration fails to build, but next to a larger one it does no harm. -/
theorem build_failure_duplicate :
    (∀ d ∈ [sampleBroken, sampleWhole], ∀ m ∈ d.members, m.kind.isType = false) ∧
    Fails (Catalog.build [sampleBroken]) ∧ ¬ Fails (Catalog.build [sampleBroken, sampleWhole]) := by
  have hkinds : ∀ d ∈ [sampleBroken, sampleWhole], ∀ m ∈ d.members, m.kind.isType = false := by
    decide
  have hmethod : sampleMethod.encode = .ok "Add(System.Int32[])" := by decide +kernel
  have hdispose : ((Descriptor.method "Dispose").implementing (.named "System" "IDisposable")).encode
      = .ok "System#IDisposable#Dispose" := by decide +kernel
  refine ⟨hkinds, ?_, ?_⟩
  · have hchosen : Chosen [sampleBroken] "Shop.Cart" sampleBroken :=
      ⟨List.mem_singleton_self _, encode_sampleCart,
        List.forall_mem_singleton.mpr fun _ => .inr ⟨rfl, le_rfl⟩⟩
    refine (build_failure fun d hd => hkinds d ?_).1.mpr
      (.inr ⟨"Shop.Cart", sampleBroken, hchosen, .inl ⟨{}, .inl rfl, _, rfl⟩⟩)
    simp [List.mem_singleton.mp hd]
  · rw [(build_failure hkinds).1]
    rintro (⟨d, hd, hfails⟩ | ⟨id, d, hd, hfault⟩)
    · have hencode : d.descriptor.encode = .ok "Shop.Cart" := by
        rcases List.mem_pair.mp hd with rfl | rfl
        · exact encode_sampleCart
        · exact encode_sampleCart
      exact not_fails.mpr ⟨_, hencode⟩ hfails
    · rcases List.mem_pair.mp hd.mem with rfl | rfl
      · -- the other declaration has more members
        have hfirst := hd.first sampleWhole (by simp) hd.encode
        simp [Declaration.Precedes, sampleBroken, sampleWhole] at hfirst
      · rcases hfault with ⟨r, hr | hr, -⟩ | ⟨m, hm, hfails⟩
        · cases hr
        · cases hr
        · rcases List.mem_pair.mp hm with rfl | rfl
          · rcases hfails with hfails | ⟨o, ho, hfails⟩
            · exact not_fails.mpr ⟨_, hmethod⟩ hfails
            · cases ho
              exact not_fails.mpr ⟨_, encode_sampleBase⟩ hfails
          · rcases hfails with hfails | ⟨o, ho, -⟩
            · exact not_fails.mpr ⟨_, hdispose⟩ hfails
            · cases ho

end InheritDoc
