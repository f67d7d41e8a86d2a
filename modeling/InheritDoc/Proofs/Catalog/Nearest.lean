import InheritDoc.Proofs.Catalog.Members
import Mathlib.Order.WithBot

namespace InheritDoc

/-!
# The nearest declaration of a member has the entry

Members of a type that have one id compete for it, wherever they are declared: on the type itself, on
an ancestor, or on a type that is not known to be one.  None of their ids is lost, and the entry goes
to the member that is declared nearest.

* `declaringRank`     : how far from a type a member is declared, which may be infinitely far;
* `RankedMember.toLex_declaringRank_le` : the ranks that members are sorted by compare in the same
  way;
* `Catalog.Nearest`   : an entry is that of the nearest member with its id;
* `Catalog.nearest_of_mem` : every entry is, that a type has for one of its members;
* `precedence_of_build` : **of each type the largest declaration is kept, and of each member id the
  member that is declared nearest.**
-/

/-! ### Ranks -/

/-- How far from the type `owner` a member is declared: not at all on the type itself, else as far as
    the declaring type stands in the list of ancestors, and infinitely far on any other type. -/
def declaringRank (ancestors : List String) (owner declaring : String) : WithTop ℕ :=
  if declaring = owner then WithTop.some 0
  else if declaring ∈ ancestors then WithTop.some (ancestors.idxOf declaring + 1)
  else ⊤

/-- Only what is declared on the type itself is declared at no distance. -/
theorem eq_owner_of_declaringRank {ancestors : List String} {owner declaring : String}
    (h : declaringRank ancestors owner declaring ≤ WithTop.some 0) : declaring = owner := by
  unfold declaringRank at h
  by_cases howner : declaring = owner
  · exact howner
  · rw [if_neg howner] at h
    split at h
    · have hle := WithTop.coe_le_coe.mp h
      omega
    · exact absurd h (by simp)

namespace RankedMember

/-- The rank that a member is sorted by, when it is declared on the given type. -/
def rankOn (ancestors : List String) (owner declaring : String) : ℕ :=
  if declaring = owner then 0 else ancestors.idxOf declaring + 1

/-- Ranks end after the last ancestor. -/
theorem rankOn_le (ancestors : List String) (owner declaring : String) :
    rankOn ancestors owner declaring ≤ ancestors.length + 1 := by
  have hidx : ancestors.idxOf declaring ≤ ancestors.length := List.idxOf_le_length
  unfold rankOn
  split <;> omega

/-- Members are sorted by distance, with the rank after the last ancestor for an infinite one. -/
theorem declaringRank_eq (ancestors : List String) (owner declaring : String) :
    declaringRank ancestors owner declaring
      = if rankOn ancestors owner declaring ≤ ancestors.length
        then WithTop.some (rankOn ancestors owner declaring) else ⊤ := by
  have hmem : declaring ∈ ancestors ↔ ancestors.idxOf declaring + 1 ≤ ancestors.length :=
    List.idxOf_lt_length_iff.symm
  unfold declaringRank rankOn
  by_cases howner : declaring = owner
  · rw [if_pos howner, if_pos howner, if_pos (Nat.zero_le _)]
  · rw [if_neg howner, if_neg howner]
    by_cases hancestor : declaring ∈ ancestors
    · rw [if_pos hancestor, if_pos (hmem.mp hancestor)]
    · rw [if_neg hancestor, if_neg (mt hmem.mpr hancestor)]

/-- An order by ranks and declaring types is one by distances and declaring types. -/
theorem toLex_declaringRank_le {ancestors : List String} {owner declaring declaring' : String}
    (h : toLex (rankOn ancestors owner declaring, declaring)
      ≤ toLex (rankOn ancestors owner declaring', declaring')) :
    toLex (declaringRank ancestors owner declaring, declaring)
      ≤ toLex (declaringRank ancestors owner declaring', declaring') := by
  simp only [Prod.Lex.toLex_le_toLex] at h ⊢
  rcases h with hlt | ⟨heq, hle⟩
  · -- the lower rank is not the last one, so the distance is finite
    have hfinite : rankOn ancestors owner declaring ≤ ancestors.length := by
      have hlast := rankOn_le ancestors owner declaring'
      omega
    left
    rw [declaringRank_eq, declaringRank_eq, if_pos hfinite]
    split
    · exact WithTop.coe_lt_coe.mpr hlt
    · exact WithTop.coe_lt_top _
  · right
    refine ⟨?_, hle⟩
    rw [declaringRank_eq, declaringRank_eq, heq]

/-- Every member of a declared type has a declaring type and an id, and of those that have the id the
    one that is taken comes first by rank and declaring type. -/
theorem sorted_of_mem_declaration {hierarchy : Hierarchy} {t : DeclaredType}
    {members : List RankedMember} (h : ofType hierarchy t = .ok members) {d : Descriptor}
    (hd : d ∈ t.declaration.members) :
    ∃ localId declaring, d.encode = .ok localId ∧ d.declaringType t.id = .ok declaring ∧
      (∃ m ∈ members, m.id = t.id ++ "." ++ localId) ∧
      ∀ m ∈ members, m.id = t.id ++ "." ++ localId →
        toLex (m.rank, m.declaring)
          ≤ toLex (rankOn (hierarchy.ancestors t.id) t.id declaring, declaring) := by
  obtain ⟨all, hall, rfl⟩ := ofType_eq_ok.mp h
  obtain ⟨r, hr, hof⟩ := exists_result_of_mem_mapM hall hd
  obtain ⟨localId, declaring, hlocal, hdeclaring, rfl⟩ := of_eq_ok.mp hof
  refine ⟨localId, declaring, hlocal, hdeclaring, ?_, fun m hm hid => ?_⟩
  · have hid : t.id ++ "." ++ localId ∈ (firstPerKey id (all.mergeSort precedes)).map id :=
      mem_map_firstPerKey.mpr (List.mem_map.mpr ⟨_, List.mem_mergeSort.mpr hr, rfl⟩)
    exact List.mem_map.mp hid
  · have hle := le_of_mem_firstPerKey (fun a => le_refl a.sortKey)
      (pairwise_mergeSort_key precedes_iff all) hm (List.mem_mergeSort.mpr hr) hid.symm
    -- the ids are the same, so rank and declaring type decide
    rw [sortKey, sortKey, Prod.Lex.toLex_le_toLex] at hle
    rcases hle with hlt | ⟨-, hle⟩
    · exact absurd hid hlt.ne
    · exact hle

end RankedMember

/-! ### Entries -/

/-- The entry is that of the nearest one of the members with the id `localId` that the declaration
    has for the type. -/
structure Catalog.Nearest (c : Catalog) (d : Declaration) (type localId : String) (e : Entry) :
    Prop where
  member : e.descriptor ∈ d.members ∧ e.descriptor.encode = .ok localId
  /-- It is declared nearer than all others, or as near and on a type whose id comes first. -/
  least : ∃ declaring, e.declaring = some declaring ∧
    e.descriptor.declaringType type = .ok declaring ∧
    ∀ m ∈ d.members, m.encode = .ok localId → ∃ declaring', m.declaringType type = .ok declaring' ∧
      toLex (declaringRank (c.ancestorsOf type) type declaring, declaring)
        ≤ toLex (declaringRank (c.ancestorsOf type) type declaring', declaring')
  /-- If one of them is declared on the type itself, the type does not inherit the member. -/
  notInherited : ∀ m ∈ d.members, m.encode = .ok localId → m.declaringType type = .ok type →
    e.isInherited = false

namespace Catalog

variable {ds : List Declaration} {c : Catalog}

/-- Every entry that a type has for one of its members is that of the nearest one. -/
theorem nearest_of_mem (hc : build ds = .ok c) {t : DeclaredType} (ht : Kept ds t) {e : Entry}
    (he : e ∈ c.entries) (howner : e.owner = some t.id) {localId : String}
    (hid : e.id = t.id ++ "." ++ localId) : c.Nearest t.declaration t.id localId e := by
  obtain ⟨t', members, m, ht', hid', hofType, hm, -, hentry⟩ := exists_member_of_owner hc he howner
  obtain rfl : t' = t := ht'.eq_of_id ht hid'
  obtain ⟨hmowner, hmember, hlocal, hdeclaring, hrank⟩ :=
    RankedMember.exists_of_mem_ofType hofType hm
  obtain ⟨bases, -, rfl⟩ := RankedMember.entry_eq_ok.mp hentry
  have hlocalId : m.localId = localId := RankedMember.localId_of_id hmowner hid
  -- no rival comes before the member that has the entry
  have hleast : ∀ d ∈ t'.declaration.members, d.encode = .ok localId →
      ∃ declaring', d.declaringType t'.id = .ok declaring' ∧
        toLex (declaringRank (c.ancestorsOf t'.id) t'.id m.declaring, m.declaring)
          ≤ toLex (declaringRank (c.ancestorsOf t'.id) t'.id declaring', declaring') := by
    intro d hd hencode
    obtain ⟨localId', declaring', hlocal', hdeclaring', -, hsorted⟩ :=
      RankedMember.sorted_of_mem_declaration hofType hd
    obtain rfl : localId' = localId := Except.ok.inj (hlocal'.symm.trans hencode)
    refine ⟨declaring', hdeclaring', RankedMember.toLex_declaringRank_le ?_⟩
    have hle := hsorted m hm hid
    rw [hrank] at hle
    exact hle
  constructor
  case member => exact ⟨hmember, hlocalId ▸ hlocal⟩
  case least => exact ⟨m.declaring, rfl, hdeclaring, hleast⟩
  case notInherited =>
    intro d hd hencode hown
    obtain ⟨declaring', hdeclaring', hle⟩ := hleast d hd hencode
    obtain rfl : t'.id = declaring' := Except.ok.inj (hown.symm.trans hdeclaring')
    -- the rival is at no distance, so the one that has the entry is not either
    have hself : m.declaring = t'.id := by
      have hzero : declaringRank (c.ancestorsOf t'.id) t'.id t'.id = WithTop.some 0 :=
        if_pos rfl
      have hrank : declaringRank (c.ancestorsOf t'.id) t'.id m.declaring
          ≤ declaringRank (c.ancestorsOf t'.id) t'.id t'.id := Prod.Lex.monotone_fst _ _ hle
      rw [hzero] at hrank
      exact eq_owner_of_declaringRank hrank
    simp [Entry.isInherited, hmowner, hself]

end Catalog

/-- **The largest declaration and the nearest member take precedence.**  In a catalog that could be
    built there is one declaration that is kept of each declared type; the entry of the type is made
    of it, and no declaration of the type has more members.  Each of its members has an id, there is
    an entry under the id, and if the type is the owner of that entry, then it is the entry of the
    nearest member that the declaration has with the id. -/
theorem precedence_of_build {ds : List Declaration} {c : Catalog} (hc : Catalog.build ds = .ok c)
    {type : String} (htype : ∃ d ∈ ds, d.descriptor.encode = .ok type) :
    ∃ t, (Kept ds t ∧ t.id = type ∧ ∀ t', Kept ds t' → t'.id = type → t' = t) ∧ c.Indexes t ∧
      Foremost ds type t.declaration ∧
      ∀ m ∈ t.declaration.members, ∃ localId e, m.encode = .ok localId ∧
        c.lookup (type ++ "." ++ localId) = some e ∧
        (e.owner = some type → c.Nearest t.declaration type localId e) := by
  obtain ⟨d, hd, hencode⟩ := htype
  obtain ⟨t, ht, rfl⟩ := Catalog.exists_kept hc hd hencode
  refine ⟨t, ⟨ht, rfl, fun t' ht' hid => ht'.eq_of_id ht hid⟩, Catalog.indexes_of_kept hc ht,
    ht.foremost, fun m hm => ?_⟩
  obtain ⟨members, hofType, hfound⟩ := Catalog.exists_members_of_kept hc ht
  obtain ⟨localId, -, hlocal, -, ⟨r, hr, hid⟩, -⟩ :=
    RankedMember.sorted_of_mem_declaration hofType hm
  obtain ⟨e, he⟩ := hfound r hr
  rw [hid] at he
  refine ⟨localId, e, hlocal, he, fun howner => ?_⟩
  exact Catalog.nearest_of_mem hc ht (Catalog.mem_of_lookup he) howner (Catalog.id_of_lookup he)

/-! ### A type that is declared twice and overrides a member -/

/-- A type with a property that it inherits and with a field of its own, in this order. -/
def sampleOverride : Declaration :=
  sampleRivals (sampleTotal .property "Base") (sampleTotal .field "Cart")

/-- The type, and another declaration of it that has no members. -/
def sampleContest : List Declaration := [sampleOverride, sampleDuplicate]

theorem of_sampleOverride : DeclaredType.of sampleOverride
    = .ok ⟨"Shop.Cart", sampleOverride.text, sampleOverride⟩ :=
  DeclaredType.of_eq_ok.mpr ⟨_, encode_sampleCart, rfl⟩

/-- The declaration without members is not kept. -/
theorem keptTypes_sampleContest :
    keptTypes sampleContest = .ok [⟨"Shop.Cart", sampleOverride.text, sampleOverride⟩] := by
  have hduplicate : DeclaredType.of sampleDuplicate
      = .ok ⟨"Shop.Cart", sampleDuplicate.text, sampleDuplicate⟩ :=
    DeclaredType.of_eq_ok.mpr ⟨_, encode_sampleCart, rfl⟩
  refine keptTypes_eq_ok.mpr
    ⟨_, mapM_eq_ok.mpr (.cons of_sampleOverride (.cons hduplicate .nil)), ?_⟩
  rw [List.mergeSort_of_pairwise
    (by simp [DeclaredType.precedes, sampleOverride, sampleRivals, sampleDuplicate])]
  simp [firstPerKey]

/-- The catalog of the sample has the field that the type declares itself. -/
theorem build_sampleContest : Catalog.build sampleContest = .ok
    ⟨[⟨"Shop.Cart", .classDecl "Shop" "Cart", none, none, []⟩,
        ⟨"Shop.Cart.Total", sampleTotal .field "Cart", some "Shop.Cart", some "Shop.Cart", []⟩],
      [("Shop.Cart", {})], [("Shop.Cart", "Shop.Cart.Total")]⟩ := by
  have hfield : (sampleTotal .field "Cart").encode = .ok "Total" := by decide +kernel
  have hproperty : (sampleTotal .property "Base").encode = .ok "Total" := by decide +kernel
  have hbuild : Catalog.build [sampleOverride] = _ :=
    build_ok_of_reordered (sampleRivals_reordered _ _) sampleRivals_decided
      (build_sampleRivals hfield hproperty encode_sampleCart encode_sampleBase rfl)
  have hkept : keptTypes [sampleOverride]
      = .ok [⟨"Shop.Cart", sampleOverride.text, sampleOverride⟩] :=
    keptTypes_eq_ok.mpr ⟨_, mapM_eq_ok.mpr (.cons of_sampleOverride .nil), by simp [firstPerKey]⟩
  rw [Catalog.build_eq_of_keptTypes (keptTypes_sampleContest.trans hkept.symm), hbuild]

/-- The larger declaration is kept, and the field of the type itself has the entry though the
    inherited property is listed before it. -/
theorem precedence_of_build_contest :
    ∃ c, Catalog.build sampleContest = .ok c ∧
      (∃ d ∈ sampleContest, d.descriptor.encode = .ok "Shop.Cart") ∧
      ∃ t e, Kept sampleContest t ∧ t.declaration = sampleOverride ∧
        c.lookup "Shop.Cart.Total" = some e ∧ c.Nearest sampleOverride "Shop.Cart" "Total" e ∧
        e.isInherited = false := by
  have htype : ∃ d ∈ sampleContest, d.descriptor.encode = .ok "Shop.Cart" :=
    ⟨sampleOverride, List.mem_cons_self, encode_sampleCart⟩
  refine ⟨_, build_sampleContest, htype, ?_⟩
  obtain ⟨t, ⟨ht, hid, -⟩, -, -, hmembers⟩ := precedence_of_build build_sampleContest htype
  have hkept : Kept sampleContest ⟨"Shop.Cart", sampleOverride.text, sampleOverride⟩ :=
    ⟨_, keptTypes_sampleContest, List.mem_singleton_self _⟩
  obtain rfl := ht.eq_of_id hkept hid
  have hown : sampleTotal .field "Cart" ∈ sampleOverride.members := by
    simp [sampleOverride, sampleRivals]
  have hlocal : (sampleTotal .field "Cart").encode = .ok "Total" := by decide +kernel
  obtain ⟨localId, e, hencode, hlookup, hnearest⟩ := hmembers _ hown
  obtain rfl : "Total" = localId := Except.ok.inj (hlocal.symm.trans hencode)
  have howner : e.owner = some "Shop.Cart" := by
    obtain rfl : _ = e := by simpa [Catalog.lookup] using hlookup
    rfl
  refine ⟨_, e, ht, rfl, hlookup, hnearest howner, ?_⟩
  exact (hnearest howner).notInherited _ hown hlocal encode_sampleCart

end InheritDoc
