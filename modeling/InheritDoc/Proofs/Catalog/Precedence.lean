import InheritDoc.Proofs.Catalog.Order
import InheritDoc.Proofs.Element.TextOrder

namespace InheritDoc

open List (Forall₂)

/-!
# What the order of members decides

Of several declarations of one type the largest is kept, and of several members with one id the one
that is declared nearest.  Where these rules leave a choice, the order in which members are listed
may make it: declarations of equal size are compared by their texts, in which members come last, and
of members that are declared on the same type the first is taken.

* `Declaration.Reordered` : one declaration is another one with its members in another order;
* `Foremost`              : a declaration of a type than which none has more members;
* `compare_of_mem_keptTypes` : what is kept is foremost and has the least text;
* `Decided`               : the rules leave no choice;
* `build_eq_of_reordered` : **where they leave none, the order of members is of no consequence**;
* `build_tied_members`    : where they leave one, it can decide which of two members has the entry.
-/

/-! ### Members in another order -/

/-- The declarations differ only in the order of their members. -/
structure Declaration.Reordered (d d' : Declaration) : Prop where
  heading : d.heading = d'.heading
  members : d.members.Perm d'.members

namespace Declaration.Reordered

variable {d d' : Declaration}

theorem symm (h : d.Reordered d') : d'.Reordered d :=
  ⟨h.heading.symm, h.members.symm⟩

theorem trans {d'' : Declaration} (h : d.Reordered d') (h' : d'.Reordered d'') : d.Reordered d'' :=
  ⟨h.heading.trans h'.heading, h.members.trans h'.members⟩

theorem forall₂_symm {ds ds' : List Declaration} (h : Forall₂ Declaration.Reordered ds ds') :
    Forall₂ Declaration.Reordered ds' ds :=
  List.Forall₂.flip (h.imp fun _ _ hd => hd.symm)

/-- Reordering leaves the type as it is. -/
theorem descriptor (h : d.Reordered d') : d.descriptor = d'.descriptor :=
  (heading_eq_iff.mp h.heading).1

/-- Reordering leaves the base type as it is. -/
theorem base (h : d.Reordered d') : d.base = d'.base :=
  (heading_eq_iff.mp h.heading).2.1

/-- Reordering leaves the interfaces as they are, in their order. -/
theorem interfaces (h : d.Reordered d') : d.interfaces = d'.interfaces :=
  (heading_eq_iff.mp h.heading).2.2

end Declaration.Reordered

/-- The declared types have one id, and their declarations differ only in the order of members. -/
structure DeclaredType.Reordered (t t' : DeclaredType) : Prop where
  id : t.id = t'.id
  declaration : t.declaration.Reordered t'.declaration

/-! ### What is kept -/

/-- A declaration of the type `id` than which no declaration of the type has more members. -/
structure Foremost (ds : List Declaration) (id : String) (d : Declaration) : Prop where
  mem : d ∈ ds
  encode : d.descriptor.encode = .ok id
  largest : ∀ d' ∈ ds, d'.descriptor.encode = .ok id → d'.members.length ≤ d.members.length

/-- In another order of members the same declarations are foremost. -/
theorem Foremost.of_reordered {ds ds' : List Declaration} (h : Forall₂ Declaration.Reordered ds ds')
    {id : String} {d' : Declaration} (hd' : Foremost ds' id d') :
    ∃ d, Foremost ds id d ∧ d.Reordered d' := by
  obtain ⟨d, hd, hreordered⟩ := exists_left_of_mem h hd'.mem
  refine ⟨d, ⟨hd, hreordered.descriptor ▸ hd'.encode, fun x hx hid => ?_⟩, hreordered⟩
  obtain ⟨x', hx', hxreordered⟩ := exists_right_of_mem h hx
  rw [hxreordered.members.length_eq, hreordered.members.length_eq]
  exact hd'.largest x' hx' (hxreordered.descriptor ▸ hid)

/-- The items that are kept of a list are in the order of the list. -/
theorem sublist_firstPerKey {α : Type} (key : α → String) (as : List α) :
    (firstPerKey key as).Sublist as := by
  induction as with
  | nil => exact .slnil
  | cons a as ih => exact (List.filter_sublist.trans ih).cons_cons a

/-- Of a sorted list the first item with a key is kept, which comes before all others with it. -/
theorem le_of_mem_firstPerKey {α : Type} {key : α → String} {le : α → α → Prop} {as : List α}
    (hrefl : ∀ a, le a a) (hsorted : as.Pairwise le) {a b : α} (ha : a ∈ firstPerKey key as)
    (hb : b ∈ as) (hkey : key b = key a) : le a b := by
  induction hsorted with
  | nil => exact absurd hb List.not_mem_nil
  | @cons first as hfirst _ ih =>
    rcases List.mem_cons.mp ha with rfl | ha
    · -- the first of a sorted list comes before all others
      rcases List.mem_cons.mp hb with rfl | hb
      · exact hrefl b
      · exact hfirst b hb
    · -- a later one has another key than the first
      obtain ⟨ha, hne⟩ := List.mem_filter.mp ha
      rcases List.mem_cons.mp hb with rfl | hb
      · exact absurd hkey.symm (by simpa using hne)
      · exact ih ha hb

/-- Any other declaration of a kept type has fewer members, or as many and no lesser text. -/
theorem compare_of_mem_keptTypes {ds : List Declaration} {types : List DeclaredType}
    (h : keptTypes ds = .ok types) {t : DeclaredType} (ht : t ∈ types) {d : Declaration} (hd : d ∈ ds)
    (hid : d.descriptor.encode = .ok t.id) :
    d.members.length < t.declaration.members.length ∨
      t.declaration.members.length = d.members.length ∧ t.declaration.text ≤ d.text := by
  obtain ⟨all, hall, rfl⟩ := keptTypes_eq_ok.mp h
  obtain ⟨u, hu, hof⟩ := exists_result_of_mem_mapM hall hd
  obtain ⟨id, hid', rfl⟩ := DeclaredType.of_eq_ok.mp hof
  obtain rfl : t.id = id := Except.ok.inj (hid.symm.trans hid')
  have hle := le_of_mem_firstPerKey (fun a => le_refl a.sortKey)
    (pairwise_mergeSort_key DeclaredType.precedes_iff all) ht (List.mem_mergeSort.mpr hu) rfl
  obtain ⟨_, _, hof'⟩ := exists_of_mem_mapM hall (List.mem_mergeSort.mp (mem_of_mem_firstPerKey ht))
  obtain ⟨_, _, rfl⟩ := DeclaredType.of_eq_ok.mp hof'
  -- the id is the same, so the number of members comes next
  simpa only [DeclaredType.sortKey, Prod.Lex.toLex_le_toLex, lt_self_iff_false, false_or, true_and,
    OrderDual.toDual_lt_toDual, OrderDual.toDual_inj] using hle

/-- A kept type has a foremost declaration. -/
theorem foremost_of_mem_keptTypes {ds : List Declaration} {types : List DeclaredType}
    (h : keptTypes ds = .ok types) {t : DeclaredType} (ht : t ∈ types) :
    Foremost ds t.id t.declaration := by
  obtain ⟨hmem, hencode⟩ := exists_of_mem_keptTypes h ht
  refine ⟨hmem, hencode, fun d hd hid => ?_⟩
  rcases compare_of_mem_keptTypes h ht hd hid with hlength | ⟨hlength, -⟩
  · exact hlength.le
  · exact hlength.ge

/-- Of the foremost declarations of a type the one with the least text is kept. -/
theorem text_le_of_mem_keptTypes {ds : List Declaration} {types : List DeclaredType}
    (h : keptTypes ds = .ok types) {t : DeclaredType} (ht : t ∈ types) {d : Declaration}
    (hd : Foremost ds t.id d) : t.declaration.text ≤ d.text := by
  obtain ⟨hmem, hencode⟩ := exists_of_mem_keptTypes h ht
  rcases compare_of_mem_keptTypes h ht hd.mem hd.encode with hlength | ⟨-, htext⟩
  · exact absurd hlength (hd.largest _ hmem hencode).not_gt
  · exact htext

/-- The ids of the kept types are those that are declared. -/
theorem mem_ids_keptTypes {ds : List Declaration} {types : List DeclaredType}
    (h : keptTypes ds = .ok types) {id : String} :
    id ∈ types.map (·.id) ↔ ∃ d ∈ ds, d.descriptor.encode = .ok id := by
  obtain ⟨all, hall, rfl⟩ := keptTypes_eq_ok.mp h
  rw [mem_map_firstPerKey, List.mem_map]
  constructor
  · rintro ⟨t, ht, rfl⟩
    obtain ⟨d, hd, hof⟩ := exists_of_mem_mapM hall (List.mem_mergeSort.mp ht)
    obtain ⟨id, hid, rfl⟩ := DeclaredType.of_eq_ok.mp hof
    exact ⟨d, hd, hid⟩
  · rintro ⟨d, hd, hid⟩
    obtain ⟨t, ht, hof⟩ := exists_result_of_mem_mapM hall hd
    obtain ⟨id', hid', rfl⟩ := DeclaredType.of_eq_ok.mp hof
    exact ⟨_, List.mem_mergeSort.mpr ht, Except.ok.inj (hid'.symm.trans hid)⟩

/-- The kept types stand in increasing order of their ids, and no id is kept twice. -/
theorem sorted_ids_keptTypes {ds : List Declaration} {types : List DeclaredType}
    (h : keptTypes ds = .ok types) :
    (types.map (·.id)).Pairwise (· ≤ ·) ∧ (types.map (·.id)).Nodup := by
  obtain ⟨all, -, rfl⟩ := keptTypes_eq_ok.mp h
  refine ⟨List.pairwise_map.mpr ?_, nodup_firstPerKey _⟩
  refine ((pairwise_mergeSort_key DeclaredType.precedes_iff all).sublist
    (sublist_firstPerKey _ _)).imp fun hab => ?_
  exact Prod.Lex.monotone_fst _ _ hab

/-! ### Where the rules leave no choice -/

/-- The type that declares a member listed under the type `owner`. -/
def Descriptor.declaringType (owner : String) (m : Descriptor) : Except EncodeError String :=
  m.enclosing.elim (.ok owner) Descriptor.encode

/-- The rules of precedence leave no choice.  Of each type the largest declarations differ in more
    than their members, or in the order of members at most; and in such a declaration no two members
    have the same id and are declared on the same type, unless they are equal. -/
structure Decided (ds : List Declaration) : Prop where
  declarations : ∀ id d d', Foremost ds id d → Foremost ds id d' → d.heading = d'.heading →
    d.members.Perm d'.members
  members : ∀ id d, Foremost ds id d → ∀ m ∈ d.members, ∀ m' ∈ d.members, ∀ localId declaring,
    m.encode = .ok localId → m'.encode = .ok localId → m.declaringType id = .ok declaring →
    m'.declaringType id = .ok declaring → m = m'

/-- In another order of members the rules leave no choice either. -/
theorem Decided.of_reordered {ds ds' : List Declaration} (h : Forall₂ Declaration.Reordered ds ds')
    (hdecided : Decided ds) : Decided ds' := by
  constructor
  case declarations =>
    intro id d d' hd hd' hheading
    obtain ⟨x, hx, hxd⟩ := hd.of_reordered h
    obtain ⟨x', hx', hxd'⟩ := hd'.of_reordered h
    have hperm := hdecided.declarations id x x' hx hx'
      (hxd.heading.trans (hheading.trans hxd'.heading.symm))
    exact hxd.members.symm.trans (hperm.trans hxd'.members)
  case members =>
    intro id d hd m hm m' hm'
    obtain ⟨x, hx, hxd⟩ := hd.of_reordered h
    exact hdecided.members id x hx m (hxd.members.mem_iff.mpr hm) m' (hxd.members.mem_iff.mpr hm')

/-- In another order of members the same declaration of a type is kept. -/
theorem keptDeclaration_reordered {ds ds' : List Declaration}
    (h : Forall₂ Declaration.Reordered ds ds') (hdecided : Decided ds)
    {types types' : List DeclaredType} (htypes : keptTypes ds = .ok types)
    (htypes' : keptTypes ds' = .ok types') {t t' : DeclaredType} (ht : t ∈ types) (ht' : t' ∈ types')
    (hid : t.id = t'.id) : t.declaration.Reordered t'.declaration := by
  have hforemost := foremost_of_mem_keptTypes htypes ht
  have hforemost' := foremost_of_mem_keptTypes htypes' ht'
  -- what is kept of either order stands in the other one, too
  obtain ⟨d, hd, hdt'⟩ := hforemost'.of_reordered h
  obtain ⟨d', hd', hd't⟩ := hforemost.of_reordered (Declaration.Reordered.forall₂_symm h)
  have hle := text_le_of_mem_keptTypes htypes ht (hid ▸ hd)
  have hle' := text_le_of_mem_keptTypes htypes' ht' (hid ▸ hd')
  have hheading : t.declaration.heading = d.heading := by
    by_contra hne
    have hlt : t.declaration.text < d.text := lt_of_le_of_ne hle fun htext =>
      hne (congrArg Declaration.heading (Declaration.text_injective htext))
    exact absurd ((Declaration.text_lt_iff_of_heading_ne hd't.heading.symm hdt'.heading hne).mp hlt)
      (not_lt_of_ge hle')
  have hperm := hdecided.declarations t.id _ d hforemost (hid ▸ hd) hheading
  exact Declaration.Reordered.trans ⟨hheading, hperm⟩ hdt'

/-- In another order of members the same types are kept. -/
theorem keptTypes_reordered {ds ds' : List Declaration} (h : Forall₂ Declaration.Reordered ds ds')
    (hdecided : Decided ds) {types : List DeclaredType} (htypes : keptTypes ds = .ok types) :
    ∃ types', keptTypes ds' = .ok types' ∧ Forall₂ DeclaredType.Reordered types types' := by
  obtain ⟨all, hall, -⟩ := keptTypes_eq_ok.mp htypes
  -- the id of a declared type does not depend on its members
  obtain ⟨all', hall'⟩ : ∃ all', ds'.mapM DeclaredType.of = .ok all' := by
    refine exists_mapM_eq_ok fun d' hd' => ?_
    obtain ⟨d, hd, hreordered⟩ := exists_left_of_mem h hd'
    obtain ⟨t, -, hof⟩ := exists_result_of_mem_mapM hall hd
    obtain ⟨id, hid, -⟩ := DeclaredType.of_eq_ok.mp hof
    exact ⟨_, DeclaredType.of_eq_ok.mpr ⟨id, hreordered.descriptor ▸ hid, rfl⟩⟩
  have htypes' := keptTypes_eq_ok.mpr ⟨all', hall', rfl⟩
  have hids : types.map (·.id)
      = (firstPerKey (·.id) (all'.mergeSort DeclaredType.precedes)).map (·.id) := by
    -- both lists of ids are in increasing order, and the same ids are declared
    obtain ⟨hsorted, hnodup⟩ := sorted_ids_keptTypes htypes
    obtain ⟨hsorted', hnodup'⟩ := sorted_ids_keptTypes htypes'
    refine List.Perm.eq_of_pairwise (fun a b _ _ => le_antisymm) hsorted hsorted'
      ((List.perm_ext_iff_of_nodup hnodup hnodup').mpr fun id => ?_)
    rw [mem_ids_keptTypes htypes, mem_ids_keptTypes htypes']
    constructor
    · rintro ⟨d, hd, hid⟩
      obtain ⟨d', hd', hreordered⟩ := exists_right_of_mem h hd
      exact ⟨d', hd', hreordered.descriptor ▸ hid⟩
    · rintro ⟨d', hd', hid⟩
      obtain ⟨d, hd, hreordered⟩ := exists_left_of_mem h hd'
      exact ⟨d, hd, hreordered.descriptor ▸ hid⟩
  refine ⟨_, htypes', forall₂_of_map_eq hids fun t ht t' ht' hid => ?_⟩
  exact ⟨hid, keptDeclaration_reordered h hdecided htypes htypes' ht ht' hid⟩

/-! ### Members of a kept type -/

namespace RankedMember

/-- What members are ordered by: the id, the rank, the declaring type. -/
def sortKey (m : RankedMember) : String ×ₗ ℕ ×ₗ String :=
  toLex (m.id, toLex (m.rank, m.declaring))

/-- Members are sorted by their keys. -/
theorem precedes_iff (a b : RankedMember) : a.precedes b = true ↔ a.sortKey ≤ b.sortKey := by
  simp only [sortKey, Prod.Lex.toLex_le_toLex]
  unfold precedes
  by_cases hid : a.id = b.id
  · by_cases hrank : a.rank = b.rank
    · simp [hid, hrank]
    · simp [hid, hrank]
  · simp [hid]

/-- Of two members with one id the one with the lower rank comes first. -/
theorem precedes_of_rank_le {a b : RankedMember} (hid : a.id = b.id) (hrank : a.rank ≤ b.rank)
    (hdeclaring : a.rank = b.rank → a.declaring = b.declaring) : a.precedes b = true := by
  rw [precedes_iff, sortKey, sortKey, Prod.Lex.toLex_le_toLex, Prod.Lex.toLex_le_toLex]
  refine .inr ⟨hid, ?_⟩
  rcases Nat.lt_or_eq_of_le hrank with hlt | heq
  · exact .inl hlt
  · exact .inr ⟨heq, le_of_eq (hdeclaring heq)⟩

/-- In another order of members the same members are listed under a type. -/
theorem ofType_reordered {hierarchy : Hierarchy} {t t' : DeclaredType} (h : t.Reordered t')
    (hdecided : ∀ m ∈ t.declaration.members, ∀ m' ∈ t.declaration.members, ∀ localId declaring,
      m.encode = .ok localId → m'.encode = .ok localId → m.declaringType t.id = .ok declaring →
      m'.declaringType t.id = .ok declaring → m = m')
    {members : List RankedMember} (hmembers : ofType hierarchy t = .ok members) :
    ofType hierarchy t' = .ok members := by
  obtain ⟨all, hall, rfl⟩ := ofType_eq_ok.mp hmembers
  obtain ⟨all', hall', hperm⟩ := mapM_ok_perm h.declaration.members hall
  refine ofType_eq_ok.mpr ⟨all', h.id ▸ hall', ?_⟩
  rw [mergeSort_eq_of_perm precedes_iff ?_ hperm]
  intro a ha b hb hkey
  obtain ⟨m, hm, hofm⟩ := exists_of_mem_mapM hall ha
  obtain ⟨m', hm', hofm'⟩ := exists_of_mem_mapM hall hb
  obtain ⟨localId, declaring, hlocal, hdeclaring, rfl⟩ := of_eq_ok.mp hofm
  obtain ⟨localId', declaring', hlocal', hdeclaring', rfl⟩ := of_eq_ok.mp hofm'
  simp only [sortKey, toLex_inj, Prod.mk.injEq] at hkey
  obtain ⟨hid, -, rfl⟩ := hkey
  obtain rfl : localId = localId' := by
    simpa [id, String.toList_inj] using congrArg String.toList hid
  -- the rules leave no choice between the two, so they are one
  obtain rfl := hdecided m hm m' hm' localId declaring hlocal hlocal' hdeclaring hdeclaring'
  rfl

end RankedMember

/-! ### Builds -/

/-- The links of a type do not depend on its members. -/
theorem DeclaredType.Reordered.links {t t' : DeclaredType} (h : t.Reordered t') :
    t.links = t'.links := by
  unfold DeclaredType.links
  rw [h.declaration.base, h.declaration.interfaces]

/-- The entries of types do not depend on their members. -/
theorem typeEntries_reordered {types types' : List DeclaredType}
    (h : Forall₂ DeclaredType.Reordered types types') (links : List Links) :
    types.zipWith DeclaredType.entry links = types'.zipWith DeclaredType.entry links := by
  induction h generalizing links with
  | nil => rfl
  | cons hhead _ ih =>
    cases links with
    | nil => rfl
    | cons l links =>
      rw [List.zipWith_cons_cons, List.zipWith_cons_cons, ih links, DeclaredType.entry,
        DeclaredType.entry, hhead.id, hhead.declaration.descriptor]

/-- A catalog that is built is built from the reordered declarations too. -/
theorem build_ok_of_reordered {ds ds' : List Declaration}
    (h : Forall₂ Declaration.Reordered ds ds') (hdecided : Decided ds) {c : Catalog}
    (hc : Catalog.build ds = .ok c) : Catalog.build ds' = .ok c := by
  obtain ⟨types, links, members, memberEntries, htypes, hlinks, hmembers, hentries, rfl⟩ :=
    Catalog.build_eq_ok.mp hc
  obtain ⟨types', htypes', hreordered⟩ := keptTypes_reordered h hdecided htypes
  -- links, members and entries depend on the ids of the kept types only, and these are the same
  have hids : types.map (·.id) = types'.map (·.id) := by
    rw [← List.forall₂_eq_eq_eq, List.forall₂_map_left_iff, List.forall₂_map_right_iff]
    exact hreordered.imp fun _ _ ht => ht.id
  refine Catalog.build_eq_ok.mpr ⟨types', links, members, memberEntries, htypes', ?_, ?_, ?_, ?_⟩
  · exact mapM_ok_of_forall₂ hreordered (fun t _ t' ht l hl => ht.links ▸ hl) hlinks
  · rw [← hids]
    refine mapM_ok_of_forall₂ hreordered (fun t htmem t' ht ms hms => ?_) hmembers
    exact RankedMember.ofType_reordered ht
      (hdecided.members t.id _ (foremost_of_mem_keptTypes htypes htmem)) hms
  · rw [← hids]
    exact hentries
  · rw [← hids, typeEntries_reordered hreordered]

/-- **Where the rules of precedence leave no choice, the order of members is of no consequence.**
    With the members of each declaration in another order, declarations either fail to build in both
    orders or give the same catalog in both. -/
theorem build_eq_of_reordered {ds ds' : List Declaration}
    (h : Forall₂ Declaration.Reordered ds ds') (hdecided : Decided ds) :
    (∃ c, Catalog.build ds = .ok c ∧ Catalog.build ds' = .ok c) ∨
      ∃ e e', Catalog.build ds = .error e ∧ Catalog.build ds' = .error e' := by
  have hdecided' : Decided ds' := hdecided.of_reordered h
  exact ok_or_error_of_ok_iff fun c => ⟨build_ok_of_reordered h hdecided,
    build_ok_of_reordered (Declaration.Reordered.forall₂_symm h) hdecided'⟩

/-! ### Rivals for one id -/

/-- A type with two members. -/
def sampleRivals (m m' : Descriptor) : Declaration where
  descriptor := .classDecl "Shop" "Cart"
  members := [m, m']

/-- A member of the given kind that is declared on the given type. -/
def sampleTotal (kind : Kind) (declaring : String) : Descriptor where
  kind
  name := "Total"
  enclosing := some (.classDecl "Shop" declaring)

/-- The id of the sample type. -/
theorem encode_sampleCart : (Descriptor.classDecl "Shop" "Cart").encode = .ok "Shop.Cart" := by
  decide +kernel

theorem encode_sampleBase : (Descriptor.classDecl "Shop" "Base").encode = .ok "Shop.Base" := by
  decide +kernel

section Rivals

variable {m m' : Descriptor} {declaring : String} (hm : m.encode = .ok "Total")
  (hm' : m'.encode = .ok "Total") (hown : m.declaringType "Shop.Cart" = .ok "Shop.Cart")
  (hdeclaring : m'.declaringType "Shop.Cart" = .ok declaring)

include hm hm' hown hdeclaring

/-- Of two members with one id the first is kept, if it is declared on the type itself. -/
theorem ofType_sampleRivals (hierarchy : Hierarchy) (text : String) :
    RankedMember.ofType hierarchy ⟨"Shop.Cart", text, sampleRivals m m'⟩
      = .ok [⟨"Shop.Cart", "Total", "Shop.Cart", 0, m⟩] := by
  refine RankedMember.ofType_eq_ok.mpr ⟨_, mapM_eq_ok.mpr
    (.cons (RankedMember.of_eq_ok.mpr ⟨_, _, hm, hown, rfl⟩)
      (.cons (RankedMember.of_eq_ok.mpr ⟨_, _, hm', hdeclaring, rfl⟩) .nil)), ?_⟩
  rw [List.mergeSort_of_pairwise]
  · simp [firstPerKey, RankedMember.id]
  · rw [List.pairwise_pair]
    refine RankedMember.precedes_of_rank_le rfl (by simp) fun hrank => ?_
    -- only what is declared on the type itself has the same rank
    by_contra hne
    simp [Ne.symm hne] at hrank

/-- Of two members with one id the catalog has the one that the type declares itself. -/
theorem build_sampleRivals (hexplicit : m.explicitInterface = none) :
    Catalog.build [sampleRivals m m'] = .ok
      ⟨[⟨"Shop.Cart", .classDecl "Shop" "Cart", none, none, []⟩,
          ⟨"Shop.Cart.Total", m, some "Shop.Cart", some "Shop.Cart", []⟩],
        [("Shop.Cart", {})], [("Shop.Cart", "Shop.Cart.Total")]⟩ := by
  have htypes : keptTypes [sampleRivals m m']
      = .ok [⟨"Shop.Cart", (sampleRivals m m').text, sampleRivals m m'⟩] :=
    keptTypes_eq_ok.mpr ⟨_, mapM_eq_ok.mpr (.cons (DeclaredType.of_eq_ok.mpr
      ⟨_, encode_sampleCart, rfl⟩) .nil), by simp [firstPerKey]⟩
  have hancestors : Hierarchy.ancestors [("Shop.Cart", {})] "Shop.Cart" = [] := by
    simp [Hierarchy.ancestors, Hierarchy.baseChain, Hierarchy.follow, Hierarchy.walk]
  refine Catalog.build_eq_ok.mpr ⟨_, [{}], [[⟨"Shop.Cart", "Total", "Shop.Cart", 0, m⟩]],
    [⟨"Shop.Cart.Total", m, some "Shop.Cart", some "Shop.Cart", []⟩], htypes, rfl, ?_, ?_, ?_⟩
  · exact mapM_eq_ok.mpr (.cons (ofType_sampleRivals hm hm' hown hdeclaring _ _) .nil)
  · refine mapM_eq_ok.mpr (.cons (RankedMember.entry_eq_ok.mpr ⟨[], ?_, ?_⟩) .nil)
    · simp only [RankedMember.bases, RankedMember.implemented, hexplicit, List.map_cons,
        List.map_nil, List.zip_cons_cons, List.zip_nil_right, hancestors]
      rfl
    · simp [RankedMember.id]
  · simp [firstPerKey, listMembers, RankedMember.id, DeclaredType.entry, sampleRivals,
      Links.parents]

end Rivals

/-- Two members with one id may trade places. -/
theorem sampleRivals_reordered (m m' : Descriptor) :
    Forall₂ Declaration.Reordered [sampleRivals m m'] [sampleRivals m' m] :=
  .cons ⟨rfl, .swap m' m []⟩ .nil

/-- The rules choose between a field of the type itself and a property that it inherits. -/
theorem sampleRivals_decided :
    Decided [sampleRivals (sampleTotal .field "Cart") (sampleTotal .property "Base")] := by
  constructor
  case declarations =>
    intro id d d' hd hd' _
    rw [List.mem_singleton.mp hd.mem, List.mem_singleton.mp hd'.mem]
  case members =>
    intro id d hd m hm m' hm' localId declaring _ _ hdeclaring hdeclaring'
    obtain rfl := List.mem_singleton.mp hd.mem
    simp only [sampleRivals, List.mem_cons, List.not_mem_nil, or_false] at hm hm'
    -- the two are declared on different types
    rcases hm with rfl | rfl
    · rcases hm' with rfl | rfl
      · rfl
      · exact absurd (encode_sampleCart.symm.trans
          (hdeclaring.trans (hdeclaring'.symm.trans encode_sampleBase))) (by simp)
    · rcases hm' with rfl | rfl
      · exact absurd (encode_sampleBase.symm.trans
          (hdeclaring.trans (hdeclaring'.symm.trans encode_sampleCart))) (by simp)
      · rfl

/-- The field of the type itself is kept, whichever of the two comes first. -/
theorem build_eq_of_reordered_inherited :
    (Forall₂ Declaration.Reordered
        [sampleRivals (sampleTotal .field "Cart") (sampleTotal .property "Base")]
        [sampleRivals (sampleTotal .property "Base") (sampleTotal .field "Cart")] ∧
      Decided [sampleRivals (sampleTotal .field "Cart") (sampleTotal .property "Base")]) ∧
    ∃ c,
      Catalog.build [sampleRivals (sampleTotal .field "Cart") (sampleTotal .property "Base")]
        = .ok c ∧
      Catalog.build [sampleRivals (sampleTotal .property "Base") (sampleTotal .field "Cart")]
        = .ok c ∧
      (c.lookup "Shop.Cart.Total").map (·.descriptor.kind) = some .field := by
  have hfield : (sampleTotal .field "Cart").encode = .ok "Total" := by decide +kernel
  have hproperty : (sampleTotal .property "Base").encode = .ok "Total" := by decide +kernel
  have hbuild := build_sampleRivals hfield hproperty encode_sampleCart encode_sampleBase rfl
  refine ⟨⟨sampleRivals_reordered _ _, sampleRivals_decided⟩, ?_⟩
  rcases build_eq_of_reordered (sampleRivals_reordered _ _) sampleRivals_decided with
    ⟨c, hc, hc'⟩ | ⟨e, e', he, -⟩
  · obtain rfl := Except.ok.inj (hbuild.symm.trans hc)
    exact ⟨_, hc, hc', by simp [Catalog.lookup, sampleTotal]⟩
  · simp [hbuild] at he

/-- **Where the rules leave a choice, the order of members makes it.**  A field and a property of one
    name on one type have one id, and the one that is listed first has the entry. -/
theorem build_tied_members :
    Forall₂ Declaration.Reordered
        [sampleRivals (sampleTotal .field "Cart") (sampleTotal .property "Cart")]
        [sampleRivals (sampleTotal .property "Cart") (sampleTotal .field "Cart")] ∧
    ∃ c c',
      Catalog.build [sampleRivals (sampleTotal .field "Cart") (sampleTotal .property "Cart")]
        = .ok c ∧
      Catalog.build [sampleRivals (sampleTotal .property "Cart") (sampleTotal .field "Cart")]
        = .ok c' ∧
      (c.lookup "Shop.Cart.Total").map (·.descriptor.kind) = some .field ∧
      (c'.lookup "Shop.Cart.Total").map (·.descriptor.kind) = some .property ∧
      c.lookup "Shop.Cart.Total" ≠ c'.lookup "Shop.Cart.Total" := by
  have hfield : (sampleTotal .field "Cart").encode = .ok "Total" := by decide +kernel
  have hproperty : (sampleTotal .property "Cart").encode = .ok "Total" := by decide +kernel
  have hbuild := build_sampleRivals hfield hproperty encode_sampleCart encode_sampleCart rfl
  have hbuild' := build_sampleRivals hproperty hfield encode_sampleCart encode_sampleCart rfl
  refine ⟨sampleRivals_reordered _ _, _, _, hbuild, hbuild', ?_, ?_, ?_⟩
  · simp [Catalog.lookup, sampleTotal]
  · simp [Catalog.lookup, sampleTotal]
  · simp [Catalog.lookup, sampleTotal]

end InheritDoc
