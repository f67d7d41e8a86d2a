import InheritDoc.Proofs.Catalog.Entries
import InheritDoc.Proofs.Inheritance.Replacement
import Mathlib.Logic.Relation

namespace InheritDoc

open Markup (Tag Node allBlank)

/-!
# The inheritance rule

Which nodes may stand in the place of a marker, said on the finished documentation and not on how
it is computed.

* `Attachment.DependsOn`     : the dependency graph, from an element to what its outermost markers
  lead to;
* `Attachment.SharesCycle`   : two elements lie on a common cycle of that graph;
* `Attachment.AwayFromCycles` : no cycle can be reached from an element;
* `Dropped`, `portion`       : markers that inherit nothing, and the part that the others take;
* `Inherits`                 : a marker inherits from its first candidate with documentation, where
  only candidates on a common cycle may be passed over in spite of theirs.
-/

variable {a : Attachment} {o : Options}

/-! ### The dependency graph -/

namespace Attachment

/-- The candidates of the outermost markers of an element, other than the element itself. -/
def dependencies (a : Attachment) (o : Options) (e : Entry) : List String :=
  ((outermostMarkers (a.effectiveDoc o e)).flatMap (a.catalog.candidates e)).filter (· ≠ e.id)

/-- The element `c` is a candidate of an outermost marker of the known element `id`. -/
def DependsOn (a : Attachment) (o : Options) (id c : String) : Prop :=
  ∃ e, a.catalog.lookup id = some e ∧ c ∈ a.dependencies o e

/-- Two elements lie on a common cycle of the dependency graph. -/
def SharesCycle (a : Attachment) (o : Options) (x y : String) : Prop :=
  Relation.TransGen (a.DependsOn o) x y ∧ Relation.TransGen (a.DependsOn o) y x

/-- No cycle of the dependency graph can be reached from the element. -/
def AwayFromCycles (a : Attachment) (o : Options) (id : String) : Prop :=
  ∀ x, Relation.ReflTransGen (a.DependsOn o) id x → ¬ Relation.TransGen (a.DependsOn o) x x

/-- An element is away from cycles if and only if its dependencies are. -/
theorem awayFromCycles_iff {id : String} :
    a.AwayFromCycles o id ↔ ∀ c, a.DependsOn o id c → a.AwayFromCycles o c := by
  refine ⟨fun h c hc x hx => h x (.head hc hx), fun h x hx hcycle => ?_⟩
  rcases hx.cases_head with rfl | ⟨c, hc, hcx⟩
  · -- a cycle through the element itself passes through one of its dependencies
    obtain ⟨c, hc, hback⟩ := Relation.TransGen.head'_iff.mp hcycle
    exact h c hc id hback hcycle
  · exact h c hc x hcx hcycle

/-- An element away from cycles shares none. -/
theorem AwayFromCycles.not_sharesCycle {id c : String} (h : a.AwayFromCycles o id) :
    ¬ a.SharesCycle o id c :=
  fun hc => h id .refl (hc.1.trans hc.2)

end Attachment

/-- Nothing depends directly on itself. -/
theorem Attachment.DependsOn.ne {id c : String} (h : a.DependsOn o id c) : c ≠ id := by
  obtain ⟨e, he, hc⟩ := h
  obtain rfl := Catalog.id_of_lookup he
  simpa using (List.mem_filter.mp hc).2

/-- The other candidates of an outermost marker are dependencies. -/
theorem dependsOn_of_candidate {e : Entry} {marker : Tag} {c : String}
    (he : a.catalog.lookup e.id = some e) (hm : marker ∈ outermostMarkers (a.effectiveDoc o e))
    (hc : c ∈ (a.catalog.candidates e marker).filter (· ≠ e.id)) : a.DependsOn o e.id c := by
  obtain ⟨hc, hne⟩ := List.mem_filter.mp hc
  exact ⟨e, he, List.mem_filter.mpr ⟨List.mem_flatMap.mpr ⟨marker, hm, hc⟩, hne⟩⟩

/-! ### What a marker takes -/

/-- A marker inherits nothing if it has a reference and references are not followed, or if its path
    cannot be read. -/
def Dropped (o : Options) (marker : Tag) : Prop :=
  ((marker.attribute? "cref").isSome = true ∧ o.followCrefs = false) ∨
    ∃ text error, marker.attribute? "path" = some text ∧ Path.parse text = .error error

/-- The part of inherited documentation that a marker inside the given sections takes: what its path
    selects, or else what stands in the same sections, which is everything outside any section. -/
def portion (sections : List Tag) (marker : Tag) (tree : List Node) : List Node :=
  match marker.attribute? "path" with
  | some text =>
    match Path.parse text with
    | .ok path => path.select tree
    | .error _ => []
  | none => if sections = [] then tree else (Path.contentOf sections).select tree

/-- A marker has a plan unless it is dropped, and the plan is made of its candidates other than the
    element itself and of its portion. -/
theorem plan_cases (c : Catalog) (o : Options) (e : Entry) (sections : List Tag) (marker : Tag) :
    (Dropped o marker ∧ plan c o e sections marker = none) ∨
      (¬ Dropped o marker ∧ ∃ pl, plan c o e sections marker = some pl ∧
        pl.candidates = (c.candidates e marker).filter (· ≠ e.id) ∧
        pl.take = portion sections marker) := by
  unfold plan
  by_cases hcref : (marker.attribute? "cref").isSome = true ∧ o.followCrefs = false
  · exact .inl ⟨.inl hcref, by simp [hcref]⟩
  · have hfollow : ((marker.attribute? "cref").isSome && !o.followCrefs) = false := by
      simpa using hcref
    simp only [hfollow, Bool.false_eq_true, ↓reduceIte]
    cases hpath : marker.attribute? "path" with
    | none =>
      -- without a path the whole tree is taken, or what corresponds to the sections around the
      -- marker
      refine .inr ⟨by simp [Dropped, hcref, hpath], ?_⟩
      by_cases hs : sections = []
      · refine ⟨⟨_, none⟩, by simp only [hs, List.isEmpty_nil, ↓reduceIte], rfl, ?_⟩
        funext tree
        simp [MarkerPlan.take, portion, hpath, hs]
      · refine ⟨⟨_, some (.contentOf sections)⟩, by simp only [List.isEmpty_iff, hs, ↓reduceIte],
          rfl, ?_⟩
        funext tree
        simp [MarkerPlan.take, portion, hpath, hs]
    | some text =>
      cases hparse : Path.parse text with
      -- a path that cannot be read drops the marker
      | error err => exact .inl ⟨.inr ⟨text, err, hpath, hparse⟩, by simp only [hparse]⟩
      | ok path =>
        refine .inr ⟨by simp [Dropped, hcref, hpath, hparse], ⟨_, some path⟩,
          by simp only [hparse], rfl, ?_⟩
        funext tree
        simp [MarkerPlan.take, portion, hpath, hparse]

/-! ### The rule -/

/-- Why the element `id` may pass over a candidate: it is unknown, its documentation is blank, or it
    lies on a common cycle with `id`. -/
inductive PassedOver (a : Attachment) (o : Options) (docs : List (String × List Node))
    (id c : String) : Prop
  | unknown (h : a.catalog.lookup c = none)
  | blank {tree : List Node} (h : docs.lookup c = some tree) (hblank : allBlank tree = true)
  | cyclic (h : a.SharesCycle o id c)

/-- **The inheritance rule.**  The nodes that may stand in the place of a marker of the element `e`,
    when `docs` is the finished documentation. -/
inductive Inherits (a : Attachment) (o : Options) (docs : List (String × List Node)) (e : Entry)
    (sections : List Tag) (marker : Tag) : List Node → Prop
  | dropped (h : Dropped o marker) : Inherits a o docs e sections marker []
  | taken {earlier later : List String} {c : String} {tree : List Node} (h : ¬ Dropped o marker)
      (hcandidates : (a.catalog.candidates e marker).filter (· ≠ e.id) = earlier ++ c :: later)
      (hearlier : ∀ c' ∈ earlier, PassedOver a o docs e.id c')
      (hc : docs.lookup c = some tree) (htree : allBlank tree = false) :
      Inherits a o docs e sections marker (portion sections marker tree)
  | nothing (h : ¬ Dropped o marker)
      (hall : ∀ c ∈ (a.catalog.candidates e marker).filter (· ≠ e.id), PassedOver a o docs e.id c) :
      Inherits a o docs e sections marker []

section Growth

variable {docs docs' : List (String × List Node)}
  (hdocs : ∀ {id tree}, docs.lookup id = some tree → docs'.lookup id = some tree)

include hdocs

/-- More finished documentation gives no reason to take back why a candidate was passed over. -/
theorem PassedOver.mono {id c : String} (h : PassedOver a o docs id c) :
    PassedOver a o docs' id c := by
  cases h with
  | unknown h => exact .unknown h
  | blank h hblank => exact .blank (hdocs h) hblank
  | cyclic h => exact .cyclic h

/-- More finished documentation leaves what a marker inherited valid. -/
theorem Inherits.mono {e : Entry} {sections : List Tag} {marker : Tag} {out : List Node}
    (h : Inherits a o docs e sections marker out) : Inherits a o docs' e sections marker out := by
  cases h with
  | dropped h => exact .dropped h
  | taken h hcandidates hearlier hc htree =>
    exact .taken h hcandidates (fun c' hc' => (hearlier c' hc').mono hdocs) (hdocs hc) htree
  | nothing h hall => exact .nothing h fun c hc => (hall c hc).mono hdocs

end Growth

end InheritDoc
