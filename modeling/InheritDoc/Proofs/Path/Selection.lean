import InheritDoc.Path.Basic
import InheritDoc.Proofs.Markup.Forest

namespace InheritDoc

open Markup (Tag Node)

/-!
# What a path can select

Selection takes nodes of a forest as they are: it neither changes nor invents any.

* `Path.occurs_of_mem_select` : every selected node occurs in the forest;
* `Path.anyMarker_select` : hence a forest without markers has none to select.
-/

open Markup.Node (Occurs)

/-! ### Steps -/

/-- The child axis leads to nodes of the place. -/
theorem mem_of_mem_childrenFrom {position : List Nat} {i : Nat} {nodes : List Node} {x : Occurrence}
    (h : x ∈ childrenFrom position i nodes) : x.node ∈ nodes := by
  induction nodes generalizing i with
  | nil => exact absurd h List.not_mem_nil
  | cons node nodes ih =>
    rw [childrenFrom, List.mem_cons] at h
    rcases h with rfl | h
    · exact List.mem_cons_self
    · exact List.mem_cons_of_mem node (ih h)

/-- The descendant axis leads to nodes that occur in the place. -/
theorem occurs_of_mem_descendantsFrom {position : List Nat} {i : Nat} {nodes : List Node}
    {x : Occurrence} (h : x ∈ descendantsFrom position i nodes) : Occurs x.node nodes := by
  induction nodes using Node.forest_induction generalizing position i with
  | nil => exact absurd h List.not_mem_nil
  | text content nodes ih =>
    rw [descendantsFrom, descendantsOf, List.nil_append, List.mem_cons] at h
    rcases h with rfl | h
    · exact .here List.mem_cons_self
    · exact (ih h).cons
  | element tag children nodes ihc ihn =>
    rw [descendantsFrom, descendantsOf, List.mem_cons, List.mem_append] at h
    rcases h with rfl | h | h
    · exact .here List.mem_cons_self
    · exact .inside List.mem_cons_self (ihc h)
    · exact (ihn h).cons

/-- A predicate keeps some of the occurrences it is given, in their order. -/
theorem Step.keep_sublist (predicate : Option Predicate) (xs : List Occurrence) :
    (Step.keep predicate xs).Sublist xs := by
  match predicate with
  | none => exact .refl xs
  | some (.position n) => exact (List.take_sublist 1 _).trans (List.drop_sublist (n - 1) xs)
  | some (.hasAttribute name) => exact List.filter_sublist
  | some (.attributeEquals name value) => exact List.filter_sublist

/-- A step takes some of its candidates, in their order. -/
theorem Step.apply_sublist (step : Step) (place : Place) :
    (step.apply place).Sublist (step.candidates place) :=
  (keep_sublist _ _).trans List.filter_sublist

/-- A step leads to nodes that occur in the place it starts from. -/
theorem Step.occurs_of_mem_apply {step : Step} {place : Place} {x : Occurrence}
    (h : x ∈ step.apply place) : Occurs x.node place.nodes := by
  have hcandidate : x ∈ step.candidates place := (step.apply_sublist place).subset h
  unfold Step.candidates at hcandidate
  cases haxis : step.axis with
  | child =>
    rw [haxis] at hcandidate
    exact .here (mem_of_mem_childrenFrom hcandidate)
  | descendant =>
    rw [haxis] at hcandidate
    exact occurs_of_mem_descendantsFrom hcandidate

/-! ### Paths -/

namespace Path

/-- The steps of a path lead to nodes that occur in one of the places they start from. -/
theorem occurs_of_mem_follow {steps : List Step} {places : List Place} {x : Occurrence}
    (h : x ∈ follow steps places) : ∃ place ∈ places, Occurs x.node place.nodes := by
  fun_induction follow steps places with
  | case1 => exact absurd h List.not_mem_nil
  | case2 step places =>
    obtain ⟨place, hplace, hx⟩ := List.mem_flatMap.mp h
    exact ⟨place, hplace, Step.occurs_of_mem_apply hx⟩
  | case3 step steps places _ ih =>
    -- the next places are the insides of nodes that this step leads to
    obtain ⟨inside, hinside, hx⟩ := ih h
    obtain ⟨y, hy, rfl⟩ := List.mem_map.mp hinside
    obtain ⟨place, hplace, hyplace⟩ := List.mem_flatMap.mp hy
    exact ⟨place, hplace, (Step.occurs_of_mem_apply hyplace).trans hx⟩

/-- **Selected nodes occur in the forest** that they are selected from. -/
theorem occurs_of_mem_select {path : Path} {nodes : List Node} {node : Node}
    (h : node ∈ path.select nodes) : Occurs node nodes := by
  obtain ⟨x, hx, rfl⟩ := List.mem_map.mp h
  obtain ⟨place, hplace, hoccurs⟩ := occurs_of_mem_follow hx
  rw [List.mem_singleton] at hplace
  rwa [hplace] at hoccurs

/-- Nothing with a marker can be selected where there is none. -/
theorem anyMarker_select (path : Path) {nodes : List Node} (h : Node.anyMarker nodes = false) :
    Node.anyMarker (path.select nodes) = false := by
  rw [Node.anyMarker_eq_any, List.any_eq_false]
  intro node hnode
  rw [(occurs_of_mem_select hnode).hasMarker_eq_false h]
  exact Bool.false_ne_true

end Path

end InheritDoc
