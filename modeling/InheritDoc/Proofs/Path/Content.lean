import InheritDoc.Proofs.Path.DocumentOrder

namespace InheritDoc

open Markup (Tag Node)

/-!
# The content of corresponding sections

A marker inside some sections takes what stands inside the corresponding sections of another tree.
The path to it is followed level by level, from all places of one level to those of the next.  Here
it is compared with a walk that goes into one section after the other.

* `Markup.Tag.corresponds`     : an element is a section like the one that a tag opens;
* `sectionContent`             : what stands inside the sections that correspond to enclosing ones;
* `Path.map_node_follow_stepInto` : the path leads to the same nodes as the walk;
* `WithinSections`             : a position inside corresponding sections;
* `Path.mem_follow_stepInto`   : the path leads to these positions;
* `contentOf_inside_sections`  : **a path to the content of sections leads there, and nowhere else.**
-/

/-! ### Sections -/

/-- The element is a section like the one that the tag opens: it has the same name, and the same
    `name` attribute if the tag has one, or else the same `cref` if the tag has one. -/
def Markup.Tag.corresponds (tag : Tag) : Node → Bool
  | .text _ => false
  | .element other _ =>
    other.name = tag.name &&
      match tag.attribute? "name" with
      | some value => other.attribute? "name" = some value
      | none =>
        match tag.attribute? "cref" with
        | some value => other.attribute? "cref" = some value
        | none => true

/-- What stands inside the sections that correspond to enclosing ones, given from the outermost
    inwards, one section after the other. -/
def sectionContent : List Tag → List Node → List Node
  | [], nodes => nodes
  | tag :: inner, nodes =>
    (nodes.filter tag.corresponds).flatMap fun node => sectionContent inner node.children

/-! ### Steps into sections -/

theorem map_node_childrenFrom (position : List Nat) (i : Nat) (nodes : List Node) :
    (childrenFrom position i nodes).map (·.node) = nodes := by
  induction nodes generalizing i with
  | nil => rfl
  | cons node nodes ih => rw [childrenFrom, List.map_cons, ih]

namespace Path

/-- A step into a section takes the children that correspond to it. -/
theorem apply_stepInto (tag : Tag) (place : Place) :
    (stepInto tag).apply place
      = (childrenFrom place.position 0 place.nodes).filter fun x => tag.corresponds x.node := by
  unfold Step.apply stepInto
  -- the predicate asks for the first identifying attribute that the tag has
  cases hname : tag.attribute? "name" <;> cases hcref : tag.attribute? "cref"
  all_goals
    simp only [identifyingAttributes, List.findSome?_cons, List.findSome?_nil, hname, hcref,
      Option.map_none, Option.map_some, Step.keep, Step.candidates, List.filter_filter]
    refine List.filter_congr fun x _ => ?_
    obtain ⟨position, node⟩ := x
    cases node with
    | text content => rfl
    | element other children =>
      simp [Tag.corresponds, NodeTest.accepts, hname, hcref, Bool.and_comm]

/-- The nodes that a step into a section leads to, in their order. -/
theorem map_node_apply_stepInto (tag : Tag) (place : Place) :
    ((stepInto tag).apply place).map (·.node) = place.nodes.filter tag.corresponds := by
  have hfilter := List.filter_map (f := (·.node)) (p := tag.corresponds)
    (l := childrenFrom place.position 0 place.nodes)
  rw [map_node_childrenFrom] at hfilter
  rw [apply_stepInto, hfilter]
  rfl

/-- A step to any node goes to all children. -/
theorem apply_anyNode (place : Place) :
    ({ test := .anyNode } : Step).apply place = childrenFrom place.position 0 place.nodes := by
  simp [Step.apply, Step.keep, Step.candidates, NodeTest.accepts]

/-! ### Level by level and section by section -/

/-- Followed from some places level by level, the path leads to the content of the sections in each
    place, one place after the other. -/
theorem map_node_follow_stepInto (enclosing : List Tag) (places : List Place) :
    (follow (enclosing.map stepInto ++ [{ test := .anyNode }]) places).map (·.node)
      = places.flatMap fun place => sectionContent enclosing place.nodes := by
  induction enclosing generalizing places with
  | nil =>
    show (places.flatMap ({ test := .anyNode } : Step).apply).map (·.node) = _
    rw [List.map_flatMap]
    simp only [apply_anyNode, map_node_childrenFrom, sectionContent]
  | cons tag inner ih =>
    -- one step goes into all nodes that correspond to the tag
    have hplace : ∀ place : Place, ((stepInto tag).apply place).flatMap
        (fun x => sectionContent inner x.inside.nodes) = sectionContent (tag :: inner) place.nodes := by
      intro place
      rw [sectionContent, ← map_node_apply_stepInto, List.flatMap_map]
      rfl
    rw [List.map_cons, List.cons_append, follow_cons _ (by simp), ih, List.flatMap_map,
      List.flatMap_assoc]
    simp only [hplace]

end Path

/-! ### The places of the content -/

/-- The position is one inside corresponding sections: it leads through a section for each of the
    enclosing ones, and then to something inside the last. -/
def WithinSections (nodes : List Node) (enclosing : List Tag) (position : List Nat) : Prop :=
  position.length = enclosing.length + 1 ∧
    ∀ k tag, enclosing[k]? = some tag →
      ∃ node, nodeAt nodes (position.take (k + 1)) = some node ∧ tag.corresponds node = true

/-- A position within sections is not that of the whole forest. -/
theorem WithinSections.ne_nil {nodes : List Node} {enclosing : List Tag} {position : List Nat}
    (h : WithinSections nodes enclosing position) : position ≠ [] :=
  List.ne_nil_of_length_eq_add_one h.1

/-- Within no sections is the top level. -/
theorem withinSections_nil {nodes : List Node} {position : List Nat} :
    WithinSections nodes [] position ↔ ∃ i, position = [i] := by
  simp [WithinSections, List.length_eq_one_iff]

/-- What leads through a section goes on inside it. -/
theorem nodeAt_take_cons {nodes : List Node} {i : Nat} {node : Node} (hnode : nodeAt nodes [i] = some node)
    {rest : List Nat} (hrest : rest ≠ []) (k : Nat) :
    nodeAt nodes ((i :: rest).take (k + 2)) = nodeAt node.children (rest.take (k + 1)) :=
  nodeAt_append hnode (by simpa [List.take_eq_nil_iff] using hrest)

/-- Within several sections is inside a node that corresponds to the first, within the others. -/
theorem withinSections_cons {nodes : List Node} {tag : Tag} {inner : List Tag} {position : List Nat} :
    WithinSections nodes (tag :: inner) position ↔
      ∃ i rest node, position = i :: rest ∧ nodeAt nodes [i] = some node ∧
        tag.corresponds node = true ∧ WithinSections node.children inner rest := by
  constructor
  · rintro ⟨hlength, hsections⟩
    obtain ⟨i, rest, rfl⟩ := List.exists_cons_of_length_eq_add_one hlength
    have hrest : rest.length = inner.length + 1 := by simpa using hlength
    obtain ⟨node, hnode, htag⟩ := hsections 0 tag rfl
    refine ⟨i, rest, node, rfl, hnode, htag, hrest, fun k tag' htag' => ?_⟩
    -- the sections further in are found below the first node
    rw [← nodeAt_take_cons hnode (List.ne_nil_of_length_eq_add_one hrest)]
    exact hsections (k + 1) tag' htag'
  · rintro ⟨i, rest, node, rfl, hnode, htag, hwithin⟩
    refine ⟨by rw [List.length_cons, hwithin.1, List.length_cons], fun k tag' htag' => ?_⟩
    cases k with
    | zero =>
      obtain rfl : tag = tag' := Option.some.inj htag'
      exact ⟨node, hnode, htag⟩
    | succ k =>
      rw [nodeAt_take_cons hnode hwithin.ne_nil]
      exact hwithin.2 k tag' htag'

/-- The path leads to the positions inside corresponding sections. -/
theorem Path.mem_follow_stepInto {enclosing : List Tag} {places : List Place} {x : Occurrence} :
    x ∈ follow (enclosing.map stepInto ++ [{ test := .anyNode }]) places ↔
      ∃ place ∈ places, ∃ rest, x.position = place.position ++ rest ∧
        nodeAt place.nodes rest = some x.node ∧ WithinSections place.nodes enclosing rest := by
  induction enclosing generalizing places with
  | nil =>
    show x ∈ places.flatMap ({ test := .anyNode } : Step).apply ↔ _
    simp only [List.mem_flatMap, apply_anyNode, mem_childrenFrom_iff, Nat.zero_add, withinSections_nil]
    constructor
    · rintro ⟨place, hplace, i, hposition, hnode⟩
      exact ⟨place, hplace, [i], hposition, hnode, i, rfl⟩
    · rintro ⟨place, hplace, _, hposition, hnode, i, rfl⟩
      exact ⟨place, hplace, i, hposition, hnode⟩
  | cons tag inner ih =>
    rw [List.map_cons, List.cons_append, follow_cons _ (by simp), ih]
    simp only [List.mem_map, List.mem_flatMap, apply_stepInto, List.mem_filter, mem_childrenFrom_iff,
      Nat.zero_add, withinSections_cons]
    constructor
    · -- the rest of the way starts inside the section `y`
      rintro ⟨_, ⟨y, ⟨place, hplace, ⟨i, hy, hnode⟩, htag⟩, rfl⟩, rest, hposition, hrest, hwithin⟩
      refine ⟨place, hplace, i :: rest, ?_, ?_, i, rest, y.node, rfl, hnode, htag, hwithin⟩
      · rw [hposition, Occurrence.inside, hy, List.append_assoc, List.singleton_append]
      · exact (nodeAt_append hnode hwithin.ne_nil).trans hrest
    · rintro ⟨place, hplace, _, hposition, hrest, i, rest, node, rfl, hnode, htag, hwithin⟩
      refine ⟨_, ⟨⟨place.position ++ [i], node⟩, ⟨place, hplace, ⟨i, rfl, hnode⟩, htag⟩, rfl⟩,
        rest, ?_, ?_, hwithin⟩
      · rw [hposition, Occurrence.inside, List.append_assoc, List.singleton_append]
      · exact (nodeAt_append hnode hwithin.ne_nil).symm.trans hrest

/-! ### The content -/

/-- **The content of sections.**  The path to what stands inside the sections that correspond to
    enclosing ones selects their content, one section after the other.  The places it leads to are
    those inside such sections, each of them once, in document order. -/
theorem contentOf_inside_sections (enclosing : List Tag) (nodes : List Node) :
    (Path.contentOf enclosing).select nodes = sectionContent enclosing nodes ∧
    (∀ x, x ∈ (Path.contentOf enclosing).occurrences nodes ↔
      nodeAt nodes x.position = some x.node ∧ WithinSections nodes enclosing x.position) ∧
    ((Path.contentOf enclosing).occurrences nodes).Pairwise Occurrence.Before ∧
    ((Path.contentOf enclosing).occurrences nodes).Pairwise (·.position ≠ ·.position) := by
  have hordered : ((Path.contentOf enclosing).occurrences nodes).Pairwise Occurrence.Before := by
    -- the path is made of child steps
    refine (Path.flat_of_child (fun step hstep => ?_) nodes).pairwise_occurrences
    have hstep := List.dropLast_subset _ hstep
    rcases List.mem_append.mp hstep with hstep | hstep
    · obtain ⟨tag, -, rfl⟩ := List.mem_map.mp hstep
      rfl
    · rw [List.mem_singleton.mp hstep]
  refine ⟨?_, fun x => ?_, hordered, hordered.imp Occurrence.Before.position_ne⟩
  · have hselect := Path.map_node_follow_stepInto enclosing [⟨[], nodes⟩]
    rwa [List.flatMap_singleton] at hselect
  · rw [Path.occurrences, Path.contentOf, Path.mem_follow_stepInto]
    simp

end InheritDoc
