import InheritDoc.Markup.Node

namespace InheritDoc.Markup

/-!
# Forests

Documentation is a forest: a list of nodes, each of which may have a forest of its own inside.

* `Node.forest_induction` : induction over forests, one case per form of the first node;
* `Node.Occurs`           : a node stands somewhere in a forest;
* `Node.Occurs.trans`     : what occurs inside an occurring node occurs, too;
* `Node.Occurs.hasMarker_eq_false` : where a forest has no marker, no node in it has one.
-/

/-- Induction over forests: the children of an element are a forest of their own. -/
@[elab_as_elim]
theorem Node.forest_induction {motive : List Node → Prop} (nil : motive [])
    (text : ∀ content nodes, motive nodes → motive (.text content :: nodes))
    (element : ∀ tag children nodes, motive children → motive nodes →
      motive (.element tag children :: nodes)) :
    ∀ nodes, motive nodes
  | [] => nil
  | .text content :: nodes => text content nodes (forest_induction nil text element nodes)
  | .element tag children :: nodes =>
    element tag children nodes (forest_induction nil text element children)
      (forest_induction nil text element nodes)

/-- A forest has a marker if one of its nodes has. -/
theorem Node.anyMarker_eq_any (nodes : List Node) : anyMarker nodes = nodes.any hasMarker := by
  induction nodes with
  | nil => rfl
  | cons node nodes ih => rw [anyMarker, ih, List.any_cons]

/-! ### Occurrence -/

/-- A node occurs in a forest: it is one of its nodes, or occurs among the children of one. -/
inductive Node.Occurs (node : Node) : List Node → Prop
  | here {nodes : List Node} (h : node ∈ nodes) : Occurs node nodes
  | inside {tag : Tag} {children nodes : List Node} (h : .element tag children ∈ nodes)
      (hnode : Occurs node children) : Occurs node nodes

namespace Node.Occurs

/-- A node occurs in a forest with one more node in front. -/
theorem cons {node first : Node} {nodes : List Node} (h : Occurs node nodes) :
    Occurs node (first :: nodes) := by
  cases h with
  | here h => exact .here (List.mem_cons_of_mem first h)
  | inside h hnode => exact .inside (List.mem_cons_of_mem first h) hnode

/-- What occurs among the children of an occurring node occurs, too. -/
theorem trans {node node' : Node} {nodes : List Node} (h : Occurs node nodes)
    (h' : Occurs node' node.children) : Occurs node' nodes := by
  induction h with
  | here h =>
    cases node with
    | text content =>
      cases h' with
      | here h' => exact absurd h' List.not_mem_nil
      | inside h' _ => exact absurd h' List.not_mem_nil
    | element tag children => exact .inside h h'
  | inside h _ ih => exact .inside h ih

theorem not_nil {node : Node} : ¬ Occurs node [] := by
  rintro (h | ⟨h, -⟩)
  · exact List.not_mem_nil h
  · exact List.not_mem_nil h

/-- A node occurs in a forest as its first tree, inside of it, or in the other trees. -/
theorem cons_iff {node first : Node} {nodes : List Node} :
    Occurs node (first :: nodes) ↔
      node = first ∨ Occurs node first.children ∨ Occurs node nodes := by
  constructor
  · rintro (h | ⟨h, hnode⟩)
    · rcases List.mem_cons.mp h with rfl | h
      · exact .inl rfl
      · exact .inr (.inr (.here h))
    · rcases List.mem_cons.mp h with rfl | h
      · exact .inr (.inl hnode)
      · exact .inr (.inr (.inside h hnode))
  · rintro (rfl | h | h)
    · exact .here List.mem_cons_self
    · exact (Occurs.here List.mem_cons_self).trans h
    · exact h.cons

/-- A node occurs in two forests one after the other if it occurs in one of them. -/
theorem append_iff {node : Node} {nodes nodes' : List Node} :
    Occurs node (nodes ++ nodes') ↔ Occurs node nodes ∨ Occurs node nodes' := by
  induction nodes with
  | nil => simp [not_nil]
  | cons first nodes ih => rw [List.cons_append, cons_iff, cons_iff, ih, or_assoc, or_assoc]

/-- What occurs in parts of a forest occurs in the forest. -/
theorem of_forall {node : Node} {parts nodes : List Node} (hparts : ∀ part ∈ parts, Occurs part nodes)
    (h : Occurs node parts) : Occurs node nodes := by
  cases h with
  | here h => exact hparts _ h
  | inside h hnode => exact (hparts _ h).trans hnode

/-- A node that occurs in a forest without markers has none. -/
theorem hasMarker_eq_false {node : Node} {nodes : List Node} (h : Occurs node nodes)
    (hnodes : anyMarker nodes = false) : hasMarker node = false := by
  induction h with
  | here h =>
    rw [anyMarker_eq_any, List.any_eq_false] at hnodes
    simpa using hnodes _ h
  | inside h _ ih =>
    rw [anyMarker_eq_any, List.any_eq_false] at hnodes
    have hparent := hnodes _ h
    rw [hasMarker, Bool.not_eq_true, Bool.or_eq_false_iff] at hparent
    exact ih hparent.2

end Node.Occurs

end InheritDoc.Markup
