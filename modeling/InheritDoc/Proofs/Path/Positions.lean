import InheritDoc.Path.Basic
import InheritDoc.Proofs.Markup.Forest
import Mathlib.Data.List.Lex

namespace InheritDoc

open Markup (Node)

/-!
# Positions in a forest

* `nodeAt`                   : the node at a position of a forest;
* `Occurrence.Before`        : document order, as an order of positions;
* `Occurrence.Encloses`      : one occurrence is inside another one;
* `mem_childrenFrom_iff`, `mem_descendantsFrom_iff` : the positions that the axes lead to;
* `pairwise_childrenFrom`, `pairwise_descendantsFrom` : they are listed in document order.
-/

/-! ### Positions -/

/-- The node at a position of a forest. -/
def nodeAt : List Node → List Nat → Option Node
  | _, [] => none
  | nodes, [i] => nodes[i]?
  | nodes, i :: j :: rest => nodes[i]?.bind fun node => nodeAt node.children (j :: rest)

theorem nodeAt_nil (position : List Nat) : nodeAt [] position = none := by
  match position with
  | [] => rfl
  | [_] => rfl
  | _ :: _ :: _ => rfl

theorem nodeAt_cons_zero (node : Node) (nodes : List Node) (j : Nat) (rest : List Nat) :
    nodeAt (node :: nodes) (0 :: j :: rest) = nodeAt node.children (j :: rest) := rfl

/-- All other positions are in the other trees. -/
theorem nodeAt_cons_succ (node : Node) (nodes : List Node) (i : Nat) (rest : List Nat) :
    nodeAt (node :: nodes) ((i + 1) :: rest) = nodeAt nodes (i :: rest) := by
  cases rest with
  | nil => rw [nodeAt, nodeAt, List.getElem?_cons_succ]
  | cons j rest => rw [nodeAt, nodeAt, List.getElem?_cons_succ]

/-- Inside the node at a position the positions of the forest go on. -/
theorem nodeAt_append {nodes : List Node} {position rest : List Nat} {node : Node}
    (h : nodeAt nodes position = some node) (hrest : rest ≠ []) :
    nodeAt nodes (position ++ rest) = nodeAt node.children rest := by
  obtain ⟨j, rest, rfl⟩ := List.exists_cons_of_ne_nil hrest
  fun_induction nodeAt nodes position with
  | case1 nodes => cases h
  | case2 nodes i =>
    show nodeAt nodes (i :: j :: rest) = _
    rw [nodeAt, h, Option.bind_some]
  | case3 nodes i k position ih =>
    -- the position starts with a parent, below which the rest of it is looked up
    obtain ⟨parent, hparent, hnode⟩ := Option.bind_eq_some_iff.mp h
    show nodeAt nodes (i :: k :: (position ++ j :: rest)) = _
    rw [nodeAt, hparent, Option.bind_some]
    exact ih parent hnode

/-- Induction over forests: what stands inside the first node is a forest of its own. -/
@[elab_as_elim]
theorem Markup.Node.children_induction {motive : List Node → Prop} (nil : motive [])
    (cons : ∀ node nodes, motive node.children → motive nodes → motive (node :: nodes))
    (nodes : List Node) : motive nodes := by
  induction nodes using Node.forest_induction with
  | nil => exact nil
  | text content nodes ih => exact cons (.text content) nodes nil ih
  | element tag children nodes ihc ihn => exact cons (.element tag children) nodes ihc ihn

/-! ### Document order -/

/-- Document order: a node comes before what is inside it, and both before what follows the node. -/
def Occurrence.Before (x y : Occurrence) : Prop :=
  List.Lex (· < ·) x.position y.position

/-- The second occurrence is inside the first one. -/
def Occurrence.Encloses (x y : Occurrence) : Prop :=
  x.position ≠ y.position ∧ x.position <+: y.position

instance : DecidableRel Occurrence.Before := fun x y =>
  inferInstanceAs (Decidable (List.Lex (· < ·) x.position y.position))

instance : DecidableRel Occurrence.Encloses := fun x y =>
  inferInstanceAs (Decidable (x.position ≠ y.position ∧ x.position <+: y.position))

instance : Std.Asymm Occurrence.Before where
  asymm _ _ h h' := Std.Asymm.asymm (r := List.Lex (· < ·)) _ _ h h'

/-- Nothing stands before itself. -/
theorem Occurrence.Before.position_ne {x y : Occurrence} (h : x.Before y) :
    x.position ≠ y.position := by
  intro heq
  unfold Occurrence.Before at h
  rw [heq] at h
  exact irrefl_of (List.Lex (· < ·)) _ h

/-- A position comes before those below it. -/
theorem lex_append_cons (position : List Nat) (i : Nat) (rest : List Nat) :
    List.Lex (· < ·) position (position ++ i :: rest) := by
  have h := List.Lex.append_left (· < ·) (List.Lex.nil (a := i) (l := rest)) position
  rwa [List.append_nil] at h

/-- The order of two positions goes on below them, unless the second is below the first. -/
theorem lex_append_append {p q : List Nat} (h : List.Lex (· < ·) p q) (hpq : ¬ p <+: q)
    (rest rest' : List Nat) : List.Lex (· < ·) (p ++ rest) (q ++ rest') := by
  induction h with
  | nil => exact absurd List.nil_prefix hpq
  | cons _ ih =>
    refine .cons (ih fun hprefix => hpq ?_)
    exact (List.prefix_cons_inj _).mpr hprefix
  | rel hlt => exact .rel hlt

/-! ### The axes -/

/-- Children are numbered from the given number on. -/
theorem mem_childrenFrom_iff {position : List Nat} {i : Nat} {nodes : List Node} {x : Occurrence} :
    x ∈ childrenFrom position i nodes ↔
      ∃ k, x.position = position ++ [i + k] ∧ nodeAt nodes [k] = some x.node := by
  induction nodes generalizing i with
  | nil => simp [childrenFrom, nodeAt_nil]
  | cons node nodes ih =>
    rw [childrenFrom, List.mem_cons, ih]
    constructor
    · rintro (rfl | ⟨k, hposition, hnode⟩)
      · exact ⟨0, rfl, rfl⟩
      · refine ⟨k + 1, ?_, ?_⟩
        · rw [hposition, Nat.add_right_comm, Nat.add_assoc]
        · rw [nodeAt_cons_succ, hnode]
    · -- the first tree, or one of those after it
      rintro ⟨k | k, hposition, hnode⟩
      · left
        obtain ⟨_, _⟩ := x
        cases hposition
        cases hnode
        rfl
      · right
        refine ⟨k, ?_, ?_⟩
        · rw [hposition, Nat.add_right_comm, Nat.add_assoc]
        · rw [← nodeAt_cons_succ node, hnode]

/-- The nodes inside a node are those of the forest of its children. -/
theorem descendantsOf_eq (position : List Nat) (node : Node) :
    descendantsOf position node = descendantsFrom position 0 node.children := by
  cases node with
  | text content => rfl
  | element tag children => rfl

/-- Descendants are all nodes, with the trees numbered from the given number on. -/
theorem mem_descendantsFrom_iff {position : List Nat} {i : Nat} {nodes : List Node}
    {x : Occurrence} :
    x ∈ descendantsFrom position i nodes ↔
      ∃ k rest, x.position = position ++ (i + k) :: rest ∧
        nodeAt nodes (k :: rest) = some x.node := by
  induction nodes using Node.children_induction generalizing position i with
  | nil => simp [descendantsFrom, nodeAt_nil]
  | cons node nodes ihc ihn =>
    rw [descendantsFrom, descendantsOf_eq, List.mem_cons, List.mem_append, ihc, ihn]
    constructor
    · rintro (rfl | ⟨k, rest, hposition, hnode⟩ | ⟨k, rest, hposition, hnode⟩)
      · exact ⟨0, [], rfl, rfl⟩
      · refine ⟨0, k :: rest, ?_, ?_⟩
        · rw [hposition, List.append_assoc, Nat.zero_add]
          rfl
        · rw [nodeAt_cons_zero, hnode]
      · refine ⟨k + 1, rest, ?_, ?_⟩
        · rw [hposition, Nat.add_right_comm, Nat.add_assoc]
        · rw [nodeAt_cons_succ, hnode]
    · -- the position says whether it is the first node, inside it, or after it
      rintro ⟨k | k, rest, hposition, hnode⟩
      · cases rest with
        | nil =>
          left
          obtain ⟨_, _⟩ := x
          cases hposition
          cases hnode
          rfl
        | cons j rest =>
          right; left
          refine ⟨j, rest, ?_, ?_⟩
          · rw [hposition, List.append_assoc, Nat.zero_add]
            rfl
          · rw [← nodeAt_cons_zero node nodes, hnode]
      · right; right
        refine ⟨k, rest, ?_, ?_⟩
        · rw [hposition, Nat.add_right_comm, Nat.add_assoc]
        · rw [← nodeAt_cons_succ node, hnode]

/-- Children are in document order. -/
theorem pairwise_childrenFrom (position : List Nat) (i : Nat) (nodes : List Node) :
    (childrenFrom position i nodes).Pairwise Occurrence.Before := by
  induction nodes generalizing i with
  | nil => exact .nil
  | cons node nodes ih =>
    refine .cons (fun x hx => ?_) (ih (i + 1))
    obtain ⟨k, hposition, -⟩ := mem_childrenFrom_iff.mp hx
    show List.Lex (· < ·) (position ++ [i]) x.position
    rw [hposition]
    exact List.Lex.append_left _ (.rel (by omega)) position

/-- The descendant axis lists a forest in document order. -/
theorem pairwise_descendantsFrom (position : List Nat) (i : Nat) (nodes : List Node) :
    (descendantsFrom position i nodes).Pairwise Occurrence.Before := by
  induction nodes using Node.children_induction generalizing position i with
  | nil => exact .nil
  | cons node nodes ihc ihn =>
    -- everything at or below `i` comes before everything that follows
    have hlater : ∀ rest, ∀ y ∈ descendantsFrom position (i + 1) nodes,
        List.Lex (· < ·) (position ++ i :: rest) y.position := by
      intro rest y hy
      obtain ⟨k, rest', hposition, -⟩ := mem_descendantsFrom_iff.mp hy
      rw [hposition]
      exact List.Lex.append_left _ (.rel (by omega)) position
    rw [descendantsFrom, descendantsOf_eq, List.pairwise_cons, List.pairwise_append]
    refine ⟨fun x hx => ?_, ihc _ _, ihn _ _, fun x hx y hy => ?_⟩
    · rcases List.mem_append.mp hx with hx | hx
      · obtain ⟨k, rest, hposition, -⟩ := mem_descendantsFrom_iff.mp hx
        show List.Lex (· < ·) (position ++ [i]) x.position
        rw [hposition]
        exact lex_append_cons _ _ _
      · exact hlater [] x hx
    · obtain ⟨k, rest, hposition, -⟩ := mem_descendantsFrom_iff.mp hx
      show List.Lex (· < ·) x.position y.position
      rw [hposition, List.append_assoc]
      exact hlater ((0 + k) :: rest) y hy

end InheritDoc
