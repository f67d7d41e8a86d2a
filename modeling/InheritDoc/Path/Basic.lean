import InheritDoc.Markup.Node

namespace InheritDoc

open Markup (Tag Node)

/-!
# Paths into documentation trees

A path is a list of steps, each of which leads from nodes to some of their children or descendants.

* `Path`           : the steps;
* `Path.occurrences` : the places in a forest that a path leads to, as positions with their nodes;
* `Path.select`    : the nodes at those places;
* `Path.contentOf` : the path to what stands inside given enclosing elements.

Positions count from the top of the forest: `[i, j]` is child `j` of node `i`.
-/

/-! ### Steps -/

/-- Where a step looks for nodes. -/
inductive Axis where
  | child
  | descendant
  deriving DecidableEq, Repr

/-- Which nodes a step accepts. -/
inductive NodeTest where
  | named (name : String)
  | anyElement
  | anyNode
  | anyText
  deriving DecidableEq, Repr

/-- Which of the accepted nodes a step keeps.  Positions start at one. -/
inductive Predicate where
  | position (n : Nat)
  | hasAttribute (name : String)
  | attributeEquals (name value : String)
  deriving DecidableEq, Repr

/-- One step of a path. -/
structure Step where
  axis : Axis := .child
  test : NodeTest
  predicate : Option Predicate := none
  deriving DecidableEq, Repr

/-- A path: its steps, one after the other. -/
structure Path where
  steps : List Step
  deriving DecidableEq, Repr

/-- The test accepts a node. -/
def NodeTest.accepts : NodeTest → Node → Bool
  | .anyNode, _ => true
  | .anyText, .text _ => true
  | .anyElement, .element _ _ => true
  | .named name, .element tag _ => tag.name = name
  | _, _ => false

/-! ### Occurrences -/

/-- A node together with its position in a forest. -/
structure Occurrence where
  position : List Nat
  node : Node
  deriving Inhabited

/-- The top of a forest or the inside of a node: its position and the nodes there. -/
structure Place where
  position : List Nat
  nodes : List Node
  deriving Inhabited

/-- The inside of an occurrence. -/
def Occurrence.inside (o : Occurrence) : Place :=
  ⟨o.position, o.node.children⟩

/-- The nodes of a place, counted from `i`. -/
def childrenFrom (position : List Nat) (i : Nat) : List Node → List Occurrence
  | [] => []
  | node :: nodes => ⟨position ++ [i], node⟩ :: childrenFrom position (i + 1) nodes

mutual

/-- Everything inside a node, in document order. -/
def descendantsOf (position : List Nat) : Node → List Occurrence
  | .text _ => []
  | .element _ children => descendantsFrom position 0 children

/-- The nodes of a place, counted from `i`, each followed by everything inside it. -/
def descendantsFrom (position : List Nat) (i : Nat) : List Node → List Occurrence
  | [] => []
  | node :: nodes =>
    ⟨position ++ [i], node⟩ ::
      (descendantsOf (position ++ [i]) node ++ descendantsFrom position (i + 1) nodes)

end

/-! ### Selection -/

namespace Step

/-- Where the step looks from a place. -/
def candidates (step : Step) (place : Place) : List Occurrence :=
  match step.axis with
  | .child => childrenFrom place.position 0 place.nodes
  | .descendant => descendantsFrom place.position 0 place.nodes

/-- The occurrences that a predicate keeps of those that passed the test. -/
def keep : Option Predicate → List Occurrence → List Occurrence
  | none, os => os
  | some (.position n), os => (os.drop (n - 1)).take 1
  | some (.hasAttribute name), os => os.filter fun
    | ⟨_, .element tag _⟩ => (tag.attribute? name).isSome
    | ⟨_, .text _⟩ => false
  | some (.attributeEquals name value), os => os.filter fun
    | ⟨_, .element tag _⟩ => tag.attribute? name = some value
    | ⟨_, .text _⟩ => false

/-- The occurrences that the step leads to from a place. -/
def apply (step : Step) (place : Place) : List Occurrence :=
  keep step.predicate ((step.candidates place).filter (step.test.accepts ·.node))

end Step

namespace Path

/-- The occurrences that the steps lead to from some places. -/
def follow : List Step → List Place → List Occurrence
  | [], _ => []
  | [step], places => places.flatMap step.apply
  | step :: steps, places => follow steps ((places.flatMap step.apply).map Occurrence.inside)

/-- The places in a forest that the path leads to. -/
def occurrences (path : Path) (nodes : List Node) : List Occurrence :=
  follow path.steps [⟨[], nodes⟩]

/-- The nodes at the places that the path leads to. -/
def select (path : Path) (nodes : List Node) : List Node :=
  (path.occurrences nodes).map (·.node)

/-- The attributes that tell sections of the same name apart, in order of preference. -/
def identifyingAttributes : List String := ["name", "cref"]

/-- The step to the section that corresponds to an element. -/
def stepInto (tag : Tag) : Step where
  test := .named tag.name
  predicate := identifyingAttributes.findSome? fun key =>
    (tag.attribute? key).map fun value => .attributeEquals key value

/-- The path to what stands inside the sections that correspond to enclosing elements, given from
    the outermost inwards. -/
def contentOf (enclosing : List Tag) : Path :=
  ⟨enclosing.map stepInto ++ [{ test := .anyNode }]⟩

end Path

end InheritDoc
