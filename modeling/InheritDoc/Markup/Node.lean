import InheritDoc.Text.Blank

namespace InheritDoc.Markup

/-!
# Documentation trees

The content of a documentation entry is a list of nodes.

* `Tag`  : the name and attributes of an element;
* `Node` : a text, or an element with its children;
* `Node.isBlank`, `allBlank`      : what counts as no content;
* `Node.hasMarker`, `anyMarker`   : whether an inheritance marker occurs at any depth;
* `topElements`                   : the elements of a given name at the top level.
-/

/-- The name of the element that asks for inherited documentation. -/
def markerName : String := "inheritdoc"

/-- The name and the attributes of an element, as its start tag writes them. -/
structure Tag where
  name : String
  attributes : List (String × String) := []
  deriving DecidableEq, Repr, Inhabited

namespace Tag

/-- The value of the first attribute of that name. -/
def attribute? (tag : Tag) (name : String) : Option String :=
  tag.attributes.lookup name

/-- The element asks for inherited documentation. -/
def isMarker (tag : Tag) : Bool :=
  tag.name = markerName

end Tag

/-- A node of a documentation tree. -/
inductive Node where
  | text (content : String)
  | element (tag : Tag) (children : List Node)
  deriving Inhabited, Repr

/-! ### Equality -/

mutual

/-- Equality of nodes is decidable. -/
def Node.decEq : (a b : Node) → Decidable (a = b)
  | .text s, .text t =>
    if h : s = t then isTrue (by rw [h]) else isFalse fun e => h (Node.text.inj e)
  | .element s xs, .element t ys =>
    if hs : s = t then
      match decEqAll xs ys with
      | isTrue hx => isTrue (by rw [hs, hx])
      | isFalse hx => isFalse fun e => hx (Node.element.inj e).2
    else isFalse fun e => hs (Node.element.inj e).1
  | .text _, .element _ _ => isFalse Node.noConfusion
  | .element _ _, .text _ => isFalse Node.noConfusion

/-- Equality of lists of nodes is decidable. -/
def decEqAll : (xs ys : List Node) → Decidable (xs = ys)
  | [], [] => isTrue rfl
  | x :: xs, y :: ys =>
    match Node.decEq x y, decEqAll xs ys with
    | isTrue h, isTrue hs => isTrue (by rw [h, hs])
    | isFalse h, _ => isFalse fun e => h (List.cons.inj e).1
    | _, isFalse hs => isFalse fun e => hs (List.cons.inj e).2
  | [], _ :: _ => isFalse (by simp)
  | _ :: _, [] => isFalse (by simp)

end

instance : DecidableEq Node := Node.decEq

/-! ### Content -/

namespace Node

/-- The children of a node; a text has none. -/
def children : Node → List Node
  | .text _ => []
  | .element _ children => children

/-- A text of blanks only. -/
def isBlank : Node → Bool
  | .text s => s.toList.all Text.isBlank
  | .element _ _ => false

mutual

/-- An inheritance marker occurs in the node, at any depth. -/
def hasMarker : Node → Bool
  | .text _ => false
  | .element tag children => tag.isMarker || anyMarker children

/-- An inheritance marker occurs in one of the nodes, at any depth. -/
def anyMarker : List Node → Bool
  | [] => false
  | node :: nodes => hasMarker node || anyMarker nodes

end

mutual

/-- All the text in a node, in order. -/
def textContent : Node → String
  | .text s => s
  | .element _ children => textContents children

/-- All the text in several nodes, in order. -/
def textContents : List Node → String
  | [] => ""
  | node :: nodes => textContent node ++ textContents nodes

end

end Node

/-- There is no element and no text that is not blank. -/
def allBlank (nodes : List Node) : Bool :=
  nodes.all Node.isBlank

/-- The nodes without blank texts at the top level. -/
def dropBlanks (nodes : List Node) : List Node :=
  nodes.filter (!·.isBlank)

/-- The elements at the top level, with their children. -/
def topElements (nodes : List Node) : List (Tag × List Node) :=
  nodes.filterMap fun
    | .text _ => none
    | .element tag children => some (tag, children)

/-- The elements of one name at the top level, with their children. -/
def elementsNamed (name : String) (nodes : List Node) : List (Tag × List Node) :=
  (topElements nodes).filter (·.1.name = name)

end InheritDoc.Markup
