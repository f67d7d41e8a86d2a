import InheritDoc.Attachment
import InheritDoc.Inheritance.Candidates
import InheritDoc.Path.Reader

namespace InheritDoc

open Markup (Tag Node allBlank)

/-!
# Expanding inheritance markers

Every marker in the documentation of an element is replaced by what it inherits.

* `Options`     : what is inherited at all;
* `Attachment.effectiveDoc` : the documentation that an element starts from;
* `plan`        : where a marker inherits from, and which part of it;
* `expandNodes` : a tree with its markers replaced, when it is known how to resolve other elements.
-/

/-! ### Options -/

/-- What is inherited: through `cref` attributes, and by inherited members without documentation. -/
structure Options where
  followCrefs : Bool := true
  inheritUndocumented : Bool := true
  deriving DecidableEq, Repr, Inhabited

/-! ### What an element starts from -/

/-- The documentation to be expanded: what is attached, or else a lone marker for an inherited
    member if the options say so. -/
def Attachment.effectiveDoc (a : Attachment) (o : Options) (e : Entry) : List Node :=
  match a.rawDoc e.id with
  | some tree => tree
  | none =>
    if o.inheritUndocumented && e.isInherited then [.element ⟨Markup.markerName, []⟩ []] else []

/-! ### Replacing markers -/

/-- Which part of inherited documentation a marker takes: what its path selects, what corresponds to
    the sections around it, or everything. -/
structure MarkerPlan where
  candidates : List String
  selection : Option Path

/-- The part of a tree that a plan takes. -/
def MarkerPlan.take (plan : MarkerPlan) (tree : List Node) : List Node :=
  match plan.selection with
  | none => tree
  | some path => path.select tree

/-- The plan of a marker inside the given sections; none if the marker is dropped, because its
    reference is not followed or its path cannot be read.  Nothing inherits from itself. -/
def plan (c : Catalog) (o : Options) (e : Entry) (sections : List Tag) (marker : Tag) :
    Option MarkerPlan :=
  if (marker.attribute? "cref").isSome && !o.followCrefs then none
  else
    let candidates := (c.candidates e marker).filter (· ≠ e.id)
    match marker.attribute? "path" with
    | some text =>
      match Path.parse text with
      | .ok path => some ⟨candidates, some path⟩
      | .error _ => none
    | none =>
      if sections.isEmpty then some ⟨candidates, none⟩
      else some ⟨candidates, some (Path.contentOf sections)⟩

/-- The documentation of the first candidate that has any. -/
def firstDocumented {σ : Type} (resolve : String → σ → List Node × σ) :
    List String → σ → Option (List Node) × σ
  | [], s => (none, s)
  | id :: ids, s =>
    let (tree, s) := resolve id s
    if allBlank tree then firstDocumented resolve ids s else (some tree, s)

/-- What a marker is replaced by. -/
def substitute {σ : Type} (resolve : String → σ → List Node × σ) (plan : Option MarkerPlan) (s : σ) :
    List Node × σ :=
  match plan with
  | none => ([], s)
  | some plan =>
    match firstDocumented resolve plan.candidates s with
    | (none, s) => ([], s)
    | (some tree, s) => (plan.take tree, s)

mutual

/-- A node with its outermost markers replaced.  `sections` are the elements around it, from the
    outermost inwards. -/
def expandNode {σ : Type} (replace : List Tag → Tag → σ → List Node × σ) (sections : List Tag) :
    Node → σ → List Node × σ
  | .text content, s => ([.text content], s)
  | .element tag children, s =>
    if tag.isMarker then replace sections tag s
    else
      let (children, s) := expandNodes replace (sections ++ [tag]) children s
      ([.element tag children], s)

/-- Nodes with their outermost markers replaced, in document order. -/
def expandNodes {σ : Type} (replace : List Tag → Tag → σ → List Node × σ) (sections : List Tag) :
    List Node → σ → List Node × σ
  | [], s => ([], s)
  | node :: nodes, s =>
    let (first, s) := expandNode replace sections node s
    let (others, s) := expandNodes replace sections nodes s
    (first ++ others, s)

end

end InheritDoc
