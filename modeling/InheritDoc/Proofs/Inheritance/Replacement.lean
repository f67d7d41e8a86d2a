import InheritDoc.Inheritance.Expansion
import InheritDoc.Proofs.Markup.Forest

namespace InheritDoc

open Markup (Tag Node)

/-!
# Forests with their markers replaced

What `expandNodes` does to a forest, apart from where the new nodes come from.

* `outermostMarkers`     : the markers that are not inside another marker;
* `Replaced new`         : one forest is another one with every outermost marker replaced in place
  by nodes that `new` admits for it, and with everything else unchanged;
* `expandNodes_text`, `expandNodes_marker`, `expandNodes_element` : the expansion of a forest, by the
  form of its first node.
-/

/-! ### Outermost markers -/

mutual

/-- The markers in a node that are not inside another marker, in document order. -/
def outermostMarkersIn : Node → List Tag
  | .text _ => []
  | .element tag children => if tag.isMarker then [tag] else outermostMarkers children

/-- The markers of a forest that are not inside another marker, in document order. -/
def outermostMarkers : List Node → List Tag
  | [] => []
  | node :: nodes => outermostMarkersIn node ++ outermostMarkers nodes

end

/-- `Replaced new sections nodes nodes'` : `nodes'` are the `nodes` with every outermost marker
    replaced in place by nodes that `new` admits for it.  `sections` are the elements around the
    nodes, from the outermost inwards, and `new` is told those around the marker. -/
inductive Replaced (new : List Tag → Tag → List Node → Prop) :
    List Tag → List Node → List Node → Prop
  | nil {sections : List Tag} : Replaced new sections [] []
  | text {sections : List Tag} {content : String} {nodes nodes' : List Node}
      (hnodes : Replaced new sections nodes nodes') :
      Replaced new sections (.text content :: nodes) (.text content :: nodes')
  | marker {sections : List Tag} {tag : Tag} {children out nodes nodes' : List Node}
      (htag : tag.isMarker = true) (hout : new sections tag out)
      (hnodes : Replaced new sections nodes nodes') :
      Replaced new sections (.element tag children :: nodes) (out ++ nodes')
  | element {sections : List Tag} {tag : Tag} {children children' nodes nodes' : List Node}
      (htag : tag.isMarker = false) (hchildren : Replaced new (sections ++ [tag]) children children')
      (hnodes : Replaced new sections nodes nodes') :
      Replaced new sections (.element tag children :: nodes) (.element tag children' :: nodes')

/-- A weaker condition on the new nodes admits what a stronger one admits. -/
theorem Replaced.mono {new new' : List Tag → Tag → List Node → Prop} {sections : List Tag}
    {nodes nodes' : List Node} (hnew : ∀ sections tag out, new sections tag out → new' sections tag out)
    (h : Replaced new sections nodes nodes') : Replaced new' sections nodes nodes' := by
  induction h with
  | nil => exact .nil
  | text _ ih => exact .text ih
  | marker htag hout _ ih => exact .marker htag (hnew _ _ _ hout) ih
  | element htag _ _ ihc ihn => exact .element htag ihc ihn

/-- Where there is no marker, nothing is replaced. -/
theorem Replaced.eq_of_anyMarker_eq_false {new : List Tag → Tag → List Node → Prop}
    {sections : List Tag} {nodes nodes' : List Node} (h : Replaced new sections nodes nodes')
    (hnodes : Node.anyMarker nodes = false) : nodes' = nodes := by
  induction h with
  | nil => rfl
  | text _ ih => rw [ih (by simpa [Node.anyMarker, Node.hasMarker] using hnodes)]
  | marker htag _ _ _ => simp [Node.anyMarker, Node.hasMarker, htag] at hnodes
  | element _ _ _ ihc ihn =>
    simp only [Node.anyMarker, Node.hasMarker, Bool.or_eq_false_iff] at hnodes
    rw [ihc hnodes.1.2, ihn hnodes.2]

/-- If no new node has a marker, then none is left. -/
theorem Replaced.anyMarker_eq_false {new : List Tag → Tag → List Node → Prop} {sections : List Tag}
    {nodes nodes' : List Node}
    (hnew : ∀ sections tag out, new sections tag out → Node.anyMarker out = false)
    (h : Replaced new sections nodes nodes') : Node.anyMarker nodes' = false := by
  induction h with
  | nil => rfl
  | text _ ih => simpa [Node.anyMarker, Node.hasMarker] using ih
  | marker _ hout _ ih =>
    rw [Node.anyMarker_eq_any] at ih ⊢
    rw [List.any_append, ih, ← Node.anyMarker_eq_any, hnew _ _ _ hout, Bool.false_or]
  | element htag _ _ ihc ihn => simp [Node.anyMarker, Node.hasMarker, htag, ihc, ihn]

/-! ### Expansion -/

variable {σ : Type} {replace : List Tag → Tag → σ → List Node × σ}

/-- Unfolding lemma: a text stays. -/
theorem expandNodes_text (sections : List Tag) (content : String) (nodes : List Node) (s : σ) :
    expandNodes replace sections (.text content :: nodes) s
      = (.text content :: (expandNodes replace sections nodes s).1,
          (expandNodes replace sections nodes s).2) := by
  simp [expandNodes, expandNode]

/-- Unfolding lemma: a marker gives way to its replacement, and the children of the marker with
    it. -/
theorem expandNodes_marker {tag : Tag} (htag : tag.isMarker = true) (sections : List Tag)
    (children nodes : List Node) (s : σ) :
    expandNodes replace sections (.element tag children :: nodes) s
      = ((replace sections tag s).1 ++ (expandNodes replace sections nodes (replace sections tag s).2).1,
          (expandNodes replace sections nodes (replace sections tag s).2).2) := by
  simp [expandNodes, expandNode, htag]

/-- Unfolding lemma: any other element stays and is a section around its children. -/
theorem expandNodes_element {tag : Tag} (htag : tag.isMarker = false) (sections : List Tag)
    (children nodes : List Node) (s : σ) :
    expandNodes replace sections (.element tag children :: nodes) s
      = (.element tag (expandNodes replace (sections ++ [tag]) children s).1 ::
            (expandNodes replace sections nodes
              (expandNodes replace (sections ++ [tag]) children s).2).1,
          (expandNodes replace sections nodes
            (expandNodes replace (sections ++ [tag]) children s).2).2) := by
  simp [expandNodes, expandNode, htag]

/-- Nothing happens where there is no marker. -/
theorem expandNodes_of_anyMarker_eq_false {sections : List Tag} {nodes : List Node} (s : σ)
    (h : Node.anyMarker nodes = false) : expandNodes replace sections nodes s = (nodes, s) := by
  induction nodes using Node.forest_induction generalizing sections s with
  | nil => rfl
  | text content nodes ih =>
    rw [expandNodes_text, ih s (by simpa [Node.anyMarker, Node.hasMarker] using h)]
  | element tag children nodes ihc ihn =>
    simp only [Node.anyMarker, Node.hasMarker, Bool.or_eq_false_iff] at h
    rw [expandNodes_element h.1.1, ihc s h.1.2, ihn s h.2]

end InheritDoc
