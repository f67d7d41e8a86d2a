import InheritDoc.Catalog.Basic
import InheritDoc.Markup.Node

namespace InheritDoc

open Markup (Tag)

/-!
# Where documentation is inherited from

* `Catalog.typeCandidates`   : the base type and the interfaces of a type;
* `Catalog.memberCandidates` : the same member on the ancestors of its type;
* `Catalog.crefCandidates`   : the element that a marker names;
* `Catalog.candidates`       : the one of these that applies to a marker.
-/

namespace Catalog

/-- What a type may inherit from; a member has no candidates here. -/
def typeCandidates (c : Catalog) (e : Entry) : List String :=
  if e.isType then c.basesOf e.id else []

/-- What a member may inherit from; a type has no candidates here. -/
def memberCandidates (c : Catalog) (e : Entry) : List String :=
  if e.isType then [] else c.basesOf e.id

/-- What a reference may mean: a documentation id if it has a colon, else any reading of it. -/
def referenceTargets (cref : String) : List Target :=
  if cref.toList.contains ':' then
    match DocId.parse cref with
    | .ok id => [id.target]
    | .error _ => []
  else Target.readings cref

/-- The element that the `cref` attribute of a marker names, if it is in the catalog. -/
def crefCandidates (c : Catalog) (marker : Tag) : List String :=
  match marker.attribute? "cref" with
  | none => []
  | some cref => ((referenceTargets cref).findSome? c.find?).toList

/-- The candidates of a marker in the documentation of an element, best first. -/
def candidates (c : Catalog) (e : Entry) (marker : Tag) : List String :=
  if (marker.attribute? "cref").isSome then c.crefCandidates marker
  else if e.isType then c.typeCandidates e
  else c.memberCandidates e

end Catalog

end InheritDoc
