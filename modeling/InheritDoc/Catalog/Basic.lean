import InheritDoc.Catalog.Ancestry
import InheritDoc.Element.Descriptor
import InheritDoc.Id.Target

namespace InheritDoc

/-!
# The catalog of elements

* `Entry`   : a declared type or member under its id, with the ids it may inherit from;
* `Catalog` : the entries, one per id, the hierarchy of the types, and their members;
* `Catalog.find?` : the id of the entry that a documentation id points to.
-/

/-- A type or member of the catalog.  `owner` is the type a member is listed under and `declaring`
    the type that declares it; types have neither. -/
structure Entry where
  id : String
  descriptor : Descriptor
  owner : Option String := none
  declaring : Option String := none
  bases : List String := []
  deriving Inhabited

namespace Entry

/-- The entry is a type. -/
def isType (e : Entry) : Bool :=
  e.descriptor.kind.isType

/-- The entry is a member that its owner inherits from another type. -/
def isInherited (e : Entry) : Bool :=
  e.owner.isSome && e.declaring.isSome && e.owner != e.declaring

/-- The documentation id of the entry. -/
def docId (e : Entry) : String :=
  String.singleton e.descriptor.kind.letter.toChar ++ ":" ++ e.id

end Entry

/-- The elements of an analysed program.  `listing` is an index of the members: the id of a type next
    to that of a member listed under it. -/
structure Catalog where
  entries : List Entry := []
  hierarchy : Hierarchy := []
  listing : List (String × String) := []
  deriving Inhabited

namespace Catalog

/-- The entry under an id. -/
def lookup (c : Catalog) (id : String) : Option Entry :=
  c.entries.find? (·.id = id)

/-- All ids in increasing order. -/
def ids (c : Catalog) : List String :=
  (c.entries.map (·.id)).mergeSort

/-- The ids that an element may inherit documentation from; none for an unknown id. -/
def basesOf (c : Catalog) (id : String) : List String :=
  ((c.lookup id).map (·.bases)).getD []

/-- The ancestors of a type, nearest first; none for an unknown id. -/
def ancestorsOf (c : Catalog) (id : String) : List String :=
  c.hierarchy.ancestors id

/-- The member is listed under the type. -/
def hasMember (c : Catalog) (type member : String) : Bool :=
  c.listing.contains (type, member)

/-- The members listed under a type, in increasing order of their ids. -/
def membersOf (c : Catalog) (type : String) : List String :=
  ((c.listing.filter (·.1 = type)).map (·.2)).mergeSort

/-- The id of the entry that a documentation id points to: a type, or a member listed under a
    type. -/
def find? (c : Catalog) (target : Target) : Option String :=
  match target with
  | .type id => ((c.lookup id).filter (·.isType)).map (·.id)
  | .member owner _ =>
    if (c.lookup owner).any (·.isType) ∧ c.hasMember owner target.qualifiedId then
      some target.qualifiedId
    else none

end Catalog

end InheritDoc
