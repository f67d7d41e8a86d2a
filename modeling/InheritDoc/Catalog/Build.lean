import InheritDoc.Catalog.Basic
import InheritDoc.Element.Json
import InheritDoc.Id.Encode

namespace InheritDoc

/-!
# Building the catalog

`Catalog.build` indexes declarations in any order.

* Of several declarations of one type the one with most members is kept, then the one whose JSON
  text comes first.
* Of several members of one type with one id the one declared on the type itself is kept, then the
  one declared on the nearest ancestor.
* Of several elements with one id types come first, then members in the order of their owners.
-/

/-! ### One per key -/

/-- Of the items with one key keep the first. -/
def firstPerKey {α : Type} (key : α → String) : List α → List α
  | [] => []
  | a :: as => a :: (firstPerKey key as).filter (key · ≠ key a)

/-! ### Types -/

/-- A declaration with the id of the declared type and its JSON text. -/
structure DeclaredType where
  id : String
  text : String
  declaration : Declaration
  deriving Inhabited

namespace DeclaredType

/-- A declaration with its id. -/
def of (d : Declaration) : Except EncodeError DeclaredType := do
  return ⟨← d.descriptor.encode, d.text, d⟩

/-- By id, then with more members, then by JSON text. -/
def precedes (a b : DeclaredType) : Bool :=
  if a.id ≠ b.id then a.id < b.id
  else if a.declaration.members.length ≠ b.declaration.members.length then
    b.declaration.members.length < a.declaration.members.length
  else a.text ≤ b.text

/-- The hierarchy links of the declared type. -/
def links (t : DeclaredType) : Except EncodeError Links := do
  let base ← t.declaration.base.mapM TypeRef.declarationId
  let interfaces ← t.declaration.interfaces.mapM TypeRef.declarationId
  return ⟨base, interfaces⟩

/-- The entry of the declared type. -/
def entry (t : DeclaredType) (links : Links) : Entry where
  id := t.id
  descriptor := t.declaration.descriptor
  bases := links.parents

end DeclaredType

/-! ### Members -/

/-- A member that competes for its id on a type.  The rank is `0` for a member declared on the type
    itself and `k + 1` for one declared on ancestor `k`; other members come after those. -/
structure RankedMember where
  owner : String
  localId : String
  declaring : String
  rank : Nat
  descriptor : Descriptor
  deriving Inhabited

namespace RankedMember

/-- The id of the member with its owner. -/
def id (m : RankedMember) : String :=
  m.owner ++ "." ++ m.localId

/-- A member of a type with the given ancestors. -/
def of (owner : String) (ancestors : List String) (d : Descriptor) :
    Except EncodeError RankedMember := do
  let localId ← d.encode
  let declaring ← match d.enclosing with
    | none => pure owner
    | some enclosing => enclosing.encode
  let rank := if declaring = owner then 0 else ancestors.idxOf declaring + 1
  return ⟨owner, localId, declaring, rank, d⟩

/-- By id, then by rank, then by declaring type. -/
def precedes (a b : RankedMember) : Bool :=
  if a.id ≠ b.id then a.id < b.id
  else if a.rank ≠ b.rank then a.rank < b.rank
  else a.declaring ≤ b.declaring

/-- The members of a declared type, one per id, in increasing order of their ids. -/
def ofType (hierarchy : Hierarchy) (t : DeclaredType) : Except EncodeError (List RankedMember) := do
  let members ← t.declaration.members.mapM (of t.id (hierarchy.ancestors t.id))
  return firstPerKey id (members.mergeSort precedes)

/-- The member that an explicit implementation implements, if it is known. -/
def implemented (known : List String) (m : RankedMember) : Except EncodeError (List String) :=
  match m.descriptor.explicitInterface with
  | none => .ok []
  | some interface => do
    let interfaceId ← interface.declarationId
    let memberId ← { m.descriptor with explicitInterface := none }.encode
    let target := interfaceId ++ "." ++ memberId
    return if target ∈ known then [target] else []

/-- The ids that a member may inherit from: the same member on each ancestor, nearest first, then
    the one that it implements explicitly. -/
def bases (hierarchy : Hierarchy) (known : List String) (m : RankedMember) :
    Except EncodeError (List String) := do
  let inherited := ((hierarchy.ancestors m.owner).map (· ++ "." ++ m.localId)).filter fun base =>
    base ≠ m.id ∧ base ∈ known
  let implemented ← m.implemented known
  return inherited ++ implemented.filter (· ∉ inherited)

/-- The entry of a member. -/
def entry (hierarchy : Hierarchy) (known : List String) (m : RankedMember) :
    Except EncodeError Entry := do
  return {
    id := m.id
    descriptor := m.descriptor
    owner := some m.owner
    declaring := some m.declaring
    bases := ← m.bases hierarchy known }

end RankedMember

/-! ### The catalog -/

/-- The types that are kept of some declarations, in increasing order of their ids. -/
def keptTypes (declarations : List Declaration) : Except EncodeError (List DeclaredType) := do
  let types ← declarations.mapM DeclaredType.of
  return firstPerKey (·.id) (types.mergeSort DeclaredType.precedes)

/-- List members under their types, except those whose id is taken already. -/
def listMembers (taken : List String) : List RankedMember → List (String × String)
  | [] => []
  | m :: members =>
    if m.id ∈ taken then listMembers taken members
    else (m.owner, m.id) :: listMembers (m.id :: taken) members

/-- The catalog of some declarations. -/
def Catalog.build (declarations : List Declaration) : Except EncodeError Catalog := do
  let types ← keptTypes declarations
  let links ← types.mapM DeclaredType.links
  let hierarchy : Hierarchy := (types.map (·.id)).zip links
  let members := (← types.mapM (RankedMember.ofType hierarchy)).flatten
  let known := types.map (·.id) ++ members.map (·.id)
  let memberEntries ← members.mapM (RankedMember.entry hierarchy known)
  let typeEntries := types.zipWith DeclaredType.entry links
  return {
    entries := firstPerKey (·.id) (typeEntries ++ memberEntries)
    hierarchy
    listing := listMembers (types.map (·.id)) members }

end InheritDoc
