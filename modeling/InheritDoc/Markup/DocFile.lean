import InheritDoc.Markup.Reader

namespace InheritDoc.Markup

/-!
# Compiled documentation files

A compiler writes the documentation of an assembly as one file:

    <doc>
      <assembly><name>Shop</name></assembly>
      <members><member name="T:Shop.Cart"><summary>A cart.</summary></member></members>
    </doc>

* `DocEntry`      : one member with its documentation;
* `DocFile.parse` : the name of the assembly and the entries of a file.
-/

/-- The documentation of one element, under the id as it is written. -/
structure DocEntry where
  rawId : String
  tree : List Node
  deriving DecidableEq, Inhabited

/-- A documentation file. -/
structure DocFile where
  assembly : Option String := none
  entries : List DocEntry := []
  deriving DecidableEq, Inhabited

namespace DocFile

/-- The name that an `assembly` element gives. -/
def assemblyName (children : List Node) : Option String :=
  (elementsNamed "name" children).head?.map fun (_, inner) =>
    Text.trimString (Node.textContents inner)

/-- The entry of a `member` element, if it has a name.  Blank text between its sections is
    dropped. -/
def entryOf (member : Tag × List Node) : Option DocEntry :=
  (member.1.attribute? "name").map fun rawId => ⟨rawId, dropBlanks member.2⟩

/-- The file whose root element has these children.  Of several assemblies the last counts. -/
def ofRoot (children : List Node) : DocFile where
  assembly := (elementsNamed "assembly" children).getLast?.bind fun (_, inner) => assemblyName inner
  entries := (elementsNamed "members" children).flatMap fun (_, inner) =>
    (elementsNamed "member" inner).filterMap entryOf

/-- The file that a text denotes. -/
def parse (text : String) : Except (ReadError Nat) DocFile := do
  let (_, children) ← parseDocument text
  return ofRoot children

end DocFile

end InheritDoc.Markup
