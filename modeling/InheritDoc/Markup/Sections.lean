import InheritDoc.Markup.Writer

namespace InheritDoc.Markup

/-!
# Sections of a documentation tree

The well-known elements of a tree as fields, for readers who want no tree.

* `Sections`    : the fields; markup inside a section is kept as text;
* `Sections.of` : the sections of a tree.
-/

/-- A section that describes something named: a parameter, an exception, ... -/
structure NamedSection where
  key : String
  description : String
  deriving DecidableEq, Repr

/-- The sections of a documentation tree. -/
structure Sections where
  summary : Option String
  remarks : Option String
  returns : Option String
  value : Option String
  params : List NamedSection
  typeParams : List NamedSection
  exceptions : List NamedSection
  examples : List String
  seeAlso : List String
  raw : String
  deriving DecidableEq, Repr

namespace Sections

/-- What stands inside an element, without the blanks at its ends. -/
def content (children : List Node) : String :=
  Text.trimString (toXml children)

/-- The content of the first element of that name, unless it is empty. -/
def single (nodes : List Node) (name : String) : Option String :=
  ((elementsNamed name nodes).head?.map fun (_, children) => content children).filter (· ≠ "")

/-- The elements of that name that have the given attribute. -/
def named (nodes : List Node) (name key : String) : List NamedSection :=
  (elementsNamed name nodes).filterMap fun (tag, children) =>
    (tag.attribute? key).map fun value => ⟨value, content children⟩

/-- The sections of a tree. -/
def of (nodes : List Node) : Sections where
  summary := single nodes "summary"
  remarks := single nodes "remarks"
  returns := single nodes "returns"
  value := single nodes "value"
  params := named nodes "param" "name"
  typeParams := named nodes "typeparam" "name"
  exceptions := named nodes "exception" "cref"
  examples :=
    ((elementsNamed "example" nodes).map fun (_, children) => content children).filter (· ≠ "")
  seeAlso := (elementsNamed "seealso" nodes).filterMap fun (tag, _) => tag.attribute? "cref"
  raw := toXml nodes

/-- No section has any content. -/
def isEmpty (s : Sections) : Bool :=
  s.summary.isNone && s.remarks.isNone && s.returns.isNone && s.value.isNone &&
    s.params.isEmpty && s.typeParams.isEmpty && s.exceptions.isEmpty && s.examples.isEmpty &&
    s.seeAlso.isEmpty

end Sections

end InheritDoc.Markup
