import InheritDoc.Json.Record
import InheritDoc.Json.Writer
import InheritDoc.Markup.Node

namespace InheritDoc.Markup

open Json (required withDefault listField)

/-!
# The JSON form of documentation trees

* `Node.toJson`, `Node.ofJson?` : an object with the one field `element` or `text`;
* `treeToJson`, `treeOfJson?`   : an object with the field `nodes`.
-/

/-- The JSON form of attributes: pairs in order. -/
def attributesToJson (attributes : List (String × String)) : List Json :=
  attributes.map fun (key, value) => .arr [.str key, .str value]

mutual

/-- The JSON form of a node. -/
def Node.toJson : Node → Json
  | .text s => .obj [("text", .str s)]
  | .element tag children =>
    .obj [("element", .obj ([("name", .str tag.name)]
      ++ listField "attributes" (attributesToJson tag.attributes)
      ++ listField "children" (nodesToJson children)))]

/-- The JSON forms of several nodes. -/
def nodesToJson : List Node → List Json
  | [] => []
  | node :: nodes => node.toJson :: nodesToJson nodes

end

/-- The element of a JSON form, given how to read its children. -/
def elementOfJson? (child? : Json → Option Node) (j : Json) : Option (Tag × List Node) := do
  match ← j.fields? ["name", "attributes", "children"] with
  | [name, attributes, children] =>
    let name ← required Json.string? name
    let attributes ← withDefault [] (Json.list? Json.stringPair?) attributes
    let children ← withDefault [] (Json.list? child?) children
    return (⟨name, attributes⟩, children)
  | _ => none

/-- The node of a JSON form, descending at most so many levels. -/
def Node.read : Nat → Json → Option Node
  | _, .obj [("text", .str s)] => some (.text s)
  | n + 1, .obj [("element", j)] =>
    (elementOfJson? (Node.read n) j).map fun (tag, children) => .element tag children
  | _, _ => none

/-- The node of a JSON form. -/
def Node.ofJson? (j : Json) : Option Node :=
  Node.read (j.depth + 1) j

/-- The JSON form of a tree. -/
def treeToJson (nodes : List Node) : Json :=
  .obj [("nodes", .arr (nodesToJson nodes))]

/-- The tree of a JSON form. -/
def treeOfJson? (j : Json) : Option (List Node) := do
  match ← j.fields? ["nodes"] with
  | [nodes] => required (Json.list? Node.ofJson?) nodes
  | _ => none

end InheritDoc.Markup
