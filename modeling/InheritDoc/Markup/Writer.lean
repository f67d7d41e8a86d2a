import InheritDoc.Markup.Entity
import InheritDoc.Markup.Node

namespace InheritDoc.Markup

/-!
# Writing documentation trees

* `Node.write`, `writeAll` : the characters of nodes as markup;
* `toXml`                  : the same as a string.
-/

/-- The attributes of a start tag, each after a blank. -/
def writeAttributes (attributes : List (String × String)) : List Char :=
  attributes.flatMap fun (key, value) =>
    ' ' :: (key.toList ++ '=' :: '"' :: (escape true value.toList ++ ['"']))

mutual

/-- The characters of a node as markup.  An element without children is one tag. -/
def Node.write : Node → List Char
  | .text s => escape false s.toList
  | .element tag children =>
    '<' :: (tag.name.toList ++ writeAttributes tag.attributes ++
      match children with
      | [] => [' ', '/', '>']
      | child :: more =>
        '>' :: (Node.write child ++ writeAll more ++ '<' :: '/' :: (tag.name.toList ++ ['>'])))

/-- The characters of several nodes as markup, one after the other. -/
def writeAll : List Node → List Char
  | [] => []
  | node :: nodes => Node.write node ++ writeAll nodes

end

/-- Nodes as markup. -/
def toXml (nodes : List Node) : String :=
  String.ofList (writeAll nodes)

end InheritDoc.Markup
