import InheritDoc.Markup.Token

namespace InheritDoc.Markup

/-!
# Reading documentation trees

* `Builder`, `Builder.step` : the nodes read so far and the elements still open, token by token;
* `readNodes`     : the nodes of a text, or the first fault;
* `parseFragment` : the nodes of a string, with places counted in bytes;
* `parseDocument` : the first element of a string.
-/

/-! ### Building nodes from tokens -/

/-- What has been read: the nodes of the innermost open element, newest first, and the open elements
    from the innermost outwards, each with the nodes before it. -/
structure Builder where
  nodes : List Node := []
  opened : List (Tag × List Node) := []
  deriving Inhabited, DecidableEq

/-- Add a text after the newest node; texts that touch are one node. -/
def pushText (content : List Char) : List Node → List Node
  | .text previous :: nodes => .text (previous ++ String.ofList content) :: nodes
  | nodes => .text (String.ofList content) :: nodes

namespace Builder

/-- Read one more token. -/
def step (b : Builder) : Token → Except Fault Builder
  | .text content => .ok { b with nodes := pushText content b.nodes }
  | .single tag => .ok { b with nodes := .element tag [] :: b.nodes }
  | .start tag => .ok { nodes := [], opened := (tag, b.nodes) :: b.opened }
  | .closing name place =>
    match b.opened with
    | [] => .error (.malformed place (.unexpectedClosing name))
    | (tag, before) :: outer =>
      if tag.name = name then
        .ok { nodes := .element tag b.nodes.reverse :: before, opened := outer }
      else .error (.mismatchedTag place tag.name name)

/-- The nodes read, if no element is left open. -/
def finish (b : Builder) : Except Fault (List Node) :=
  if b.opened.isEmpty then .ok b.nodes.reverse else .error (.unexpectedEnd .element)

end Builder

/-- The nodes of a text.  Of two faults the one that stands first counts. -/
def readNodes (cs : List Char) : Except Fault (List Node) := do
  let (tokens, fault) := scan cs
  let builder ← tokens.foldlM Builder.step {}
  match fault with
  | some fault => throw fault
  | none => builder.finish

/-! ### Strings -/

/-- The number of bytes of a text in UTF-8. -/
def byteSize : List Char → Nat
  | [] => 0
  | c :: cs => c.utf8Size + byteSize cs

/-- The nodes of a string; an error tells its place as a number of bytes from the start. -/
def parseFragment (text : String) : Except (ReadError Nat) (List Node) :=
  let cs := text.toList
  (readNodes cs).mapError fun fault => fault.map fun rest => byteSize cs - byteSize rest

/-- The first element of a string. -/
def parseDocument (text : String) : Except (ReadError Nat) (Tag × List Node) := do
  match topElements (← parseFragment text) with
  | [] => throw .noRoot
  | root :: _ => return root

end InheritDoc.Markup
