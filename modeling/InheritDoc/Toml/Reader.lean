import InheritDoc.Toml.Lexeme
import InheritDoc.Toml.Table

namespace InheritDoc.Toml

/-!
# Reading TOML

* `Statement` : a line of a text: an assignment or a table header;
* `readValue` : a value, with the arrays and inline tables in it;
* `parse`     : the object that a text denotes, or nothing if it is no TOML text.
-/

/-! ### Values -/

/-- The object that assignments in braces denote. -/
def inlineTable? (assignments : List (List String × Json)) : Option Json :=
  (assignments.foldlM (fun fields (key, json) => assign json key fields) []).map fun fields =>
    .obj (Part.fieldsToJson fields)

/-- The text after what may stand between the parts of an inline table. -/
def skipInBraces (e : Edition) (cs : List Char) : List Char :=
  if e.hasOpenBraces then skipGaps cs else skipBlanks cs

mutual

/-- A value in which arrays and inline tables are nested at most `levels` deep; the counter bounds
    the number of readers entered. -/
def readValue (e : Edition) : Nat → Nat → List Char → Option (Json × List Char)
  | 0, _, _ => none
  | n + 1, levels, cs =>
    match cs, levels with
    | '[' :: _, 0 | '{' :: _, 0 => none
    | '[' :: rest, levels + 1 =>
      (readItems e n levels (skipGaps rest)).map fun (items, rest) => (.arr items, rest)
    | '{' :: rest, levels + 1 =>
      match skipInBraces e rest with
      | '}' :: rest => some (.obj [], rest)
      | rest => do
        let (assignments, rest) ← readAssignments e n levels rest
        return (← inlineTable? assignments, rest)
    | '"' :: _, _ | '\'' :: _, _ => (readString e cs).map fun (text, rest) => (.str text, rest)
    | _, _ => readScalar e cs

/-- The items of an array up to its closing bracket, which a comma may precede. -/
def readItems (e : Edition) : Nat → Nat → List Char → Option (List Json × List Char)
  | 0, _, _ => none
  | _ + 1, _, ']' :: rest => some ([], rest)
  | n + 1, levels, cs => do
    let (item, rest) ← readValue e n levels cs
    match skipGaps rest with
    | ',' :: rest =>
      let (items, rest) ← readItems e n levels (skipGaps rest)
      return (item :: items, rest)
    | ']' :: rest => return ([item], rest)
    | _ => none

/-- The assignments of an inline table up to its closing brace, at least one. -/
def readAssignments (e : Edition) :
    Nat → Nat → List Char → Option (List (List String × Json) × List Char)
  | 0, _, _ => none
  | n + 1, levels, cs => do
    let (key, rest) ← readKey e cs
    match skipInBraces e rest with
    | '=' :: rest =>
      let (json, rest) ← readValue e n levels (skipInBraces e rest)
      match skipInBraces e rest with
      | '}' :: rest => return ([(key, json)], rest)
      | ',' :: rest =>
        match e.hasOpenBraces, skipInBraces e rest with
        | true, '}' :: rest => return ([(key, json)], rest)
        | _, rest =>
          let (assignments, rest) ← readAssignments e n levels rest
          return ((key, json) :: assignments, rest)
      | _ => none
    | _ => none

end

/-! ### Statements -/

/-- What a line says. -/
inductive Statement where
  | assignment (key : List String) (json : Json)
  | table (key : List String)
  | tableItem (key : List String)
  deriving Inhabited

/-- The statement at the start of a line. -/
def readStatement (e : Edition) (cs : List Char) : Option (Statement × List Char) := do
  match cs with
  | '[' :: '[' :: rest =>
    match ← readKey e rest with
    | (key, ']' :: ']' :: rest) => return (.tableItem key, rest)
    | _ => none
  | '[' :: rest =>
    match ← readKey e rest with
    | (key, ']' :: rest) => return (.table key, rest)
    | _ => none
  | _ =>
    match ← readKey e cs with
    | (key, '=' :: rest) =>
      let (json, rest) ← readValue e (2 * rest.length + 1) e.nesting (skipBlanks rest)
      return (.assignment key json, rest)
    | _ => none

/-- The statements of a text, one a line; the counter bounds the number of lines. -/
def readStatements (e : Edition) : Nat → List Char → Option (List Statement)
  | 0, _ => none
  | n + 1, cs =>
    match skipGaps cs with
    | [] => some []
    | '#' :: _ => (endLine? (skipGaps cs)).bind fun rest => if rest.isEmpty then some [] else none
    | cs => do
      let (statement, rest) ← readStatement e cs
      return statement :: (← readStatements e n (← endLine? rest))

/-! ### Meaning -/

/-- The names that lead to a table, and its own name. -/
def splitLast? (key : List String) : Option (List String × String) :=
  key.getLast?.map (key.dropLast, ·)

/-- Carry out statements.  `place` is the key of the table that assignments go to. -/
def execute (place : List String) (fields : Fields) : List Statement → Option Fields
  | [] => some fields
  | .assignment key json :: rest => do
    execute place (← within (assign json key) place fields) rest
  | .table key :: rest => do
    let (above, name) ← splitLast? key
    execute key (← within (openTable name) above fields) rest
  | .tableItem key :: rest => do
    let (above, name) ← splitLast? key
    execute key (← within (appendTable name) above fields) rest

/-- The object that a text denotes.  A byte order mark before the text is skipped. -/
def parse (e : Edition) (text : String) : Option Json := do
  let cs := match text.toList with
    | '\ufeff' :: rest => rest
    | cs => cs
  let statements ← readStatements e (cs.length + 1) cs
  return .obj (Part.fieldsToJson (← execute [] [] statements))

end InheritDoc.Toml
