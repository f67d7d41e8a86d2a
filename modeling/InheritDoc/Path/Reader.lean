import InheritDoc.Path.Basic
import InheritDoc.Text.Alphanumeric
import InheritDoc.Text.Blank
import InheritDoc.Text.Cut
import InheritDoc.Text.Numeral

namespace InheritDoc

open Text (trim cutAt isAlphanumeric numeral?)

/-!
# Reading paths

`Path.parse` reads paths such as `/remarks/para[1]`, `//param[@name='x']/node()` and `./summary`.

A slash separates steps unless it stands in brackets or quotes; two slashes in a row lead to
descendants; a slash at the start and steps that are a single dot change nothing.
-/

/-! ### Errors -/

/-- Why a text is not a path. -/
inductive PathError where
  | empty
  | unbalanced (path : String)
  | invalidStep (step : String) (path : String)
  | invalidPredicate (predicate : String)
  deriving DecidableEq, Repr

/-- The message of a path error. -/
def PathError.message : PathError → String
  | .empty => "Empty path expression"
  | .unbalanced path => "Unbalanced brackets in path '" ++ path ++ "'"
  | .invalidStep step path => "Invalid step '" ++ step ++ "' in path '" ++ path ++ "'"
  | .invalidPredicate predicate => "Unsupported predicate '[" ++ predicate ++ "]'"

namespace Path

/-! ### Segments -/

/-- The pieces between the slashes that separate steps; nothing if brackets or quotes do not match.
    `depth` counts the open brackets, `quote` is the open quote, and `current` is what has been read
    of the current piece. -/
def segments (depth : Nat) (quote : Option Char) (current : List Char) :
    List Char → Option (List (List Char))
  | [] => if depth = 0 ∧ quote = none then some [current] else none
  | c :: cs =>
    match quote with
    | some q => segments depth (if c = q then none else some q) (current ++ [c]) cs
    | none =>
      if c = '\'' ∨ c = '"' then segments depth (some c) (current ++ [c]) cs
      else if c = '[' then segments (depth + 1) none (current ++ [c]) cs
      else if c = ']' then
        if depth = 0 then none else segments (depth - 1) none (current ++ [c]) cs
      else if c = '/' ∧ depth = 0 then (segments 0 none [] cs).map (current :: ·)
      else segments depth none (current ++ [c]) cs

/-! ### Steps -/

/-- The text is a name: not empty, of alphanumeric characters and `_`, `-`, `.`, `:`. -/
def isName (cs : List Char) : Bool :=
  !cs.isEmpty && cs.all fun c => isAlphanumeric c || c = '_' || c = '-' || c = '.' || c = ':'

/-- The text without its last character, if that is `c`. -/
def withoutLast? (c : Char) (cs : List Char) : Option (List Char) :=
  if cs.getLast? = some c then some cs.dropLast else none

/-- What stands between two quotes of one sort. -/
def unquote? : List Char → Option (List Char)
  | '\'' :: body => withoutLast? '\'' body
  | '"' :: body => withoutLast? '"' body
  | _ => none

/-- The largest position a predicate may name lies below this bound. -/
def positionBound : Nat := UInt64.size

/-- The predicate between two brackets: a position, an attribute, or an attribute with a value. -/
def readPredicate? (inner : List Char) : Option Predicate :=
  match numeral? 10 positionBound (trim inner) with
  | some n => if n = 0 then none else some (.position n)
  | none =>
    match trim inner with
    | '@' :: body =>
      match cutAt '=' body with
      | none => if isName (trim body) then some (.hasAttribute (String.ofList (trim body))) else none
      | some (name, value) =>
        (unquote? (trim value)).bind fun value =>
          if isName (trim name) then
            some (.attributeEquals (String.ofList (trim name)) (String.ofList value))
          else none
    | _ => none

/-- The test of a step. -/
def readTest? (cs : List Char) : Option NodeTest :=
  if cs = ['*'] then some .anyElement
  else if cs = ['n', 'o', 'd', 'e', '(', ')'] then some .anyNode
  else if cs = ['t', 'e', 'x', 't', '(', ')'] then some .anyText
  else if isName cs then some (.named (String.ofList cs))
  else none

/-- One step: a test and, in brackets, a predicate.  `path` is what errors quote. -/
def readStep (axis : Axis) (path : String) (raw : List Char) : Except PathError Step := do
  let invalid : PathError := .invalidStep (String.ofList raw) path
  let predicate : Option Predicate ← match cutAt '[' raw with
    | none => pure none
    | some (_, body) =>
      match withoutLast? ']' body with
      | none => throw invalid
      | some inner =>
        match readPredicate? inner with
        | none => throw (.invalidPredicate (String.ofList inner))
        | some predicate => pure (some predicate)
  match readTest? (trim (raw.takeWhile (· != '['))) with
  | none => throw invalid
  | some test => return { axis, test, predicate }

/-- The steps of some segments; an empty segment makes the next step one to descendants. -/
def readSteps (axis : Axis) (path : String) : List (List Char) → Except PathError (List Step)
  | [] => .ok []
  | [] :: rest => readSteps .descendant path rest
  | ['.'] :: rest => readSteps axis path rest
  | raw :: rest => do
    let step ← readStep axis path raw
    let steps ← readSteps .child path rest
    return step :: steps

/-! ### Paths -/

/-- The path that a text denotes. -/
def parse (text : String) : Except PathError Path := do
  let cs := trim text.toList
  let path := String.ofList cs
  let body := match cs with
    | '/' :: body => body
    | _ => cs
  if body.isEmpty then throw .empty
  match segments 0 none [] body with
  | none => throw (.unbalanced path)
  | some pieces =>
    if pieces.getLast? = some [] then throw (.invalidStep "" path)
    match ← readSteps .child path pieces with
    | [] => throw .empty
    | steps => return ⟨steps⟩

end Path

end InheritDoc
