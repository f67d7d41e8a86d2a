import InheritDoc.Element.Kind
import InheritDoc.Text.Blank
import InheritDoc.Text.Cut

namespace InheritDoc

open Text (trim cutAt isBlank)

/-!
# Reading documentation ids

* `Target`         : what an id points to, a type or a member of a type;
* `DocId.parse`    : an id with its letter, `M:Shop.Cart.Add(System.Int32)`;
* `Target.readings` : every way to read a name without a letter.

Blanks do not matter at the ends of an id and of its parts, nor inside a parameter list.
-/

/-! ### Targets and errors -/

/-- What a documentation id points to. -/
inductive Target where
  | type (id : String)
  | member (owner : String) (id : String)
  deriving DecidableEq, Repr

/-- The id of the element pointed to, with its owner. -/
def Target.qualifiedId : Target → String
  | .type id => id
  | .member owner id => owner ++ "." ++ id

/-- A documentation id: its letter and what it points to. -/
structure DocId where
  letter : IdLetter
  target : Target
  deriving DecidableEq, Repr

/-- What is wrong with a parameter list or a conversion target. -/
inductive SignatureFault where
  | unbalanced
  | emptyParameter
  | unterminated
  | trailingText
  | emptyTarget
  deriving DecidableEq, Repr

/-- The wording of a fault. -/
def SignatureFault.text : SignatureFault → String
  | .unbalanced => "unbalanced brackets"
  | .emptyParameter => "empty parameter"
  | .unterminated => "unterminated parameter list"
  | .trailingText => "unexpected text after parameter list"
  | .emptyTarget => "empty conversion target"

/-- Why a text is not a documentation id. -/
inductive IdError where
  | missingLetter (raw : String)
  | unknownLetter (letter : String) (raw : String)
  | emptyName (raw : String)
  | missingOwner (raw : String)
  | malformedSignature (raw : String) (fault : SignatureFault)
  deriving DecidableEq, Repr

/-- The message of an id error. -/
def IdError.message : IdError → String
  | .missingLetter raw => "Missing '<prefix>:' in '" ++ raw ++ "'"
  | .unknownLetter letter raw => "Unknown prefix '" ++ letter ++ "' in '" ++ raw ++ "'"
  | .emptyName raw => "Empty name in '" ++ raw ++ "'"
  | .missingOwner raw => "Member id '" ++ raw ++ "' has no owning type"
  | .malformedSignature raw fault =>
    "Malformed parameter list in '" ++ raw ++ "': " ++ fault.text

/-! ### Parts of a member id -/

/-- Cut at the last dot outside braces; `depth` counts the braces open so far. -/
def cutLastDot (depth : Nat) : List Char → Option (List Char × List Char)
  | [] => none
  | c :: cs =>
    let inner := if c = '{' then depth + 1 else if c = '}' then depth - 1 else depth
    match cutLastDot inner cs with
    | some (a, b) => some (c :: a, b)
    | none => if c = '.' ∧ depth = 0 then some ([], cs) else none

/-- The parameters up to the closing parenthesis and the text after it.  `current` is what has been
    read of the current parameter, `first` whether it is the first one, and `depth` counts the
    brackets open inside it. -/
def readParameters (first : Bool) (depth : Nat) (current : List Char) :
    List Char → Except SignatureFault (List (List Char) × List Char)
  | [] => .error .unterminated
  | c :: cs =>
    if c = '{' ∨ c = '[' ∨ c = '(' then readParameters first (depth + 1) (current ++ [c]) cs
    else if c = '}' ∨ c = ']' then
      if depth = 0 then .error .unbalanced
      else readParameters first (depth - 1) (current ++ [c]) cs
    else if c = ')' then
      if 0 < depth then readParameters first (depth - 1) (current ++ [c]) cs
      else if !current.isEmpty then .ok ([current], cs)
      else if first then .ok ([], cs)
      else .error .emptyParameter
    else if c = ',' ∧ depth = 0 then
      if current.isEmpty then .error .emptyParameter
      else do
        let (parameters, rest) ← readParameters false 0 [] cs
        return (current :: parameters, rest)
    else if isBlank c then readParameters first depth current cs
    else readParameters first depth (current ++ [c]) cs

/-- The conversion target after a parameter list: none, or a tilde and a text. -/
def readTarget (cs : List Char) : Except SignatureFault (Option (List Char)) :=
  match trim cs with
  | [] => .ok none
  | '~' :: target => .ok (some (trim target))
  | _ => .error .trailingText

/-- Parameters in parentheses; none at all when there is no parameter. -/
def joinParameters : List (List Char) → List Char
  | [] => []
  | parameters => '(' :: (List.intercalate [','] parameters ++ [')'])

/-- The parameters and the conversion target that follow the name of a member, as they stand in its
    id.  `signature` starts at the opening parenthesis, if there is one; `bare` is what followed a
    tilde in the name. -/
def readSignature (signature : List Char) (bare : Option (List Char)) :
    Except SignatureFault (List Char) := do
  let (parameters, target) ← match signature with
    | [] => pure ([], bare.map trim)
    | _ :: body => do
      let (parameters, rest) ← readParameters true 0 [] body
      let target ← readTarget rest
      pure (parameters, target)
  match target with
  | none => return joinParameters parameters
  | some [] => throw .emptyTarget
  | some target => return joinParameters parameters ++ '~' :: target

/-- The member a name points to.  `raw` is what errors quote. -/
def readMember (name : List Char) (raw : String) : Except IdError Target := do
  let (head, signature) := name.span (· != '(')
  let (qualified, bare) := match signature, cutAt '~' head with
    | [], some (before, after) => (before, some after)
    | _, _ => (head, none)
  match cutLastDot 0 qualified with
  | none => throw (.missingOwner raw)
  | some (owner, member) =>
    let owner := trim owner
    let member := trim member
    if owner.isEmpty ∨ member.isEmpty then throw (.emptyName raw)
    match readSignature signature bare with
    | .error fault => throw (.malformedSignature raw fault)
    | .ok rest => return .member (String.ofList owner) (String.ofList (member ++ rest))

/-! ### Ids and names -/

/-- A documentation id, as member entries and `cref` attributes write it. -/
def DocId.parse (text : String) : Except IdError DocId := do
  let cs := trim text.toList
  let raw := String.ofList cs
  match cutAt ':' cs with
  | none => throw (.missingLetter raw)
  | some (letter, name) =>
    match IdLetter.ofChars? letter with
    | none => throw (.unknownLetter (String.ofList letter) raw)
    | some letter =>
      let name := trim name
      if name.isEmpty then throw (.emptyName raw)
      match letter with
      | .type => return ⟨letter, .type (String.ofList name)⟩
      | _ => return ⟨letter, ← readMember name raw⟩

/-- Every way to read a name without a letter, as a type first. -/
def Target.readings (text : String) : List Target :=
  let name := trim text.toList
  if name.isEmpty then []
  else
    let asType := if name.contains '(' then [] else [Target.type (String.ofList name)]
    let asMember := match readMember name (String.ofList name) with
      | .ok target => [target]
      | .error _ => []
    asType ++ asMember

/-- The id a documentation id points to. -/
def DocId.qualifiedId (id : DocId) : String :=
  id.target.qualifiedId

/-- The text of a documentation id. -/
def DocId.text (id : DocId) : String :=
  String.singleton id.letter.toChar ++ ":" ++ id.qualifiedId

end InheritDoc
