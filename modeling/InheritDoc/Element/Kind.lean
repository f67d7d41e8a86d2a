namespace InheritDoc

/-!
# Kinds of elements

* `IdLetter` : the letter that opens a documentation id;
* `Kind`     : what an element is, with `Kind.letter` and `Kind.displayName`.
-/

/-- The letter of a documentation id, which says what sort of element the id names. -/
inductive IdLetter where
  | type
  | field
  | property
  | method
  | event
  deriving DecidableEq, Repr, Inhabited

namespace IdLetter

/-- The letter itself. -/
def toChar : IdLetter → Char
  | .type => 'T'
  | .field => 'F'
  | .property => 'P'
  | .method => 'M'
  | .event => 'E'

/-- The letter that a text consists of. -/
def ofChars? : List Char → Option IdLetter
  | ['T'] => some .type
  | ['F'] => some .field
  | ['P'] => some .property
  | ['M'] => some .method
  | ['E'] => some .event
  | _ => none

/-- The sort of element the letter stands for, as it is named in data. -/
def name : IdLetter → String
  | .type => "Type"
  | .field => "Field"
  | .property => "Property"
  | .method => "Method"
  | .event => "Event"

/-- Every letter is read back. -/
@[simp] theorem ofChars?_toChar (l : IdLetter) : ofChars? [l.toChar] = some l := by
  cases l <;> rfl

end IdLetter

/-- The sorts of declared types. -/
inductive TypeCategory where
  | classType
  | structType
  | interfaceType
  | enumType
  | delegateType
  deriving DecidableEq, Repr, Inhabited

/-- The sorts of operators. -/
inductive OperatorCategory where
  | arithmetic
  | comparison
  | equality
  | logical
  | bitwise
  | conversion
  | other
  deriving DecidableEq, Repr, Inhabited

/-- What an element is. -/
inductive Kind where
  | type (category : TypeCategory)
  | field
  | property
  | method
  | constructor
  | indexer
  | operator (category : OperatorCategory) (isConversion : Bool)
  | event
  | enumMember
  deriving DecidableEq, Repr, Inhabited

/-- The name of a type category. -/
def TypeCategory.name : TypeCategory → String
  | .classType => "class"
  | .structType => "struct"
  | .interfaceType => "interface"
  | .enumType => "enum"
  | .delegateType => "delegate"

/-- The name of an operator category. -/
def OperatorCategory.name : OperatorCategory → String
  | .arithmetic => "arithmetic"
  | .comparison => "comparison"
  | .equality => "equality"
  | .logical => "logical"
  | .bitwise => "bitwise"
  | .conversion => "conversion"
  | .other => "other"

namespace Kind

/-- The element is a type; all others are members. -/
def isType : Kind → Bool
  | .type _ => true
  | _ => false

/-- The element is a conversion operator, whose id names its target. -/
def isConversion : Kind → Bool
  | .operator _ c => c
  | _ => false

/-- The letter of the element's documentation id. -/
def letter : Kind → IdLetter
  | .type _ => .type
  | .field => .field
  | .enumMember => .field
  | .property => .property
  | .indexer => .property
  | .method => .method
  | .constructor => .method
  | .operator _ _ => .method
  | .event => .event

/-- How messages call an element of this kind. -/
def displayName : Kind → String
  | .type category => category.name
  | .field => "field"
  | .property => "property"
  | .method => "method"
  | .constructor => "constructor"
  | .indexer => "indexer"
  | .operator _ _ => "operator"
  | .event => "event"
  | .enumMember => "enum member"

end Kind

end InheritDoc
