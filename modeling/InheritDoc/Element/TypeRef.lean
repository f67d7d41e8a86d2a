namespace InheritDoc

/-!
# Type references

How a signature or a hierarchy link names a type.

* `TypeParameter` : a generic parameter, by its place in the list that declares it;
* `TypeRef`       : a named type, possibly nested, constructed or with array and pointer marks, or
  the use of a generic parameter.
-/

/-- Whether a generic parameter belongs to a type or to a member. -/
inductive TypeParameter.Scope where
  | onType
  | onMember
  deriving DecidableEq, Repr, Inhabited

/-- A generic parameter. -/
structure TypeParameter where
  name : String
  index : UInt32
  scope : TypeParameter.Scope
  deriving DecidableEq, Repr, Inhabited

/-- A reference to a type.  It is a use of a generic parameter exactly when `slot` is given. -/
structure TypeRef where
  ns : String := ""
  name : String := ""
  enclosing : Option TypeRef := none
  arguments : List TypeRef := []
  rank : UInt32 := 0
  pointers : UInt32 := 0
  slot : Option TypeParameter := none
  deriving Inhabited

namespace TypeRef

/-- A type in a namespace. -/
def named (ns name : String) : TypeRef := { ns, name }

/-- A use of a generic parameter. -/
def ofParameter (slot : TypeParameter) : TypeRef := { name := slot.name, slot := some slot }

/-- A type nested in another one. -/
def nested (enclosing : TypeRef) (name : String) : TypeRef := { name, enclosing := some enclosing }

/-- The type constructed from a generic type with the given arguments. -/
def withArguments (t : TypeRef) (arguments : List TypeRef) : TypeRef := { t with arguments }

/-- An array of the type. -/
def array (t : TypeRef) (rank : UInt32) : TypeRef := { t with rank }

/-- A pointer to the type. -/
def pointer (t : TypeRef) : TypeRef := { t with pointers := t.pointers + 1 }

end TypeRef

end InheritDoc
