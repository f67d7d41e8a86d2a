import InheritDoc.Element.Kind
import InheritDoc.Element.TypeRef

namespace InheritDoc

/-!
# Descriptors and declarations

The structural facts from which documentation ids and hierarchies are computed.

* `Descriptor`  : a type or a member;
* `Declaration` : a type with its hierarchy links and the members visible on it.
-/

/-- A parameter of a member; `position` fixes its place in the signature. -/
structure Parameter where
  type : TypeRef
  isByRef : Bool := false
  position : UInt32
  deriving Inhabited

/-- A declared type or member. -/
structure Descriptor where
  kind : Kind
  name : String
  ns : String := ""
  enclosing : Option Descriptor := none
  typeParameters : List TypeParameter := []
  parameters : List Parameter := []
  explicitInterface : Option TypeRef := none
  returnType : Option TypeRef := none
  isStatic : Bool := false
  deriving Inhabited

namespace Descriptor

/-! ### Building descriptors -/

/-- A type at the top level of a namespace. -/
def typeDecl (category : TypeCategory) (ns name : String) : Descriptor :=
  { kind := .type category, name, ns }

/-- A class at the top level of a namespace. -/
def classDecl (ns name : String) : Descriptor := typeDecl .classType ns name

/-- An interface at the top level of a namespace. -/
def interfaceDecl (ns name : String) : Descriptor := typeDecl .interfaceType ns name

/-- A method. -/
def method (name : String) : Descriptor := { kind := .method, name }

/-- A field. -/
def field (name : String) : Descriptor := { kind := .field, name }

/-- A property. -/
def property (name : String) : Descriptor := { kind := .property, name }

/-- A constructor. -/
def constructor : Descriptor := { kind := .constructor, name := ".ctor" }

/-- A conversion operator to `target`. -/
def conversion (name : String) (target : TypeRef) : Descriptor :=
  { kind := .operator .conversion true, name, returnType := some target }

/-- The element declared inside `enclosing`. -/
def inType (d : Descriptor) (enclosing : Descriptor) : Descriptor :=
  { d with enclosing := some enclosing }

/-- How many generic parameters of one scope the element declares. -/
def arity (d : Descriptor) (scope : TypeParameter.Scope) : Nat :=
  d.typeParameters.countP (·.scope = scope)

/-- The element with one more generic parameter of its own. -/
def withTypeParameter (d : Descriptor) (name : String) : Descriptor :=
  let scope : TypeParameter.Scope := if d.kind.isType then .onType else .onMember
  let parameter : TypeParameter := { name, index := UInt32.ofNat (d.arity scope), scope }
  { d with typeParameters := d.typeParameters ++ [parameter] }

/-- The element with one more parameter after those it has. -/
def withParameter (d : Descriptor) (type : TypeRef) (isByRef : Bool) : Descriptor :=
  let parameter : Parameter := { type, isByRef, position := UInt32.ofNat d.parameters.length }
  { d with parameters := d.parameters ++ [parameter] }

/-- The element as an explicit implementation of a member of `interface`. -/
def implementing (d : Descriptor) (interface : TypeRef) : Descriptor :=
  { d with explicitInterface := some interface }

/-- The element as a static one. -/
def asStatic (d : Descriptor) : Descriptor := { d with isStatic := true }

end Descriptor

/-- A type, its base type and interfaces, and the members visible on it.  A member whose enclosing
    type is another type is inherited from it. -/
structure Declaration where
  descriptor : Descriptor
  base : Option TypeRef := none
  interfaces : List TypeRef := []
  members : List Descriptor := []
  deriving Inhabited

namespace Declaration

/-! ### Building declarations -/

/-- The declaration with a base type. -/
def extending (d : Declaration) (base : TypeRef) : Declaration := { d with base := some base }

/-- The declaration with one more interface. -/
def implementing (d : Declaration) (interface : TypeRef) : Declaration :=
  { d with interfaces := d.interfaces ++ [interface] }

/-- The declaration with one more member, inherited from `declaring`. -/
def withInheritedMember (d : Declaration) (member declaring : Descriptor) : Declaration :=
  { d with members := d.members ++ [member.inType declaring] }

/-- The declaration with one more member of its own. -/
def withMember (d : Declaration) (member : Descriptor) : Declaration :=
  d.withInheritedMember member d.descriptor

end Declaration

end InheritDoc
