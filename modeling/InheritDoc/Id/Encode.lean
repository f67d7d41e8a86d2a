import InheritDoc.Element.Descriptor

namespace InheritDoc

/-!
# Documentation ids of elements

The id of a type or member is written from its descriptor.

* `TypeRef.encode`        : a type as it stands in a signature, `System.Int32[]`;
* `TypeRef.declarationId` : the id of the type that a reference points to;
* `Descriptor.encode`     : the id of a type, or of a member within its type;
* `Descriptor.qualifiedId`, `Descriptor.prefixedId` : the id with its owner, and with its letter.
-/

/-! ### Errors -/

/-- What makes a type reference contradict itself. -/
inductive TypeRefFault where
  | argumentsOfParameter
  | enclosingOfParameter
  | unnamed
  | parameterAsDeclared
  deriving DecidableEq, Repr

/-- The wording of a fault. -/
def TypeRefFault.text : TypeRefFault → String
  | .argumentsOfParameter => "generic parameter with type arguments"
  | .enclosingOfParameter => "generic parameter with an enclosing type"
  | .unnamed => "neither a named type nor a generic parameter"
  | .parameterAsDeclared => "generic parameter used where a declared type is required"

/-- Why an element has no id. -/
inductive EncodeError where
  | emptyName (kind : Kind)
  | inconsistentTypeRef (name : String) (fault : TypeRefFault)
  | missingReturnType (name : String)
  | missingEnclosingType (name : String)
  deriving DecidableEq, Repr

/-- The message of an encoding error. -/
def EncodeError.message : EncodeError → String
  | .emptyName kind => kind.displayName ++ " descriptor has an empty name"
  | .inconsistentTypeRef name fault =>
    "Inconsistent type reference '" ++ name ++ "': " ++ fault.text
  | .missingReturnType name => "Conversion operator '" ++ name ++ "' has no return type"
  | .missingEnclosingType name => "Member '" ++ name ++ "' has no enclosing type"

/-! ### Pieces of ids -/

/-- A name within an owner, which may be empty. -/
def joinDotted (owner name : String) : String :=
  if owner.isEmpty then name else owner ++ "." ++ name

/-- The characters that open array and pointer marks inside a name. -/
def opensMarks (c : Char) : Bool :=
  c = '[' || c = '*'

/-- The part of a name before its array and pointer marks. -/
def baseName (name : String) : String :=
  String.ofList (name.toList.takeWhile fun c => !opensMarks c)

/-- The array and pointer marks that a name ends with. -/
def nameMarks (name : String) : String :=
  String.ofList (name.toList.dropWhile fun c => !opensMarks c)

/-- The part of a name before its arity mark. -/
def withoutArity (name : String) : String :=
  String.ofList (name.toList.takeWhile fun c => c != '`')

/-- A back-tick and a number. -/
def arityMark (n : Nat) : String :=
  "`" ++ toString n

/-- Pointer and array marks of a given depth and rank. -/
def shapeMarks (pointers rank : Nat) : String :=
  String.ofList (List.replicate pointers '*' ++
    if rank = 0 then [] else '[' :: (List.replicate (rank - 1) ',' ++ [']']))

/-- The marks of a reference: those in its name, or else those of its rank and depth. -/
def TypeRef.marks (t : TypeRef) : String :=
  if (nameMarks t.name).isEmpty then shapeMarks t.pointers.toNat t.rank.toNat else nameMarks t.name

/-- A use of a generic parameter: one back-tick for a type's, two for a member's. -/
def TypeParameter.placeholder (p : TypeParameter) : String :=
  match p.scope with
  | .onType => "`" ++ toString p.index.toNat
  | .onMember => "``" ++ toString p.index.toNat

/-! ### Type references -/

namespace TypeRef

/-- A reference either names a type or uses a generic parameter, and the latter stands alone. -/
def check (t : TypeRef) : Except EncodeError Unit :=
  match t.slot with
  | some _ =>
    if !t.arguments.isEmpty then .error (.inconsistentTypeRef t.name .argumentsOfParameter)
    else if t.enclosing.isSome then .error (.inconsistentTypeRef t.name .enclosingOfParameter)
    else .ok ()
  | none => if t.name.isEmpty then .error (.inconsistentTypeRef t.ns .unnamed) else .ok ()

mutual

/-- A type as it stands in a signature. -/
def encode : TypeRef → Except EncodeError String
  | ⟨ns, name, enclosing, arguments, rank, pointers, slot⟩ => do
    let t : TypeRef := ⟨ns, name, enclosing, arguments, rank, pointers, slot⟩
    t.check
    match slot with
    | some parameter => return parameter.placeholder ++ t.marks
    | none =>
      let owner ← encodeOwner ns enclosing
      match ← encodeAll arguments with
      | [] => return joinDotted owner (baseName name) ++ t.marks
      | codes =>
        return joinDotted owner (withoutArity (baseName name)) ++ "\x7b" ++
          ",".intercalate codes ++ "\x7d" ++ t.marks

/-- What stands before the name of a type: its enclosing type, or else its namespace. -/
def encodeOwner (ns : String) : Option TypeRef → Except EncodeError String
  | none => .ok ns
  | some t => encode t

/-- Several types, in order. -/
def encodeAll : List TypeRef → Except EncodeError (List String)
  | [] => .ok []
  | t :: ts => do
    let code ← encode t
    let codes ← encodeAll ts
    return code :: codes

end

mutual

/-- The id of the type that a reference points to: arguments count as arity, marks do not matter. -/
def declarationId : TypeRef → Except EncodeError String
  | ⟨ns, name, enclosing, arguments, rank, pointers, slot⟩ => do
    let t : TypeRef := ⟨ns, name, enclosing, arguments, rank, pointers, slot⟩
    t.check
    if slot.isSome then throw (.inconsistentTypeRef name .parameterAsDeclared)
    let owner ← declarationOwner ns enclosing
    if arguments.isEmpty then return joinDotted owner (baseName name)
    else
      return joinDotted owner (withoutArity (baseName name)) ++ arityMark arguments.length

/-- What stands before the name in a declaration id. -/
def declarationOwner (ns : String) : Option TypeRef → Except EncodeError String
  | none => .ok ns
  | some t => declarationId t

end

end TypeRef

/-! ### Descriptors -/

namespace Descriptor

mutual

/-- The id of a type: its owner, its name, and its arity unless the name already has an arity
    mark. -/
def encodeType : Descriptor → Except EncodeError String
  | ⟨kind, name, ns, enclosing, typeParameters, _, _, _, _⟩ => do
    if name.isEmpty then throw (.emptyName kind)
    let owner ← encodeTypeOwner ns enclosing
    let arity := typeParameters.countP (·.scope = .onType)
    let mark := if 0 < arity ∧ !name.toList.contains '`' then arityMark arity else ""
    return joinDotted owner name ++ mark

/-- What stands before the name in the id of a type. -/
def encodeTypeOwner (ns : String) : Option Descriptor → Except EncodeError String
  | none => .ok ns
  | some d => encodeType d

end

/-- The name that opens a member id.  Constructors have names of their own. -/
def memberName (d : Descriptor) : String :=
  match d.kind with
  | .constructor => if d.isStatic then "#cctor" else "#ctor"
  | _ => d.name

/-- The name of a member together with the interface it implements explicitly; dots become hashes
    so that the whole counts as one name. -/
def encodeMemberName (d : Descriptor) : Except EncodeError String :=
  match d.explicitInterface with
  | none => .ok d.memberName
  | some interface => do
    let id ← interface.declarationId
    return String.ofList ((id ++ "." ++ d.memberName).toList.map fun c =>
      if c = '.' then '#' else c)

/-- A parameter in a signature. -/
def encodeParameter (p : Parameter) : Except EncodeError String := do
  let code ← p.type.encode
  return if p.isByRef then code ++ "@" else code

/-- The parameters in the order of their positions. -/
def orderedParameters (d : Descriptor) : List Parameter :=
  d.parameters.mergeSort fun a b => a.position ≤ b.position

/-- The parameter list of a member, which is left out when empty. -/
def encodeParameters (d : Descriptor) : Except EncodeError String := do
  if d.parameters.isEmpty then return ""
  let codes ← d.orderedParameters.mapM encodeParameter
  return "(" ++ ",".intercalate codes ++ ")"

/-- The target of a conversion operator. -/
def encodeTarget (d : Descriptor) : Except EncodeError String :=
  if d.kind.isConversion then
    match d.returnType with
    | none => .error (.missingReturnType d.name)
    | some target => do return "~" ++ (← target.encode)
  else .ok ""

/-- The id of a member within its type. -/
def encodeMember (d : Descriptor) : Except EncodeError String := do
  if d.memberName.isEmpty then throw (.emptyName d.kind)
  let name ← d.encodeMemberName
  let arity := d.arity .onMember
  let parameters ← d.encodeParameters
  let target ← d.encodeTarget
  return name ++ (if 0 < arity then "``" ++ toString arity else "") ++ parameters ++ target

/-- The id of a type, or of a member within its type. -/
def encode (d : Descriptor) : Except EncodeError String :=
  if d.kind.isType then d.encodeType else d.encodeMember

/-- The id of an element with its owner. -/
def qualifiedId (d : Descriptor) : Except EncodeError String :=
  if d.kind.isType then d.encodeType
  else
    match d.enclosing with
    | none => .error (.missingEnclosingType d.name)
    | some owner => do
      let ownerId ← owner.encodeType
      let memberId ← d.encodeMember
      return ownerId ++ "." ++ memberId

/-- The documentation id of an element: its letter and its qualified id. -/
def prefixedId (d : Descriptor) : Except EncodeError String := do
  let id ← d.qualifiedId
  return String.singleton d.kind.letter.toChar ++ ":" ++ id

end Descriptor

end InheritDoc
