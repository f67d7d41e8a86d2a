import InheritDoc.Element.Descriptor
import InheritDoc.Json.Reader
import InheritDoc.Json.Record
import InheritDoc.Json.Writer

namespace InheritDoc

open Json (required withDefault optional optionalField listField)

/-!
# The JSON form of descriptors and declarations

* `toJson`  : fields in a fixed order, leaving out what is absent;
* `ofJson?` : the value of a JSON form, with the defaults of the fields it leaves out.

A reader may descend at most so many levels; the nesting of the JSON value itself is always enough.
-/

/-! ### Names -/

/-- The name of a scope in data. -/
def TypeParameter.Scope.name : TypeParameter.Scope → String
  | .onType => "declared_on_type"
  | .onMember => "declared_on_member"

/-- The scope of a name in data. -/
def TypeParameter.Scope.ofName? : String → Option TypeParameter.Scope
  | "declared_on_type" => some .onType
  | "declared_on_member" => some .onMember
  | _ => none

/-- The type category of a name. -/
def TypeCategory.ofName? : String → Option TypeCategory
  | "class" => some .classType
  | "struct" => some .structType
  | "interface" => some .interfaceType
  | "enum" => some .enumType
  | "delegate" => some .delegateType
  | _ => none

/-- The operator category of a name. -/
def OperatorCategory.ofName? : String → Option OperatorCategory
  | "arithmetic" => some .arithmetic
  | "comparison" => some .comparison
  | "equality" => some .equality
  | "logical" => some .logical
  | "bitwise" => some .bitwise
  | "conversion" => some .conversion
  | "other" => some .other
  | _ => none

/-! ### Type references -/

namespace TypeParameter

/-- The JSON form of a generic parameter. -/
def toJson (p : TypeParameter) : Json :=
  .obj [("name", .str p.name), ("index", .nat p.index.toNat), ("scope", .str p.scope.name)]

/-- The generic parameter of a JSON form, descending at most so many levels. -/
def read : Nat → Json → Option TypeParameter
  | 0, _ => none
  | n + 1, j => do
    match ← j.fields? ["name", "index", "scope"] with
    | [name, index, scope] =>
      return {
        name := ← required Json.string? name
        index := ← required Json.uint32? index
        scope := ← required (fun j => (j.name? n).bind Scope.ofName?) scope }
    | _ => none

end TypeParameter

namespace TypeRef

mutual

/-- The JSON form of a type reference. -/
def toJson : TypeRef → Json
  | ⟨ns, name, enclosing, arguments, rank, pointers, slot⟩ =>
    .obj ([("namespace", .str ns), ("short_name", .str name)]
      ++ enclosingField enclosing
      ++ listField "type_arguments" (listToJson arguments)
      ++ [("array_rank", .nat rank.toNat), ("pointer_depth", .nat pointers.toNat)]
      ++ optionalField "generic_parameter_slot" TypeParameter.toJson slot)

/-- The field of the enclosing type. -/
def enclosingField : Option TypeRef → List (String × Json)
  | none => []
  | some t => [("enclosing_type", toJson t)]

/-- The JSON forms of several type references. -/
def listToJson : List TypeRef → List Json
  | [] => []
  | t :: ts => toJson t :: listToJson ts

end

mutual

/-- The type reference of a JSON form, descending at most so many levels. -/
def read : Nat → Json → Option TypeRef
  | 0, _ => none
  | n + 1, j => do
    match ← j.fields? ["namespace", "short_name", "enclosing_type", "type_arguments",
      "array_rank", "pointer_depth", "generic_parameter_slot"] with
    | [ns, name, enclosing, arguments, rank, pointers, slot] =>
      return {
        ns := ← withDefault "" Json.string? ns
        name := ← withDefault "" Json.string? name
        enclosing := ← optional (read n) enclosing
        arguments := ← withDefault [] (readList n) arguments
        rank := ← withDefault 0 Json.uint32? rank
        pointers := ← withDefault 0 Json.uint32? pointers
        slot := ← optional (TypeParameter.read n) slot }
    | _ => none

/-- The type references of a JSON array, descending at most so many levels. -/
def readList : Nat → Json → Option (List TypeRef)
  | n + 1, .arr items => items.mapM (read n)
  | _, _ => none

end

/-- The type reference of a JSON form. -/
def ofJson? (j : Json) : Option TypeRef :=
  read j.depth j

end TypeRef

/-! ### Descriptors -/

namespace Kind

/-- The fields that tell a kind. -/
def toFields : Kind → List (String × Json)
  | .type category => [("kind", .str "type"), ("category", .str category.name)]
  | .field => [("kind", .str "field")]
  | .property => [("kind", .str "property")]
  | .method => [("kind", .str "method")]
  | .constructor => [("kind", .str "constructor")]
  | .indexer => [("kind", .str "indexer")]
  | .operator category isConversion =>
    [("kind", .str "operator"), ("category", .str category.name),
      ("is_conversion", .bool isConversion)]
  | .event => [("kind", .str "event")]
  | .enumMember => [("kind", .str "enum_member")]

/-- The names of the kinds in data. -/
def names : List String :=
  ["type", "field", "property", "method", "constructor", "indexer", "operator", "event",
    "enum_member"]

/-- The kind of a name.  The fields around it matter only to the kinds that have some. -/
def ofName? (fields : List (String × Json)) (name : String) : Option Kind := do
  match name with
  | "type" =>
    let category ← required Json.keptName? (← Json.lookup? fields "category")
    return .type (← TypeCategory.ofName? category)
  | "field" => return .field
  | "property" => return .property
  | "method" => return .method
  | "constructor" => return .constructor
  | "indexer" => return .indexer
  | "operator" =>
    let category ← required Json.keptName? (← Json.lookup? fields "category")
    let isConversion ← required Json.bool? (← Json.lookup? fields "is_conversion")
    return .operator (← OperatorCategory.ofName? category) isConversion
  | "event" => return .event
  | "enum_member" => return .enumMember
  | _ => none

/-- The name that a kind goes by: a string, or its number among the names. -/
def name? : Json → Option String
  | .str name => some name
  | .int n => if 0 ≤ n then names[n.toNat]? else none
  | _ => none

/-- The names of the fields that a kind of a name has besides. -/
def fieldNames : String → List String
  | "type" => ["category"]
  | "operator" => ["category", "is_conversion"]
  | _ => []

/-- The kind of a JSON form that tells a kind and nothing else: an object, or an array of the name
    and the values of the other fields. -/
def ofJson? : Json → Option Kind
  | .obj fields => do
    let name ← required Json.string? (← Json.lookup? fields "kind")
    ofName? fields name
  | .arr (.str name :: values) =>
    if values.length = (fieldNames name).length then ofName? ((fieldNames name).zip values) name
    else none
  | _ => none

end Kind

namespace Parameter

/-- The JSON form of a parameter. -/
def toJson (p : Parameter) : Json :=
  .obj [("type", p.type.toJson), ("is_by_ref", .bool p.isByRef),
    ("position", .nat p.position.toNat)]

/-- The parameter of a JSON form, descending at most so many levels. -/
def read : Nat → Json → Option Parameter
  | 0, _ => none
  | n + 1, j => do
    match ← j.fields? ["type", "is_by_ref", "position"] with
    | [type, isByRef, position] =>
      return {
        type := ← required (TypeRef.read n) type
        isByRef := ← withDefault false Json.bool? isByRef
        position := ← required Json.uint32? position }
    | _ => none

end Parameter

namespace Descriptor

mutual

/-- The JSON form of a descriptor. -/
def toJson : Descriptor → Json
  | ⟨kind, name, ns, enclosing, typeParameters, parameters, explicitInterface, returnType,
      isStatic⟩ =>
    .obj (kind.toFields
      ++ [("name", .str name), ("namespace", .str ns)]
      ++ enclosingField enclosing
      ++ listField "type_parameters" (typeParameters.map TypeParameter.toJson)
      ++ listField "parameters" (parameters.map Parameter.toJson)
      ++ optionalField "explicit_interface" TypeRef.toJson explicitInterface
      ++ optionalField "return_type" TypeRef.toJson returnType
      ++ [("is_static", .bool isStatic)])

/-- The field of the enclosing type. -/
def enclosingField : Option Descriptor → List (String × Json)
  | none => []
  | some d => [("enclosing_type", toJson d)]

end

/-- The names of the fields that do not tell the kind. -/
def fieldNames : List String :=
  ["name", "namespace", "enclosing_type", "type_parameters", "parameters", "explicit_interface",
    "return_type", "is_static"]

/-- The descriptor of a JSON form, descending at most so many levels.  Its kind is told by fields
    of the same object, so all other fields are kept until the kind is known. -/
def read : Nat → Json → Option Descriptor
  | n + 1, .obj fields => do
    guard (fields.all fun (name, value) => fieldNames.contains name || value.isKept n)
    let field := Json.lookup? fields
    let name ← required Json.string? (← field "name")
    let ns ← withDefault "" Json.string? (← field "namespace")
    let enclosing ← optional (read n) (← field "enclosing_type")
    let typeParameters ←
      withDefault [] (Json.listWithin? TypeParameter.read n) (← field "type_parameters")
    let parameters ← withDefault [] (Json.listWithin? Parameter.read n) (← field "parameters")
    let explicitInterface ← optional (TypeRef.read n) (← field "explicit_interface")
    let returnType ← optional (TypeRef.read n) (← field "return_type")
    let isStatic ← withDefault false Json.bool? (← field "is_static")
    let kind ← Kind.ofName? fields (← required Kind.name? (← field "kind"))
    return ⟨kind, name, ns, enclosing, typeParameters, parameters, explicitInterface, returnType,
      isStatic⟩
  | _, _ => none

/-- The descriptor of a JSON form. -/
def ofJson? (j : Json) : Option Descriptor :=
  read j.depth j

end Descriptor

/-! ### Declarations -/

namespace Declaration

/-- The JSON form of a declaration. -/
def toJson (d : Declaration) : Json :=
  .obj ([("descriptor", d.descriptor.toJson)]
    ++ optionalField "base_type" TypeRef.toJson d.base
    ++ listField "interfaces" (d.interfaces.map TypeRef.toJson)
    ++ [("members", .arr (d.members.map Descriptor.toJson))])

/-- The declaration of a JSON form, descending at most so many levels. -/
def read : Nat → Json → Option Declaration
  | 0, _ => none
  | n + 1, j => do
    match ← j.fields? ["descriptor", "base_type", "interfaces", "members"] with
    | [descriptor, base, interfaces, members] =>
      return {
        descriptor := ← required (Descriptor.read n) descriptor
        base := ← optional (TypeRef.read n) base
        interfaces := ← withDefault [] (TypeRef.readList n) interfaces
        members := ← withDefault [] (Json.listWithin? Descriptor.read n) members }
    | _ => none

/-- The declaration of a JSON form. -/
def ofJson? (j : Json) : Option Declaration :=
  read j.depth j

/-- The compact JSON text of a declaration. -/
def text (d : Declaration) : String :=
  d.toJson.compact

/-- The declaration that a JSON text denotes. -/
def ofText? (text : String) : Option Declaration :=
  (Json.parse text).bind ofJson?

end Declaration

end InheritDoc
