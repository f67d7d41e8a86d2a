import InheritDoc.Element.Json
import InheritDoc.Proofs.Element.Induction
import InheritDoc.Proofs.Json.Fields
import Mathlib.Data.Option.Basic

namespace InheritDoc

open Json (Exact required withDefault optional optionalField listField lookup?_append lookup?_cons
  lookup?_optionalField lookup?_listField forall_mem_optionalField forall_mem_listField)

/-!
# Reading back declarations

The JSON form of a declaration has all of it.

* `TypeRef.read_toJson`, `Descriptor.read_toJson`, `Declaration.read_toJson` : what is read from a
  JSON form is what the form was written for, if the reader may descend far enough;
* `Declaration.exact_toJson` : the form is one that its text denotes exactly;
* `Declaration.text_injective` : declarations with the same text are equal;
* `Declaration.text_roundTrip` : **declarations are read back from their text.**
-/

/-! ### Type references -/

namespace TypeParameter

/-- A scope is read from its name. -/
theorem Scope.ofName?_name (scope : Scope) : Scope.ofName? scope.name = some scope := by
  cases scope <;> rfl

/-- A type parameter is read from its JSON form. -/
theorem read_toJson {p : TypeParameter} {n : Nat} (hn : p.toJson.depth ≤ n) :
    read n p.toJson = some p := by
  obtain ⟨m, rfl, -⟩ := Json.exists_of_depth_obj_le hn
  simp [read, toJson, Json.fields?, lookup?_cons, Json.name?, Scope.ofName?_name]

/-- The JSON form of a type parameter is exact. -/
theorem exact_toJson (p : TypeParameter) : Exact p.toJson := by
  refine .obj ?_
  simp [Exact.str, Json.exact_nat]

end TypeParameter

namespace TypeRef

/-- The JSON forms of several references are those of each. -/
theorem listToJson_eq_map (ts : List TypeRef) : listToJson ts = ts.map toJson := by
  induction ts with
  | nil => rfl
  | cons t ts ih => rw [listToJson, ih, List.map_cons]

/-- The field of the enclosing type is one that may be left out. -/
theorem enclosingField_eq (t : Option TypeRef) :
    enclosingField t = optionalField "enclosing_type" toJson t := by
  cases t <;> rfl

/-- The JSON form of a reference, with its nested forms as fields like any others. -/
theorem toJson_eq (t : TypeRef) :
    t.toJson = .obj ([("namespace", .str t.ns), ("short_name", .str t.name)]
      ++ optionalField "enclosing_type" toJson t.enclosing
      ++ listField "type_arguments" (t.arguments.map toJson)
      ++ [("array_rank", .nat t.rank.toNat), ("pointer_depth", .nat t.pointers.toNat)]
      ++ optionalField "generic_parameter_slot" TypeParameter.toJson t.slot) := by
  obtain ⟨ns, name, enclosing, arguments, rank, pointers, slot⟩ := t
  rw [toJson, enclosingField_eq, listToJson_eq_map]

/-- A reference that is there is not written as null. -/
theorem toJson_ne_null (t : TypeRef) : t.toJson ≠ .null := by
  simp [toJson_eq]

/-- References are read from a list one by one. -/
theorem readList_eq (n : Nat) : readList n = Json.listWithin? read n := by
  funext j
  cases n <;> cases j <;> rfl

/-- A type reference is read from its JSON form. -/
theorem read_toJson (t : TypeRef) : ∀ n, t.toJson.depth ≤ n → read n t.toJson = some t := by
  induction t using TypeRef.induction with
  | ref t ihenclosing iharguments =>
    intro n hn
    rw [toJson_eq] at hn ⊢
    -- the counter is one less inside the object, and enough for each part that it is spent on
    obtain ⟨m, rfl, hdepth⟩ := Json.exists_of_depth_obj_le hn
    simp only [List.forall_mem_append, forall_mem_optionalField, forall_mem_listField] at hdepth
    obtain ⟨⟨⟨⟨-, hdepthEnclosing⟩, hdepthArguments⟩, -⟩, hdepthSlot⟩ := hdepth
    have henclosing : optional (read m) (t.enclosing.map toJson) = some t.enclosing :=
      Json.optional_map toJson_ne_null fun e he => ihenclosing e he m (hdepthEnclosing e he)
    have harguments := Json.withDefault_listWithin? iharguments hdepthArguments
    have hslot : optional (TypeParameter.read m) (t.slot.map TypeParameter.toJson) = some t.slot :=
      Json.optional_map (by simp [TypeParameter.toJson]) fun p hp =>
        TypeParameter.read_toJson (hdepthSlot p hp)
    have heta : (⟨t.ns, t.name, t.enclosing, t.arguments, t.rank, t.pointers, t.slot⟩ : TypeRef)
        = t := by cases t; rfl
    simp [read, Json.fields?, lookup?_append, lookup?_cons, lookup?_optionalField,
      lookup?_listField, readList_eq, henclosing, harguments, hslot, heta]

/-- The JSON form of a reference is exact. -/
theorem exact_toJson (t : TypeRef) : Exact t.toJson := by
  induction t using TypeRef.induction with
  | ref t ihenclosing iharguments =>
    rw [toJson_eq]
    refine .obj ?_
    simp only [List.forall_mem_append, forall_mem_optionalField, forall_mem_listField]
    refine ⟨⟨⟨⟨?_, ihenclosing⟩, fun _ => .arr ?_⟩, ?_⟩, fun p _ => p.exact_toJson⟩
    · simp [Exact.str]
    · simpa using iharguments
    · simp [Json.exact_nat]

end TypeRef

/-! ### Descriptors -/

namespace Kind

/-- A category of types is read from its name. -/
theorem ofName?_category (category : TypeCategory) :
    TypeCategory.ofName? category.name = some category := by
  cases category <;> rfl

/-- A category of operators is read from its name. -/
theorem ofName?_operatorCategory (category : OperatorCategory) :
    OperatorCategory.ofName? category.name = some category := by
  cases category <;> rfl

/-- The fields of a kind tell nothing else. -/
theorem lookup?_toFields (kind : Kind) : ∀ name ∈ Descriptor.fieldNames,
    Json.lookup? kind.toFields name = some none := by
  cases kind <;> simp [Descriptor.fieldNames, toFields, lookup?_cons]

/-- A kind is read from its fields, among others that do not tell a kind. -/
theorem exists_ofName?_toFields (kind : Kind) :
    ∃ name, Json.lookup? kind.toFields "kind" = some (some (.str name)) ∧
      ∀ fields : List (String × Json),
        (∀ key ∈ ["category", "is_conversion"],
          Json.lookup? fields key = Json.lookup? kind.toFields key) →
        ofName? fields name = some kind := by
  cases kind with
  | type category =>
    refine ⟨"type", by simp [toFields, lookup?_cons], fun fields h => ?_⟩
    simp only [List.forall_mem_cons] at h
    simp [ofName?, h.1, toFields, lookup?_cons, Json.keptName?, Json.name?, ofName?_category]
  | operator category isConversion =>
    refine ⟨"operator", by simp [toFields, lookup?_cons], fun fields h => ?_⟩
    simp only [List.forall_mem_cons] at h
    simp [ofName?, h.1, h.2.1, toFields, lookup?_cons, Json.keptName?, Json.name?,
      ofName?_operatorCategory]
  | field => exact ⟨"field", rfl, fun _ _ => rfl⟩
  | property => exact ⟨"property", rfl, fun _ _ => rfl⟩
  | method => exact ⟨"method", rfl, fun _ _ => rfl⟩
  | constructor => exact ⟨"constructor", rfl, fun _ _ => rfl⟩
  | indexer => exact ⟨"indexer", rfl, fun _ _ => rfl⟩
  | event => exact ⟨"event", rfl, fun _ _ => rfl⟩
  | enumMember => exact ⟨"enum_member", rfl, fun _ _ => rfl⟩

/-- The fields of a kind are kept until the kind is known. -/
theorem isKept_toFields (kind : Kind) (n : Nat) :
    ∀ field ∈ kind.toFields, field.2.isKept n = true := by
  cases kind <;> simp [toFields, Json.isKept, Json.isWhole, Json.depth]

/-- The fields of a kind are exact. -/
theorem exact_toFields (kind : Kind) : ∀ field ∈ kind.toFields, Exact field.2 := by
  cases kind <;> simp [toFields, Exact.str, Exact.bool]

end Kind

namespace Parameter

/-- A parameter is read from its JSON form. -/
theorem read_toJson {p : Parameter} {n : Nat} (hn : p.toJson.depth ≤ n) :
    read n p.toJson = some p := by
  obtain ⟨m, rfl, hdepth⟩ := Json.exists_of_depth_obj_le hn
  have htype := p.type.read_toJson m (hdepth _ List.mem_cons_self)
  simp [read, toJson, Json.fields?, lookup?_cons, htype]

/-- The JSON form of a parameter is exact. -/
theorem exact_toJson (p : Parameter) : Exact p.toJson := by
  refine .obj ?_
  simp [p.type.exact_toJson, Exact.bool, Json.exact_nat]

end Parameter

namespace Descriptor

/-- The field of the enclosing type is one that may be left out. -/
theorem enclosingField_eq (d : Option Descriptor) :
    enclosingField d = optionalField "enclosing_type" toJson d := by
  cases d <;> rfl

/-- The fields that do not tell the kind. -/
def otherFields (d : Descriptor) : List (String × Json) :=
  [("name", .str d.name), ("namespace", .str d.ns)]
    ++ optionalField "enclosing_type" toJson d.enclosing
    ++ listField "type_parameters" (d.typeParameters.map TypeParameter.toJson)
    ++ listField "parameters" (d.parameters.map Parameter.toJson)
    ++ optionalField "explicit_interface" TypeRef.toJson d.explicitInterface
    ++ optionalField "return_type" TypeRef.toJson d.returnType
    ++ [("is_static", .bool d.isStatic)]

/-- The JSON form of a descriptor: the fields of its kind, and the others. -/
theorem toJson_eq (d : Descriptor) : d.toJson = .obj (d.kind.toFields ++ d.otherFields) := by
  obtain ⟨kind, name, ns, enclosing, typeParameters, parameters, explicitInterface, returnType,
    isStatic⟩ := d
  rw [toJson, enclosingField_eq]
  simp only [otherFields, List.append_assoc]

/-- A descriptor that is there is not written as null. -/
theorem toJson_ne_null (d : Descriptor) : d.toJson ≠ .null := by
  simp [toJson_eq]

/-- What is found under the names that do not tell the kind. -/
theorem lookup?_fields (d : Descriptor) :
    fieldNames.map (Json.lookup? (d.kind.toFields ++ d.otherFields))
      = [some (some (.str d.name)), some (some (.str d.ns)), some (d.enclosing.map toJson),
        some (if d.typeParameters = [] then none
          else some (.arr (d.typeParameters.map TypeParameter.toJson))),
        some (if d.parameters = [] then none else some (.arr (d.parameters.map Parameter.toJson))),
        some (d.explicitInterface.map TypeRef.toJson), some (d.returnType.map TypeRef.toJson),
        some (some (.bool d.isStatic))] := by
  -- the fields of the kind have none of these names
  have hkind : fieldNames.map (Json.lookup? (d.kind.toFields ++ d.otherFields))
      = fieldNames.map (Json.lookup? d.otherFields) := by
    refine List.map_congr_left fun name hname => ?_
    rw [lookup?_append, d.kind.lookup?_toFields name hname, Json.found_none_left]
  rw [hkind]
  simp [fieldNames, otherFields, lookup?_append, lookup?_cons, lookup?_optionalField,
    lookup?_listField]

/-- What is about the kind is found in its fields. -/
theorem lookup?_of_kind (d : Descriptor) : ∀ name ∈ ["kind", "category", "is_conversion"],
    Json.lookup? (d.kind.toFields ++ d.otherFields) name = Json.lookup? d.kind.toFields name := by
  intro name hname
  have hother : Json.lookup? d.otherFields name = some none := by
    revert name
    simp [otherFields, lookup?_append, lookup?_cons, lookup?_optionalField, lookup?_listField]
  rw [lookup?_append, hother, Json.found_none_right]

/-- All fields that a reader does not know before the kind can be kept. -/
theorem all_isKept (d : Descriptor) (n : Nat) :
    ((d.kind.toFields ++ d.otherFields).all fun field =>
      fieldNames.contains field.1 || field.2.isKept n) = true := by
  rw [List.all_eq_true, List.forall_mem_append]
  constructor
  · intro field hfield
    simp [d.kind.isKept_toFields n field hfield]
  · -- the other fields are known by name, and need not be kept
    have hnames : ∀ field ∈ d.otherFields, field.1 ∈ fieldNames := by
      simp only [otherFields, List.forall_mem_append, forall_mem_optionalField,
        forall_mem_listField, List.forall_mem_cons, fieldNames]
      simp
    intro field hfield
    simp [hnames field hfield]

/-- A descriptor is read from its JSON form. -/
theorem read_toJson (d : Descriptor) : ∀ n, d.toJson.depth ≤ n → read n d.toJson = some d := by
  induction d using Descriptor.induction with
  | level d ih =>
    intro n hn
    rw [toJson_eq] at hn ⊢
    obtain ⟨m, rfl, hdepth⟩ := Json.exists_of_depth_obj_le hn
    simp only [otherFields, List.forall_mem_append, forall_mem_optionalField,
      forall_mem_listField] at hdepth
    obtain ⟨-, ⟨⟨⟨⟨⟨-, hdepthEnclosing⟩, hdepthTypeParameters⟩, hdepthParameters⟩, hdepthInterface⟩,
      hdepthReturn⟩, -⟩ := hdepth
    have henclosing : optional (read m) (d.enclosing.map toJson) = some d.enclosing :=
      Json.optional_map toJson_ne_null fun e he => ih e he m (hdepthEnclosing e he)
    have htypeParameters := Json.withDefault_listWithin?
      (fun (p : TypeParameter) _ _ => TypeParameter.read_toJson) hdepthTypeParameters
    have hparameters := Json.withDefault_listWithin?
      (fun (p : Parameter) _ _ => Parameter.read_toJson) hdepthParameters
    have hinterface : optional (TypeRef.read m) (d.explicitInterface.map TypeRef.toJson)
        = some d.explicitInterface :=
      Json.optional_map TypeRef.toJson_ne_null fun t ht => t.read_toJson m (hdepthInterface t ht)
    have hreturn :
        optional (TypeRef.read m) (d.returnType.map TypeRef.toJson) = some d.returnType :=
      Json.optional_map TypeRef.toJson_ne_null fun t ht => t.read_toJson m (hdepthReturn t ht)
    -- the kind is told by its name and by fields that no other part of the descriptor has
    obtain ⟨name, hname, hkind⟩ := d.kind.exists_ofName?_toFields
    have hkind := hkind _ fun key hkey => d.lookup?_of_kind key (List.mem_cons_of_mem _ hkey)
    have hfields := d.lookup?_fields
    simp only [fieldNames, List.map_cons, List.cons.injEq] at hfields
    have hkindField := d.lookup?_of_kind "kind" (by simp)
    have hkept := d.all_isKept m
    -- from here on only what is found in the fields matters
    generalize d.kind.toFields ++ d.otherFields = fields at *
    have heta : (⟨d.kind, d.name, d.ns, d.enclosing, d.typeParameters, d.parameters,
        d.explicitInterface, d.returnType, d.isStatic⟩ : Descriptor) = d := by cases d; rfl
    rw [read, guard, if_pos hkept]
    simp [hfields, hkindField, hname, Kind.name?, hkind, henclosing, htypeParameters, hparameters,
      hinterface, hreturn, heta]

/-- The JSON form of a descriptor is exact. -/
theorem exact_toJson (d : Descriptor) : Exact d.toJson := by
  induction d using Descriptor.induction with
  | level d ih =>
    rw [toJson_eq]
    refine .obj ?_
    simp only [otherFields, List.forall_mem_append, forall_mem_optionalField, forall_mem_listField]
    refine ⟨d.kind.exact_toFields, ⟨⟨⟨⟨⟨?_, ih⟩, fun _ => .arr ?_⟩, fun _ => .arr ?_⟩,
      fun t _ => t.exact_toJson⟩, fun t _ => t.exact_toJson⟩, ?_⟩
    · simp [Exact.str]
    · simp [TypeParameter.exact_toJson]
    · simp [Parameter.exact_toJson]
    · simp [Exact.bool]

end Descriptor

/-! ### Declarations -/

namespace Declaration

/-- A declaration is read from its JSON form. -/
theorem read_toJson {d : Declaration} {n : Nat} (hn : d.toJson.depth ≤ n) :
    read n d.toJson = some d := by
  rw [toJson] at hn ⊢
  obtain ⟨m, rfl, hdepth⟩ := Json.exists_of_depth_obj_le hn
  simp only [List.forall_mem_append, forall_mem_optionalField, forall_mem_listField,
    List.forall_mem_cons] at hdepth
  obtain ⟨⟨⟨⟨hdepthDescriptor, -⟩, hdepthBase⟩, hdepthInterfaces⟩, hdepthMembers, -⟩ := hdepth
  have hdescriptor := d.descriptor.read_toJson m hdepthDescriptor
  have hbase : optional (TypeRef.read m) (d.base.map TypeRef.toJson) = some d.base :=
    Json.optional_map TypeRef.toJson_ne_null fun t ht => t.read_toJson m (hdepthBase t ht)
  have hinterfaces := Json.withDefault_listWithin?
    (fun (t : TypeRef) _ => t.read_toJson) hdepthInterfaces
  have hmembers := Json.listWithin?_map (fun (m : Descriptor) _ => m.read_toJson) hdepthMembers
  simp [read, Json.fields?, lookup?_append, lookup?_cons, lookup?_optionalField,
    lookup?_listField, TypeRef.readList_eq, hdescriptor, hbase, hinterfaces, hmembers]

/-- The JSON form of a declaration is exact. -/
theorem exact_toJson (d : Declaration) : Exact d.toJson := by
  refine .obj ?_
  simp only [List.forall_mem_append, forall_mem_optionalField, forall_mem_listField,
    List.forall_mem_singleton]
  refine ⟨⟨⟨d.descriptor.exact_toJson, fun t _ => t.exact_toJson⟩, fun _ => .arr ?_⟩, .arr ?_⟩
  · simp [TypeRef.exact_toJson]
  · simp [Descriptor.exact_toJson]

/-- The text of a declaration denotes its JSON form. -/
theorem parse_text (d : Declaration) : Json.parse d.text = some d.toJson :=
  Json.parse_compact d.exact_toJson

/-- The reader descends far enough for any declaration. -/
theorem ofJson?_toJson (d : Declaration) : ofJson? d.toJson = some d :=
  read_toJson (Nat.le_refl _)

/-- Declarations with the same text are equal, for the text can be read back. -/
theorem text_injective {d e : Declaration} (h : d.text = e.text) : d = e := by
  have hjson : some d.toJson = some e.toJson := by rw [← parse_text, ← parse_text, h]
  have hread : some d = some e := by rw [← ofJson?_toJson, ← ofJson?_toJson, Option.some.inj hjson]
  exact Option.some.inj hread

/-- **Declarations are read back from their text**, however deeply types, arguments and members are
    nested.  So no two declarations have the same text. -/
theorem text_roundTrip :
    (∀ d : Declaration, ofText? d.text = some d) ∧ Function.Injective Declaration.text := by
  refine ⟨fun d => ?_, fun d e h => text_injective h⟩
  rw [ofText?, parse_text, Option.bind_some, ofJson?_toJson]

end Declaration

end InheritDoc
