import InheritDoc.Id.Encode
import InheritDoc.Proofs.Outcome

namespace InheritDoc

/-!
# How ids are put together

What it means that an id could be written, one statement for each writer: the checks that were
passed, the ids of the parts, and how the text is made of them.  Proofs about ids use these
statements and not the writers.

* `TypeRef.encode_eq_ok`, `TypeRef.declarationId_eq_ok` : the two forms of a reference;
* `Descriptor.encodeType_eq_ok`, `Descriptor.encodeMember_eq_ok` : types and members.
-/

/-- A name within an owner is not empty. -/
theorem joinDotted_ne_empty {name : String} (owner : String) (h : name ≠ "") :
    joinDotted owner name ≠ "" := by
  unfold joinDotted
  split <;> simp [h]

/-! ### Type references -/

namespace TypeRef

/-- The name of a reference as it stands in its code.  An arity mark gives way to type arguments. -/
def codeName (t : TypeRef) : String :=
  if t.arguments.isEmpty then baseName t.name else withoutArity (baseName t.name)

/-- Type arguments in braces; nothing when there are none. -/
def argumentList (codes : List String) : String :=
  if codes.isEmpty then "" else "\x7b" ++ ",".intercalate codes ++ "\x7d"

/-- Several references have codes if each of them has. -/
theorem encodeAll_eq_mapM (ts : List TypeRef) : encodeAll ts = ts.mapM encode := by
  induction ts with
  | nil => rfl
  | cons t ts ih => rw [encodeAll, ih, List.mapM_cons]

/-- A use of a generic parameter passes the check if it stands alone, any other reference if it has
    a name. -/
theorem check_eq_ok {t : TypeRef} {u : Unit} :
    t.check = .ok u ↔
      (t.slot ≠ none ∧ t.arguments = [] ∧ t.enclosing = none) ∨ (t.slot = none ∧ t.name ≠ "") := by
  unfold check
  cases t.slot with
  | none => by_cases hname : t.name = "" <;> simp [hname]
  | some p =>
    by_cases hargs : t.arguments = []
    · cases t.enclosing <;> simp [hargs]
    · simp [hargs]

/-- A reference has a code exactly if it is a use of a generic parameter that stands alone, or has a
    name and its enclosing type and its arguments have codes. -/
theorem encode_eq_ok {t : TypeRef} {code : String} :
    t.encode = .ok code ↔
      (∃ p, t.slot = some p ∧ t.arguments = [] ∧ t.enclosing = none ∧
        code = p.placeholder ++ t.marks) ∨
      (t.slot = none ∧ t.name ≠ "" ∧ ∃ owner codes, encodeOwner t.ns t.enclosing = .ok owner ∧
        List.Forall₂ (fun a c => encode a = .ok c) t.arguments codes ∧
        code = joinDotted owner t.codeName ++ argumentList codes ++ t.marks) := by
  -- the writer looks for a generic parameter first, so does the proof
  obtain ⟨ns, name, enclosing, arguments, rank, pointers, slot⟩ := t
  cases slot with
  | some p =>
    simp only [encode, bind_eq_ok, check_eq_ok, pure, Except.pure, Except.ok.injEq]
    constructor
    · rintro ⟨_, h | h, rfl⟩
      · exact .inl ⟨p, rfl, h.2.1, h.2.2, rfl⟩
      · simp at h
    · rintro (⟨p', hp, hargs, henc, rfl⟩ | h)
      · cases hp
        exact ⟨(), .inl ⟨by simp, hargs, henc⟩, rfl⟩
      · simp at h
  | none =>
    simp only [encode, bind_eq_ok, check_eq_ok, encodeAll_eq_mapM, mapM_eq_ok]
    constructor
    · rintro ⟨_, h | h, owner, howner, codes, hcodes, hcode⟩
      · simp at h
      · refine .inr ⟨trivial, h.2, owner, codes, howner, hcodes, ?_⟩
        cases hcodes with
        | nil =>
          simp only [pure, Except.pure, Except.ok.injEq] at hcode
          simp [← hcode, codeName, argumentList]
        | cons _ _ =>
          simp only [pure, Except.pure, Except.ok.injEq] at hcode
          simp [← hcode, codeName, argumentList, String.append_assoc]
    · rintro (⟨p, hp, -⟩ | ⟨-, hname, owner, codes, howner, hcodes, rfl⟩)
      · simp at hp
      · refine ⟨(), .inr ⟨trivial, hname⟩, owner, howner, codes, hcodes, ?_⟩
        cases hcodes with
        | nil => simp [codeName, argumentList, pure, Except.pure]
        | cons _ _ => simp [codeName, argumentList, pure, Except.pure, String.append_assoc]

/-- Before the name of a type stands its namespace or the code of its enclosing type. -/
theorem encodeOwner_eq_ok {ns owner : String} {enclosing : Option TypeRef} :
    encodeOwner ns enclosing = .ok owner ↔
      (enclosing = none ∧ owner = ns) ∨ ∃ e, enclosing = some e ∧ e.encode = .ok owner := by
  cases enclosing <;> simp [encodeOwner, eq_comm]

/-- A reference has a declaration id exactly if it has a name, is no use of a generic parameter, and
    its enclosing type has a declaration id. -/
theorem declarationId_eq_ok {t : TypeRef} {id : String} :
    t.declarationId = .ok id ↔
      t.slot = none ∧ t.name ≠ "" ∧ ∃ owner, declarationOwner t.ns t.enclosing = .ok owner ∧
        id = joinDotted owner t.codeName ++
          if t.arguments.isEmpty then "" else arityMark t.arguments.length := by
  obtain ⟨ns, name, enclosing, arguments, rank, pointers, slot⟩ := t
  rw [declarationId, bind_eq_ok]
  simp only [check_eq_ok]
  cases slot with
  | some p => simp [throw, throwThe, MonadExceptOf.throw, bind, Except.bind]
  | none =>
    simp only [Option.isSome_none, Bool.false_eq_true, ↓reduceIte, bind_eq_ok, codeName]
    cases arguments <;> simp [pure, Except.pure, eq_comm]

/-- Before the name in a declaration id stands the namespace or the id of the enclosing type. -/
theorem declarationOwner_eq_ok {ns owner : String} {enclosing : Option TypeRef} :
    declarationOwner ns enclosing = .ok owner ↔
      (enclosing = none ∧ owner = ns) ∨ ∃ e, enclosing = some e ∧ e.declarationId = .ok owner := by
  cases enclosing <;> simp [declarationOwner, eq_comm]

end TypeRef

/-! ### Types -/

namespace Descriptor

/-- The arity mark of a type, which is left out where the name of the type already has one. -/
def typeArity (d : Descriptor) : String :=
  if 0 < d.arity .onType ∧ !d.name.toList.contains '`' then arityMark (d.arity .onType) else ""

/-- A type has an id exactly if it has a name and its enclosing type has an id. -/
theorem encodeType_eq_ok {d : Descriptor} {id : String} :
    d.encodeType = .ok id ↔ d.name ≠ "" ∧ ∃ owner, encodeTypeOwner d.ns d.enclosing = .ok owner ∧
      id = joinDotted owner d.name ++ d.typeArity := by
  obtain ⟨kind, name, ns, enclosing, typeParameters, _, _, _, _⟩ := d
  rw [encodeType]
  by_cases hname : name = ""
  · simp [hname, throw, throwThe, MonadExceptOf.throw, bind, Except.bind]
  · have hempty : name.isEmpty = false := by simpa using hname
    simp only [hempty, Bool.false_eq_true, ↓reduceIte, bind_pure_eq_ok, ne_eq, hname,
      not_false_eq_true, true_and, typeArity, arity]
    exact Iff.rfl

/-- Before the name in the id of a type stands the namespace or the id of the enclosing type. -/
theorem encodeTypeOwner_eq_ok {ns owner : String} {enclosing : Option Descriptor} :
    encodeTypeOwner ns enclosing = .ok owner ↔
      (enclosing = none ∧ owner = ns) ∨ ∃ e, enclosing = some e ∧ e.encodeType = .ok owner := by
  cases enclosing <;> simp [encodeTypeOwner, eq_comm]

/-! ### Members -/

/-- The arity mark of a member, which is left out where there are no generic parameters. -/
def memberArity (d : Descriptor) : String :=
  if 0 < d.arity .onMember then "``" ++ toString (d.arity .onMember) else ""

/-- A member has an id exactly if it has a name and the parts of the id can be written. -/
theorem encodeMember_eq_ok {d : Descriptor} {id : String} :
    d.encodeMember = .ok id ↔ d.memberName ≠ "" ∧ ∃ name parameters target,
      d.encodeMemberName = .ok name ∧ d.encodeParameters = .ok parameters ∧
      d.encodeTarget = .ok target ∧ id = name ++ d.memberArity ++ parameters ++ target := by
  unfold encodeMember
  by_cases hname : d.memberName = ""
  · simp [hname, throw, throwThe, MonadExceptOf.throw, bind, Except.bind]
  · have hempty : d.memberName.isEmpty = false := by simpa using hname
    simp only [hempty, Bool.false_eq_true, ↓reduceIte, bind_eq_ok, pure, Except.pure,
      Except.ok.injEq, ne_eq, hname, not_false_eq_true, true_and, memberArity]
    constructor
    · rintro ⟨name, hname, parameters, hparameters, target, htarget, rfl⟩
      exact ⟨name, parameters, target, hname, hparameters, htarget, rfl⟩
    · rintro ⟨name, parameters, target, hname, hparameters, htarget, rfl⟩
      exact ⟨name, hname, parameters, hparameters, target, htarget, rfl⟩

/-- The name of a member is written as it is, or with the interface that it implements
    explicitly. -/
theorem encodeMemberName_eq_ok {d : Descriptor} {name : String} :
    d.encodeMemberName = .ok name ↔
      (d.explicitInterface = none ∧ name = d.memberName) ∨
      ∃ interface id, d.explicitInterface = some interface ∧ interface.declarationId = .ok id ∧
        name = String.ofList ((id ++ "." ++ d.memberName).toList.map fun c =>
          if c = '.' then '#' else c) := by
  unfold encodeMemberName
  cases d.explicitInterface with
  | none => simp [eq_comm]
  | some interface => simp only [bind_pure_eq_ok, reduceCtorEq, false_and, Option.some.injEq,
      exists_and_left, exists_eq_left', false_or]

/-- A parameter is written as its type, with a mark if it is passed by reference. -/
theorem encodeParameter_eq_ok {p : Parameter} {code : String} :
    encodeParameter p = .ok code ↔
      ∃ type, p.type.encode = .ok type ∧ code = type ++ if p.isByRef then "@" else "" := by
  rw [encodeParameter, bind_pure_eq_ok]
  cases p.isByRef <;> simp

/-- Parameters are written in parentheses, unless there are none. -/
theorem encodeParameters_eq_ok {d : Descriptor} {text : String} :
    d.encodeParameters = .ok text ↔
      (d.orderedParameters = [] ∧ text = "") ∨
      ∃ codes, d.orderedParameters ≠ [] ∧
        List.Forall₂ (fun p c => encodeParameter p = .ok c) d.orderedParameters codes ∧
        text = "(" ++ ",".intercalate codes ++ ")" := by
  -- putting the parameters in order neither adds nor drops one
  have hnil : d.parameters = [] ↔ d.orderedParameters = [] := by
    rw [orderedParameters, ← List.length_eq_zero_iff, ← List.length_eq_zero_iff,
      List.length_mergeSort]
  unfold encodeParameters
  by_cases h : d.parameters = []
  · simp only [h, hnil.mp h, List.isEmpty_nil, ↓reduceIte, pure, Except.pure, Except.ok.injEq,
      ne_eq, not_true_eq_false, false_and, exists_false, or_false, true_and]
    exact eq_comm
  · have hordered : d.orderedParameters ≠ [] := mt hnil.mpr h
    simp only [List.isEmpty_iff, h, hordered, ↓reduceIte, bind_pure_eq_ok, mapM_eq_ok, false_and,
      false_or, ne_eq, not_false_eq_true, true_and]

/-- The target of a conversion operator is written after a tilde; other members have none. -/
theorem encodeTarget_eq_ok {d : Descriptor} {text : String} :
    d.encodeTarget = .ok text ↔
      (d.kind.isConversion = false ∧ text = "") ∨
      ∃ type code, d.kind.isConversion = true ∧ d.returnType = some type ∧ type.encode = .ok code ∧
        text = "~" ++ code := by
  unfold encodeTarget
  cases d.kind.isConversion with
  | false => simp [eq_comm]
  | true =>
    cases d.returnType with
    | none => simp
    | some type => simp only [↓reduceIte, bind_pure_eq_ok, Option.some.injEq, Bool.true_eq_false,
        false_and, true_and, false_or, exists_and_left, exists_eq_left']

/-! ### Ids with owners and letters -/

/-- A type has its own id; a member has one if it has an enclosing type and both have ids. -/
theorem qualifiedId_eq_ok {d : Descriptor} {id : String} :
    d.qualifiedId = .ok id ↔
      (d.kind.isType = true ∧ d.encodeType = .ok id) ∨
      ∃ owner ownerId memberId, d.kind.isType = false ∧ d.enclosing = some owner ∧
        owner.encodeType = .ok ownerId ∧ d.encodeMember = .ok memberId ∧
        id = ownerId ++ "." ++ memberId := by
  unfold qualifiedId
  cases d.kind.isType with
  | true => simp
  | false =>
    cases d.enclosing with
    | none => simp
    | some owner =>
      simp only [Bool.false_eq_true, ↓reduceIte, bind_eq_ok, pure, Except.pure, Except.ok.injEq,
        false_and, true_and, Option.some.injEq, exists_and_left, exists_eq_left', false_or]
      constructor
      · rintro ⟨ownerId, howner, memberId, hmember, rfl⟩
        exact ⟨ownerId, howner, memberId, hmember, rfl⟩
      · rintro ⟨ownerId, howner, memberId, hmember, rfl⟩
        exact ⟨ownerId, howner, memberId, hmember, rfl⟩

/-- A documentation id is a letter, a colon and a qualified id. -/
theorem prefixedId_eq_ok {d : Descriptor} {id : String} :
    d.prefixedId = .ok id ↔ ∃ qualified, d.qualifiedId = .ok qualified ∧
      id = String.singleton d.kind.letter.toChar ++ ":" ++ qualified := by
  rw [prefixedId, bind_pure_eq_ok]

end Descriptor

end InheritDoc
