import InheritDoc.Proofs.Element.Induction
import InheritDoc.Proofs.Id.Encode

namespace InheritDoc

/-!
# Which elements have ids

An id cannot be written where a name is missing or a reference contradicts itself.  Each writer of
ids succeeds on exactly the elements and references in which this is not so, and each looks at other
parts of them: a declaration id does not depend on type arguments, the code of a reference does, and
behind a use of a generic parameter there is nothing to look at.

* `TypeRef.levels`, `Descriptor.levels` : a type and the types around it, from the inside out;
* `TypeRef.Composed`, `TypeRef.Sound`   : references that do not contradict themselves;
* `Descriptor.WellFormed`               : elements of which nothing is missing;
* `TypeRef.encode_total`, `TypeRef.declarationId_total`, `Descriptor.encodeType_total`,
  `Descriptor.encodeMember_total`       : what each writer succeeds on;
* `prefixedId_total` : **an element has a documentation id exactly if it is well-formed**;
* `prefixedId_misused_parameter` : a name does not make up for a misused generic parameter.
-/

/-! ### Types and the types around them -/

namespace TypeRef

mutual

/-- A reference and the references that enclose it, from the inside out. -/
def levels : TypeRef → List TypeRef
  | ⟨ns, name, enclosing, arguments, rank, pointers, slot⟩ =>
    ⟨ns, name, enclosing, arguments, rank, pointers, slot⟩ :: levelsAround enclosing

/-- The levels of an enclosing type, if there is one. -/
def levelsAround : Option TypeRef → List TypeRef
  | none => []
  | some t => levels t

end

/-- What holds on all levels holds of the reference and on the levels around it. -/
theorem forall_mem_levels {p : TypeRef → Prop} {t : TypeRef} :
    (∀ level ∈ t.levels, p level) ↔
      p t ∧ ∀ e, t.enclosing = some e → ∀ level ∈ e.levels, p level := by
  obtain ⟨ns, name, enclosing, arguments, rank, pointers, slot⟩ := t
  rw [levels, List.forall_mem_cons]
  cases enclosing with
  | none => simp [levelsAround]
  | some e => simp [levelsAround]

end TypeRef

namespace Descriptor

mutual

/-- An element and the types that enclose it, from the inside out. -/
def levels : Descriptor → List Descriptor
  | ⟨kind, name, ns, enclosing, typeParameters, parameters, interface, returnType, isStatic⟩ =>
    ⟨kind, name, ns, enclosing, typeParameters, parameters, interface, returnType, isStatic⟩ ::
      levelsAround enclosing

/-- The levels of an enclosing type, if there is one. -/
def levelsAround : Option Descriptor → List Descriptor
  | none => []
  | some d => levels d

end

/-- What holds on all levels holds of the element and on the levels around it. -/
theorem forall_mem_levels {p : Descriptor → Prop} {d : Descriptor} :
    (∀ level ∈ d.levels, p level) ↔
      p d ∧ ∀ e, d.enclosing = some e → ∀ level ∈ e.levels, p level := by
  obtain ⟨kind, name, ns, enclosing, typeParameters, parameters, interface, returnType, isStatic⟩ := d
  rw [levels, List.forall_mem_cons]
  cases enclosing with
  | none => simp [levelsAround]
  | some e => simp [levelsAround]

end Descriptor

/-! ### References -/

namespace TypeRef

/-- The reference is put together from uses of generic parameters that stand alone, and from types
    that `named` admits, with enclosing types and arguments put together in the same way. -/
inductive Composed (named : TypeRef → Prop) : TypeRef → Prop
  | parameter {t : TypeRef} (hslot : t.slot ≠ none) (harguments : t.arguments = [])
      (henclosing : t.enclosing = none) : Composed named t
  | type {t : TypeRef} (hnamed : named t) (henclosing : ∀ e, t.enclosing = some e → Composed named e)
      (harguments : ∀ a ∈ t.arguments, Composed named a) : Composed named t

/-- The reference names a type and is no use of a generic parameter. -/
def NamesType (t : TypeRef) : Prop :=
  t.name ≠ "" ∧ t.slot = none

/-- The reference does not contradict itself: it is a use of a generic parameter that stands alone,
    or else it has a name, and its enclosing type and its arguments are sound. -/
def Sound : TypeRef → Prop :=
  Composed NamesType

/-- Whether what stands before the name can be written depends on the enclosing type only. -/
theorem encodeOwner_total {ns : String} {enclosing : Option TypeRef} :
    (∃ owner, encodeOwner ns enclosing = .ok owner) ↔
      ∀ e, enclosing = some e → ∃ code, e.encode = .ok code := by
  cases enclosing with
  | none => simp [encodeOwner]
  | some e => simp [encodeOwner]

/-- The owner in a link has an id if the type around it, where there is one, has. -/
theorem declarationOwner_total {ns : String} {enclosing : Option TypeRef} :
    (∃ owner, declarationOwner ns enclosing = .ok owner) ↔
      ∀ e, enclosing = some e → ∃ id, e.declarationId = .ok id := by
  cases enclosing with
  | none => simp [declarationOwner]
  | some e => simp [declarationOwner]

/-- **A reference has a code exactly if it is sound.** -/
theorem encode_total (t : TypeRef) : (∃ code, t.encode = .ok code) ↔ t.Sound := by
  induction t using TypeRef.induction with
  | ref t ihenclosing iharguments =>
    constructor
    · rintro ⟨code, hcode⟩
      rcases encode_eq_ok.mp hcode with ⟨p, hslot, harguments, henclosing, -⟩ |
        ⟨hslot, hname, owner, codes, howner, hcodes, -⟩
      · exact .parameter (by simp [hslot]) harguments henclosing
      · refine .type ⟨hname, hslot⟩ (fun e he => ?_) (fun a ha => ?_)
        · exact (ihenclosing e he).mp (encodeOwner_total.mp ⟨owner, howner⟩ e he)
        · obtain ⟨code, -, hcode⟩ := exists_right_of_mem hcodes ha
          exact (iharguments a ha).mp ⟨code, hcode⟩
    · intro hsound
      cases hsound with
      -- a use of a generic parameter, which has neither arguments nor an owner
      | parameter hslot harguments henclosing =>
        obtain ⟨p, hp⟩ := Option.ne_none_iff_exists'.mp hslot
        exact ⟨_, encode_eq_ok.mpr (.inl ⟨p, hp, harguments, henclosing, rfl⟩)⟩
      | type hnamed henclosing harguments =>
        obtain ⟨owner, howner⟩ : ∃ owner, encodeOwner t.ns t.enclosing = .ok owner :=
          encodeOwner_total.mpr fun e he => (ihenclosing e he).mpr (henclosing e he)
        obtain ⟨codes, hcodes⟩ := exists_mapM_eq_ok fun a ha =>
          (iharguments a ha).mpr (harguments a ha)
        exact ⟨_, encode_eq_ok.mpr
          (.inr ⟨hnamed.2, hnamed.1, owner, codes, howner, mapM_eq_ok.mp hcodes, rfl⟩)⟩

/-- **A reference has a declaration id exactly if all its levels name types.**  Its arguments do not
    matter. -/
theorem declarationId_total (t : TypeRef) :
    (∃ id, t.declarationId = .ok id) ↔ ∀ level ∈ t.levels, level.NamesType := by
  induction t using TypeRef.induction with
  | ref t ihenclosing _ =>
    have howner : (∃ owner, declarationOwner t.ns t.enclosing = .ok owner) ↔
        ∀ e, t.enclosing = some e → ∀ level ∈ e.levels, level.NamesType := by
      rw [declarationOwner_total]
      exact forall₂_congr ihenclosing
    -- the innermost level on one side, the levels around it on the other
    rw [forall_mem_levels, ← howner]
    constructor
    · rintro ⟨id, hid⟩
      obtain ⟨hslot, hname, owner, howner, -⟩ := declarationId_eq_ok.mp hid
      exact ⟨⟨hname, hslot⟩, owner, howner⟩
    · rintro ⟨⟨hname, hslot⟩, owner, howner⟩
      exact ⟨_, declarationId_eq_ok.mpr ⟨hslot, hname, owner, howner, rfl⟩⟩

end TypeRef

/-! ### Types and members -/

namespace Descriptor

/-- The element and all types around it have names. -/
def NamedThroughout (d : Descriptor) : Prop :=
  ∀ level ∈ d.levels, level.name ≠ ""

/-- The owner in a type id has an id if the type around it, where there is one, has. -/
theorem encodeTypeOwner_total {ns : String} {enclosing : Option Descriptor} :
    (∃ owner, encodeTypeOwner ns enclosing = .ok owner) ↔
      ∀ e, enclosing = some e → ∃ id, e.encodeType = .ok id := by
  cases enclosing with
  | none => simp [encodeTypeOwner]
  | some e => simp [encodeTypeOwner]

/-- **A type has an id exactly if it and all types around it have names.** -/
theorem encodeType_total (d : Descriptor) :
    (∃ id, d.encodeType = .ok id) ↔ d.NamedThroughout := by
  induction d using Descriptor.induction with
  | level d ih =>
    have howner : (∃ owner, encodeTypeOwner d.ns d.enclosing = .ok owner) ↔
        ∀ e, d.enclosing = some e → e.NamedThroughout := by
      rw [encodeTypeOwner_total]
      exact forall₂_congr ih
    -- the innermost level on one side, the levels around it on the other
    show _ ↔ ∀ level ∈ d.levels, level.name ≠ ""
    rw [forall_mem_levels]
    constructor
    · rintro ⟨id, hid⟩
      obtain ⟨hname, owner, howner', -⟩ := encodeType_eq_ok.mp hid
      exact ⟨hname, howner.mp ⟨owner, howner'⟩⟩
    · rintro ⟨hname, henclosing⟩
      obtain ⟨owner, howner'⟩ := howner.mpr henclosing
      exact ⟨_, encodeType_eq_ok.mpr ⟨hname, owner, howner', rfl⟩⟩

/-- Nothing is missing of the signature of a member: it has a name unless it is a constructor, the
    interface that it implements explicitly names types on all levels, its parameters are of types
    that `sound` admits, and if it is a conversion operator, it has such a target. -/
structure Signed (sound : TypeRef → Prop) (d : Descriptor) : Prop where
  name : d.kind = .constructor ∨ d.name ≠ ""
  interface : ∀ i, d.explicitInterface = some i → ∀ level ∈ i.levels, level.NamesType
  parameters : ∀ p ∈ d.parameters, sound p.type
  target : d.kind.isConversion = true → ∃ t, d.returnType = some t ∧ sound t

/-- Constructors have names of their own, all other members the one they are given. -/
theorem memberName_ne_empty {d : Descriptor} :
    d.memberName ≠ "" ↔ d.kind = .constructor ∨ d.name ≠ "" := by
  unfold memberName
  cases hkind : d.kind with
  | constructor => by_cases hstatic : d.isStatic <;> simp [hstatic]
  | _ => simp

/-- The name of a member can be written if the interface that it implements explicitly can be. -/
theorem encodeMemberName_total {d : Descriptor} :
    (∃ name, d.encodeMemberName = .ok name) ↔
      ∀ i, d.explicitInterface = some i → ∀ level ∈ i.levels, level.NamesType := by
  constructor
  · rintro ⟨name, hname⟩ i hi
    rcases encodeMemberName_eq_ok.mp hname with ⟨hnone, -⟩ | ⟨i', id, hi', hid, -⟩
    · simp [hnone] at hi
    · obtain rfl : i' = i := Option.some.inj (hi'.symm.trans hi)
      exact i'.declarationId_total.mp ⟨id, hid⟩
  · intro h
    cases hinterface : d.explicitInterface with
    | none => exact ⟨_, encodeMemberName_eq_ok.mpr (.inl ⟨hinterface, rfl⟩)⟩
    | some i =>
      obtain ⟨id, hid⟩ := i.declarationId_total.mpr (h i hinterface)
      exact ⟨_, encodeMemberName_eq_ok.mpr (.inr ⟨i, id, hinterface, hid, rfl⟩)⟩

/-- The order in which parameters are written does not matter to whether they can be. -/
theorem encodeParameters_total {d : Descriptor} :
    (∃ text, d.encodeParameters = .ok text) ↔ ∀ p ∈ d.parameters, p.type.Sound := by
  -- the parameters are written in order, and the order does not change which there are
  have hordered : ∀ p, p ∈ d.orderedParameters ↔ p ∈ d.parameters := fun p => List.mem_mergeSort
  constructor
  · rintro ⟨text, htext⟩ p hp
    rw [← hordered] at hp
    rcases encodeParameters_eq_ok.mp htext with ⟨hnil, -⟩ | ⟨codes, -, hcodes, -⟩
    · simp [hnil] at hp
    · obtain ⟨code, -, hcode⟩ := exists_right_of_mem hcodes hp
      obtain ⟨type, htype, -⟩ := encodeParameter_eq_ok.mp hcode
      exact p.type.encode_total.mp ⟨type, htype⟩
  · intro h
    by_cases hnil : d.orderedParameters = []
    · exact ⟨_, encodeParameters_eq_ok.mpr (.inl ⟨hnil, rfl⟩)⟩
    · obtain ⟨codes, hcodes⟩ : ∃ codes, d.orderedParameters.mapM encodeParameter = .ok codes := by
        refine exists_mapM_eq_ok fun p hp => ?_
        obtain ⟨type, htype⟩ := p.type.encode_total.mpr (h p ((hordered p).mp hp))
        exact ⟨_, encodeParameter_eq_ok.mpr ⟨type, htype, rfl⟩⟩
      exact ⟨_, encodeParameters_eq_ok.mpr (.inr ⟨codes, hnil, mapM_eq_ok.mp hcodes, rfl⟩)⟩

/-- The target of a conversion operator can be written if it is given and sound. -/
theorem encodeTarget_total {d : Descriptor} :
    (∃ text, d.encodeTarget = .ok text) ↔
      (d.kind.isConversion = true → ∃ t, d.returnType = some t ∧ t.Sound) := by
  constructor
  · rintro ⟨text, htext⟩ hkind
    rcases encodeTarget_eq_ok.mp htext with ⟨hnot, -⟩ | ⟨type, code, -, htype, hcode, -⟩
    · simp [hnot] at hkind
    · exact ⟨type, htype, type.encode_total.mp ⟨code, hcode⟩⟩
  · intro h
    cases hkind : d.kind.isConversion with
    | false => exact ⟨_, encodeTarget_eq_ok.mpr (.inl ⟨hkind, rfl⟩)⟩
    | true =>
      obtain ⟨type, htype, hsound⟩ := h hkind
      obtain ⟨code, hcode⟩ := type.encode_total.mpr hsound
      exact ⟨_, encodeTarget_eq_ok.mpr (.inr ⟨type, code, hkind, htype, hcode, rfl⟩)⟩

/-- **A member has an id within its type exactly if nothing is missing of its signature.** -/
theorem encodeMember_total (d : Descriptor) :
    (∃ id, d.encodeMember = .ok id) ↔ d.Signed TypeRef.Sound := by
  constructor
  · rintro ⟨id, hid⟩
    obtain ⟨hname, name, parameters, target, hencoded, hparameters, htarget, -⟩ :=
      encodeMember_eq_ok.mp hid
    exact ⟨memberName_ne_empty.mp hname, encodeMemberName_total.mp ⟨name, hencoded⟩,
      encodeParameters_total.mp ⟨parameters, hparameters⟩, encodeTarget_total.mp ⟨target, htarget⟩⟩
  · intro h
    obtain ⟨name, hname⟩ := encodeMemberName_total.mpr h.interface
    obtain ⟨parameters, hparameters⟩ := encodeParameters_total.mpr h.parameters
    obtain ⟨target, htarget⟩ := encodeTarget_total.mpr h.target
    exact ⟨_, encodeMember_eq_ok.mpr ⟨memberName_ne_empty.mpr h.name, name, parameters, target,
      hname, hparameters, htarget, rfl⟩⟩

/-! ### Documentation ids -/

/-- Nothing is missing that the documentation id of the element is made of.  A type and the types
    around it have names; a member has an enclosing type of which this is true, and a signature with
    references that `sound` admits. -/
inductive WellFormed (sound : TypeRef → Prop) (d : Descriptor) : Prop
  | type (hkind : d.kind.isType = true) (hnames : d.NamedThroughout) : WellFormed sound d
  | member {owner : Descriptor} (hkind : d.kind.isType = false) (howner : d.enclosing = some owner)
      (hnames : owner.NamedThroughout) (hsigned : d.Signed sound) : WellFormed sound d

end Descriptor

/-- **An element has a documentation id exactly if it is well-formed.** -/
theorem prefixedId_total (d : Descriptor) :
    (∃ id, d.prefixedId = .ok id) ↔ d.WellFormed TypeRef.Sound := by
  constructor
  · rintro ⟨id, hid⟩
    obtain ⟨qualified, hqualified, -⟩ := Descriptor.prefixedId_eq_ok.mp hid
    rcases Descriptor.qualifiedId_eq_ok.mp hqualified with ⟨hkind, htype⟩ |
      ⟨owner, ownerId, memberId, hkind, howner, hownerId, hmemberId, -⟩
    · exact .type hkind (d.encodeType_total.mp ⟨qualified, htype⟩)
    · exact .member hkind howner (owner.encodeType_total.mp ⟨ownerId, hownerId⟩)
        (d.encodeMember_total.mp ⟨memberId, hmemberId⟩)
  · intro h
    cases h with
    | type hkind hnames =>
      obtain ⟨id, hid⟩ := d.encodeType_total.mpr hnames
      exact ⟨_, Descriptor.prefixedId_eq_ok.mpr
        ⟨id, Descriptor.qualifiedId_eq_ok.mpr (.inl ⟨hkind, hid⟩), rfl⟩⟩
    | @member owner hkind howner hnames hsigned =>
      obtain ⟨ownerId, hownerId⟩ := owner.encodeType_total.mpr hnames
      obtain ⟨memberId, hmemberId⟩ := d.encodeMember_total.mpr hsigned
      exact ⟨_, Descriptor.prefixedId_eq_ok.mpr ⟨_, Descriptor.qualifiedId_eq_ok.mpr
        (.inr ⟨owner, ownerId, memberId, hkind, howner, hownerId, hmemberId, rfl⟩), rfl⟩⟩

/-- A method with a parameter whose type is a generic parameter and has an argument nevertheless. -/
def sampleMisuse : Descriptor :=
  ((Descriptor.method "Add").withParameter
    ((TypeRef.ofParameter ⟨"T", 0, .onType⟩).withArguments [.named "System" "Int32"]) false).inType
    (.classDecl "Shop" "Cart")

/-- It is not enough for a reference to have a name and sound arguments: the generic parameter has
    both, and still there is no documentation id. -/
theorem prefixedId_misused_parameter :
    sampleMisuse.WellFormed (TypeRef.Composed (·.name ≠ "")) ∧
      sampleMisuse.prefixedId = .error (.inconsistentTypeRef "T" .argumentsOfParameter) := by
  have hint : TypeRef.Composed (·.name ≠ "") (.named "System" "Int32") :=
    .type (by decide) (by simp [TypeRef.named]) (by simp [TypeRef.named])
  have hparameter : TypeRef.Composed (·.name ≠ "")
      ((TypeRef.ofParameter ⟨"T", 0, .onType⟩).withArguments [.named "System" "Int32"]) :=
    .type (by decide) (by simp [TypeRef.ofParameter, TypeRef.withArguments])
      (List.forall_mem_singleton.mpr hint)
  have hsigned : sampleMisuse.Signed (TypeRef.Composed (·.name ≠ "")) :=
    ⟨.inr (by decide), nofun, List.forall_mem_singleton.mpr hparameter, nofun⟩
  have hnames : (Descriptor.classDecl "Shop" "Cart").NamedThroughout :=
    List.forall_mem_singleton.mpr (by decide)
  exact ⟨.member rfl rfl hnames hsigned, by decide +kernel⟩

end InheritDoc
