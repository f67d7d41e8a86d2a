import InheritDoc.Element.Descriptor

namespace InheritDoc

/-!
# Induction over references and descriptors

* `TypeRef.induction`    : over a reference, its enclosing type and its arguments;
* `Descriptor.induction` : over a descriptor and its enclosing types.
-/

namespace TypeRef

/-- Induction over a reference: what holds of its enclosing type and of its arguments holds of the
    reference. -/
@[elab_as_elim]
theorem induction {motive : TypeRef → Prop}
    (ref : ∀ t : TypeRef, (∀ e, t.enclosing = some e → motive e) → (∀ a ∈ t.arguments, motive a) →
      motive t) : ∀ t, motive t
  | ⟨ns, name, enclosing, arguments, rank, pointers, slot⟩ =>
    ref ⟨ns, name, enclosing, arguments, rank, pointers, slot⟩
      (fun e _ => induction ref e) (fun a _ => induction ref a)
termination_by t => sizeOf t
decreasing_by
  · rename_i he
    simp only at he
    subst he
    simp only [mk.sizeOf_spec, Option.some.sizeOf_spec]
    omega
  · -- an argument is smaller than the list of arguments, which is a part of the reference
    rename_i ha
    have := List.sizeOf_lt_of_mem ha
    simp only [mk.sizeOf_spec] at this ⊢
    omega

end TypeRef

/-- Induction over a descriptor: what holds of its enclosing type holds of the descriptor. -/
@[elab_as_elim]
theorem Descriptor.induction {motive : Descriptor → Prop}
    (level : ∀ d : Descriptor, (∀ e, d.enclosing = some e → motive e) → motive d) : ∀ d, motive d
  | ⟨kind, name, ns, enclosing, typeParameters, parameters, explicitInterface, returnType,
      isStatic⟩ =>
    level ⟨kind, name, ns, enclosing, typeParameters, parameters, explicitInterface, returnType,
      isStatic⟩ fun e _ => Descriptor.induction level e
termination_by d => sizeOf d
decreasing_by
  rename_i he
  simp only at he
  subst he
  simp only [mk.sizeOf_spec, Option.some.sizeOf_spec]
  omega

end InheritDoc
