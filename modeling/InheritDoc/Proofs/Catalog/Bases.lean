import InheritDoc.Proofs.Catalog.Entries
import InheritDoc.Proofs.Catalog.Linearization
import InheritDoc.Proofs.Id.Encode

namespace InheritDoc

/-!
# What members inherit from

A member may inherit from the same member on each ancestor of its type, and from the member that it
implements explicitly.

* `IsBases`       : distinct ids of known elements other than the one that inherits;
* `RankedMember.bases_eq_ok` : how the bases of a member are put together;
* `Descriptor.length_encodeMember_explicit` : the id of an explicit implementation is as long as the
  qualified id of what it implements;
* `RankedMember.isBases_of_bases` : what a member is given is such a list.
-/

/-- Ids that the element `id` may inherit from, in a catalog with the ids `known`. -/
structure IsBases (known : List String) (id : String) (bases : List String) : Prop where
  nodup : bases.Nodup
  known : ∀ base ∈ bases, base ∈ known
  notSelf : id ∉ bases

/-! ### Explicit implementations -/

/-- In the id of an explicit implementation the interface and the name of the member are kept, with
    other characters for the dots.  So it is as long as the id of the member on the interface. -/
theorem Descriptor.length_encodeMember_explicit {d : Descriptor} {interface : TypeRef}
    {interfaceId localId memberId : String} (hexplicit : d.explicitInterface = some interface)
    (hinterface : interface.declarationId = .ok interfaceId)
    (hlocal : d.encodeMember = .ok localId)
    (hmember : { d with explicitInterface := none }.encodeMember = .ok memberId) :
    localId.length = (interfaceId ++ "." ++ memberId).length := by
  obtain ⟨-, name, parameters, target, hname, hparameters, htarget, rfl⟩ :=
    encodeMember_eq_ok.mp hlocal
  obtain ⟨-, name', parameters', target', hname', hparameters', htarget', rfl⟩ :=
    encodeMember_eq_ok.mp hmember
  -- what follows the name does not depend on the interface
  obtain rfl : parameters = parameters' := Except.ok.inj (hparameters.symm.trans hparameters')
  obtain rfl : target = target' := Except.ok.inj (htarget.symm.trans htarget')
  have harity : memberArity { d with explicitInterface := none } = d.memberArity := rfl
  -- without the interface the name is written as it is, with it every dot is replaced by one character
  have hplain : name' = d.memberName := by
    obtain ⟨-, h⟩ | ⟨i, _, h, -⟩ := encodeMemberName_eq_ok.mp hname'
    · exact h
    · cases h
  have hdot : ".".length = 1 := rfl
  have hlong : name.length = interfaceId.length + 1 + d.memberName.length := by
    obtain ⟨h, -⟩ | ⟨i, id, hi, hid, rfl⟩ := encodeMemberName_eq_ok.mp hname
    · rw [hexplicit] at h
      cases h
    · rw [hexplicit, Option.some.injEq] at hi
      rw [← hi, hinterface, Except.ok.injEq] at hid
      rw [hid, ← String.length_toList, String.toList_ofList, List.length_map, String.length_toList,
        String.length_append, String.length_append, hdot]
  simp only [String.length_append, harity, hplain, hlong, hdot]
  omega

namespace RankedMember

variable {hierarchy : Hierarchy} {known : List String} {m : RankedMember}

/-- What a member implements explicitly is known. -/
theorem implemented_eq_ok {targets : List String} :
    m.implemented known = .ok targets ↔
      (m.descriptor.explicitInterface = none ∧ targets = []) ∨
      ∃ interface interfaceId memberId, m.descriptor.explicitInterface = some interface ∧
        interface.declarationId = .ok interfaceId ∧
        { m.descriptor with explicitInterface := none }.encode = .ok memberId ∧
        targets = [interfaceId ++ "." ++ memberId].filter (· ∈ known) := by
  unfold implemented
  cases m.descriptor.explicitInterface with
  | none => simp [eq_comm]
  | some interface =>
    simp only [bind_eq_ok, pure, Except.pure, Except.ok.injEq, List.filter_cons, List.filter_nil,
      decide_eq_true_eq, reduceCtorEq, false_and, false_or, Option.some.injEq, exists_and_left,
      exists_eq_left']
    simp only [eq_comm (b := targets)]

/-- The same member on the ancestors of its type, as far as it is known there. -/
def inherited (hierarchy : Hierarchy) (known : List String) (m : RankedMember) : List String :=
  ((hierarchy.ancestors m.owner).map (· ++ "." ++ m.localId)).filter fun base =>
    base ≠ m.id ∧ base ∈ known

/-- The bases of a member are the inherited ones, and the implemented one if it is not among them.
    -/
theorem bases_eq_ok {bases : List String} :
    m.bases hierarchy known = .ok bases ↔ ∃ targets, m.implemented known = .ok targets ∧
      bases = m.inherited hierarchy known ++ targets.filter (· ∉ m.inherited hierarchy known) :=
  bind_pure_eq_ok

/-- Members of one name on different types are different. -/
theorem nodup_inherited (hierarchy : Hierarchy) (known : List String) (m : RankedMember) :
    (m.inherited hierarchy known).Nodup := by
  refine ((hierarchy.nodup_ancestors m.owner).map fun a b hab => ?_).filter _
  simpa [String.toList_inj] using congrArg String.toList hab

/-- A member implements one member at most, and not itself: its own id is longer by that of its
    owner. -/
theorem isBases_of_implemented (hlocal : m.descriptor.encodeMember = .ok m.localId)
    (hkind : m.descriptor.kind.isType = false) {targets : List String}
    (h : m.implemented known = .ok targets) : IsBases known m.id targets := by
  obtain ⟨-, rfl⟩ | ⟨interface, interfaceId, memberId, hexplicit, hinterface, hmember, rfl⟩ :=
    implemented_eq_ok.mp h
  · exact ⟨.nil, by simp, List.not_mem_nil⟩
  · refine ⟨(List.nodup_singleton _).filter _, by simp, fun hself => ?_⟩
    -- the id of an explicit implementation is longer than that of what it implements
    have hid : m.owner ++ "." ++ m.localId = interfaceId ++ "." ++ memberId :=
      List.mem_singleton.mp (List.mem_of_mem_filter hself)
    rw [Descriptor.encode, if_neg (by simp [hkind])] at hmember
    have hlength := Descriptor.length_encodeMember_explicit hexplicit hinterface hlocal hmember
    have hdot : ".".length = 1 := rfl
    rw [← hid, String.length_append, String.length_append, hdot] at hlength
    omega

/-- **A member inherits from known members other than itself, and from none twice.** -/
theorem isBases_of_bases (hlocal : m.descriptor.encodeMember = .ok m.localId)
    (hkind : m.descriptor.kind.isType = false) {bases : List String}
    (h : m.bases hierarchy known = .ok bases) : IsBases known m.id bases := by
  obtain ⟨targets, htargets, rfl⟩ := bases_eq_ok.mp h
  have htarget := isBases_of_implemented hlocal hkind htargets
  constructor
  case nodup =>
    refine List.nodup_append'.mpr ⟨m.nodup_inherited hierarchy known, htarget.nodup.filter _, ?_⟩
    intro base hinherited hrest
    exact absurd hinherited (by simpa using (List.mem_filter.mp hrest).2)
  case known =>
    intro base hbase
    rcases List.mem_append.mp hbase with hbase | hbase
    · exact (of_decide_eq_true (List.mem_filter.mp hbase).2).2
    · exact htarget.known base (List.mem_of_mem_filter hbase)
  case notSelf =>
    intro hself
    rcases List.mem_append.mp hself with hself | hself
    · exact (of_decide_eq_true (List.mem_filter.mp hself).2).1 rfl
    · exact htarget.notSelf (List.mem_of_mem_filter hself)

end RankedMember

end InheritDoc
