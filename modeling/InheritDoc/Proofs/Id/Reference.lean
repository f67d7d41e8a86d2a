import InheritDoc.Proofs.Id.Spelling

namespace InheritDoc

/-!
# References to declared types

The id of a declared type is written from its descriptor, and links to the type are written from
references.  Both may give the arity of a generic type in two ways, as a mark in the name or by the
generic parameters and arguments themselves, and may mix the two ways from level to level.

* `IsBaseName`       : a name without arity, array and pointer marks;
* `Descriptor.Writes`, `TypeRef.Writes` : the spellings of one level, given a base name and an arity;
* `TypeRef.Denotes`  : a reference and a descriptor write the same levels in the same namespace;
* `Descriptor.Writes.name_typeArity`, `TypeRef.Writes.codeName_arity` : what either side makes of a
  level does not depend on its spelling;
* `declarationId_eq_encode` : **a reference has the id of the type that it denotes.**
-/

/-! ### Spellings of one level -/

/-- A name without arity, array and pointer marks. -/
structure IsBaseName (base : String) : Prop where
  ne_empty : base ≠ ""
  unmarked : ∀ c ∈ base.toList, c ≠ '`' ∧ c ≠ '[' ∧ c ≠ '*'

/-- What array and pointer marks at the end of a name start with.  Nothing is asked of the rest. -/
def StartsWithShape (shape : String) : Prop :=
  ∀ c ∈ shape.toList.head?, c = '[' ∨ c = '*'

/-- A back-tick with anything after it, or nothing. -/
def StartsWithTick (mark : String) : Prop :=
  ∀ c ∈ mark.toList.head?, c = '`'

/-- The arity mark of a type with `n` generic parameters, if it has any. -/
def arityText (n : Nat) : String :=
  if n = 0 then "" else arityMark n

/-- The descriptor writes a type of the given base name and arity, as one of two spellings: the base
    name and as many generic parameters, or a name with an arity mark. -/
def Descriptor.Writes (d : Descriptor) (base : String) (n : Nat) : Prop :=
  (d.name = base ∧ d.arity .onType = n) ∨ (0 < n ∧ d.name = base ++ arityMark n)

/-- The reference writes a type of the given base name and arity: with as many arguments, in which
    case the name may have any arity mark, or without arguments and with the arity mark in the name.
    Array and pointer marks may follow in the name, or stand beside it. -/
def TypeRef.Writes (t : TypeRef) (base : String) (n : Nat) : Prop :=
  ∃ mark shape, t.name = base ++ mark ++ shape ∧ StartsWithShape shape ∧
    ((0 < n ∧ t.arguments.length = n ∧ StartsWithTick mark) ∨
      (t.arguments = [] ∧ mark = arityText n))

/-- The reference denotes the declared type: level by level they write the same base names and
    arities, and the outermost levels are in the same namespace.  No level is a use of a generic
    parameter. -/
inductive TypeRef.Denotes : TypeRef → Descriptor → Prop
  | outermost {t : TypeRef} {d : Descriptor} {base : String} {n : Nat} (hslot : t.slot = none)
      (ht : t.enclosing = none) (hd : d.enclosing = none) (hns : t.ns = d.ns)
      (hbase : IsBaseName base) (htype : d.Writes base n) (href : t.Writes base n) : Denotes t d
  | nested {t e : TypeRef} {d o : Descriptor} {base : String} {n : Nat} (hslot : t.slot = none)
      (ht : t.enclosing = some e) (hd : d.enclosing = some o) (henclosing : Denotes e o)
      (hbase : IsBaseName base) (htype : d.Writes base n) (href : t.Writes base n) : Denotes t d

/-! ### Cutting names -/

/-- What is cut off a name at its array and pointer marks is cut off the rest of it. -/
theorem IsBaseName.baseName_append {base : String} (h : IsBaseName base) (rest : String) :
    baseName (base ++ rest) = base ++ baseName rest := by
  have hopens : ∀ c ∈ base.toList, (!opensMarks c) = true := by
    intro c hc
    obtain ⟨-, hbracket, hstar⟩ := h.unmarked c hc
    simp [opensMarks, hbracket, hstar]
  rw [← String.toList_inj, baseName, String.toList_ofList, String.toList_append,
    List.takeWhile_append_of_pos hopens, String.toList_append, baseName, String.toList_ofList]

/-- What is cut off a name at its arity mark is cut off the rest of it. -/
theorem IsBaseName.withoutArity_append {base : String} (h : IsBaseName base) (rest : String) :
    withoutArity (base ++ rest) = base ++ withoutArity rest := by
  have htick : ∀ c ∈ base.toList, (c != '`') = true := by
    intro c hc
    exact bne_iff_ne.mpr (h.unmarked c hc).1
  rw [← String.toList_inj, withoutArity, String.toList_ofList, String.toList_append,
    List.takeWhile_append_of_pos htick, String.toList_append, withoutArity, String.toList_ofList]

/-- Array and pointer marks are cut off whole. -/
theorem StartsWithShape.baseName_eq {shape : String} (h : StartsWithShape shape) :
    baseName shape = "" := by
  rw [← String.toList_inj, baseName, String.toList_ofList]
  cases hshape : shape.toList with
  | nil => rfl
  | cons c cs =>
    have hopens : opensMarks c = true := by
      rcases h c (by rw [hshape]; rfl) with rfl | rfl <;> decide
    simp [hopens]

/-- An arity mark stays when array and pointer marks are cut off. -/
theorem baseName_arityText_append (n : Nat) {shape : String} (h : StartsWithShape shape) :
    baseName (arityText n ++ shape) = arityText n := by
  have hopens : ∀ c ∈ (arityText n).toList, (!opensMarks c) = true := by
    intro c hc
    unfold arityText at hc
    split at hc
    · simp at hc
    · -- a back-tick and digits
      have hmark : c = '`' ∨ c ∈ (toString n).toList := by simpa [arityMark] using hc
      rcases hmark with rfl | hdigit
      · decide
      · refine spelledIn_toString (p := fun c => !opensMarks c) (fun {d} hd => ?_) n c hdigit
        have hbracket : d ≠ '[' := ne_of_holds hd '[' (by decide)
        have hstar : d ≠ '*' := ne_of_holds hd '*' (by decide)
        simp [opensMarks, hbracket, hstar]
  have hshape := congrArg String.toList h.baseName_eq
  rw [baseName, String.toList_ofList] at hshape
  rw [← String.toList_inj, baseName, String.toList_ofList, String.toList_append,
    List.takeWhile_append_of_pos hopens, hshape, String.toList_empty, List.append_nil]

/-- Whatever arity mark a name has, and whatever follows it, nothing is left of them. -/
theorem withoutArity_baseName_append {mark shape : String} (hmark : StartsWithTick mark)
    (hshape : StartsWithShape shape) : withoutArity (baseName (mark ++ shape)) = "" := by
  cases hcs : mark.toList with
  | nil =>
    obtain rfl : mark = "" := String.toList_inj.mp hcs
    rw [String.empty_append, hshape.baseName_eq]
    rfl
  | cons c cs =>
    obtain rfl : c = '`' := hmark c (by rw [hcs]; rfl)
    -- a back-tick opens no marks, so it is what the arity mark is cut at
    have hopens : opensMarks '`' = false := by decide
    rw [← String.toList_inj, withoutArity, baseName, String.toList_ofList, String.toList_ofList,
      String.toList_append, hcs]
    simp [hopens]

/-! ### What the spellings of a level have in common -/

/-- What follows a name within an owner follows the name. -/
theorem joinDotted_append (owner name rest : String) :
    joinDotted owner name ++ rest = joinDotted owner (name ++ rest) := by
  unfold joinDotted
  split
  · rfl
  · rw [String.append_assoc]

/-- Either spelling of a declared type gives the base name with one arity mark. -/
theorem Descriptor.Writes.name_typeArity {d : Descriptor} {base : String} {n : Nat}
    (h : d.Writes base n) (hbase : IsBaseName base) :
    d.name ++ d.typeArity = base ++ arityText n := by
  unfold Descriptor.typeArity arityText
  rcases h with ⟨hname, harity⟩ | ⟨hn, hname⟩
  · have htick : base.toList.contains '`' = false := by
      rw [List.contains_eq_mem, decide_eq_false_iff_not]
      exact fun hmem => (hbase.unmarked _ hmem).1 rfl
    rw [hname, harity, htick]
    by_cases hzero : n = 0
    · rw [if_pos hzero, if_neg (by omega)]
    · rw [if_neg hzero, if_pos ⟨by omega, rfl⟩]
  · -- the mark in the name keeps another one from being written
    have htick : d.name.toList.contains '`' = true := by
      rw [hname, arityMark]
      simp
    rw [htick, if_neg (by simp), if_neg (by omega), hname, String.append_empty]

/-- Either spelling of a reference gives the base name with one arity mark. -/
theorem TypeRef.Writes.codeName_arity {t : TypeRef} {base : String} {n : Nat}
    (h : t.Writes base n) (hbase : IsBaseName base) :
    t.codeName ++ (if t.arguments.isEmpty then "" else arityMark t.arguments.length)
      = base ++ arityText n := by
  obtain ⟨mark, shape, hname, hshape, ⟨hn, harguments, hmark⟩ | ⟨harguments, rfl⟩⟩ := h
  · -- the mark in the name, if there is one, gives way to the number of arguments
    have hne : t.arguments.isEmpty = false := by
      rw [List.isEmpty_eq_false_iff, ← List.length_pos_iff]
      omega
    rw [codeName, hne, if_neg (by simp), if_neg (by simp), hname, String.append_assoc,
      hbase.baseName_append, hbase.withoutArity_append, withoutArity_baseName_append hmark hshape,
      String.append_empty, harguments, arityText, if_neg (by omega)]
  · rw [codeName, harguments, List.isEmpty_nil, if_pos rfl, if_pos rfl, hname, String.append_assoc,
      hbase.baseName_append, baseName_arityText_append n hshape, String.append_empty]

/-- Both spellings of a level in a descriptor give it a name. -/
theorem Descriptor.Writes.name_ne_empty {d : Descriptor} {base : String} {n : Nat}
    (h : d.Writes base n) (hbase : IsBaseName base) : d.name ≠ "" := by
  rcases h with ⟨hname, -⟩ | ⟨-, hname⟩
  · exact hname ▸ hbase.ne_empty
  · intro hempty
    rw [hname, String.append_eq_empty_iff] at hempty
    exact hbase.ne_empty hempty.1

/-- Both spellings of a level in a reference give it a name. -/
theorem TypeRef.Writes.name_ne_empty {t : TypeRef} {base : String} {n : Nat}
    (h : t.Writes base n) (hbase : IsBaseName base) : t.name ≠ "" := by
  obtain ⟨mark, shape, hname, -⟩ := h
  intro hempty
  rw [hname, String.append_eq_empty_iff, String.append_eq_empty_iff] at hempty
  exact hbase.ne_empty hempty.1.1

/-! ### Ids -/

/-- Within one owner a level has one id, whether it is written by a reference or by a descriptor. -/
theorem exists_id_of_writes {t : TypeRef} {d : Descriptor} {base owner : String} {n : Nat}
    (hslot : t.slot = none) (hbase : IsBaseName base) (htype : d.Writes base n)
    (href : t.Writes base n) (ht : TypeRef.declarationOwner t.ns t.enclosing = .ok owner)
    (hd : Descriptor.encodeTypeOwner d.ns d.enclosing = .ok owner) :
    ∃ id, t.declarationId = .ok id ∧ d.encodeType = .ok id := by
  refine ⟨joinDotted owner (base ++ arityText n), TypeRef.declarationId_eq_ok.mpr ?_,
    Descriptor.encodeType_eq_ok.mpr ?_⟩
  · refine ⟨hslot, href.name_ne_empty hbase, owner, ht, ?_⟩
    rw [joinDotted_append, href.codeName_arity hbase]
  · refine ⟨htype.name_ne_empty hbase, owner, hd, ?_⟩
    rw [joinDotted_append, htype.name_typeArity hbase]

/-- A reference and the type that it denotes both have ids, and the same one. -/
theorem TypeRef.Denotes.exists_id {t : TypeRef} {d : Descriptor} (h : t.Denotes d) :
    ∃ id, t.declarationId = .ok id ∧ d.encodeType = .ok id := by
  induction h with
  | @outermost t d base n hslot ht hd hns hbase htype href =>
    -- the owner is the namespace, which is the same
    apply exists_id_of_writes hslot hbase htype href
    · exact declarationOwner_eq_ok.mpr (.inl ⟨ht, rfl⟩)
    · exact Descriptor.encodeTypeOwner_eq_ok.mpr (.inl ⟨hd, hns⟩)
  | @nested t e d o base n hslot ht hd _ hbase htype href ih =>
    -- the owner is the enclosing type, whose ids agree
    obtain ⟨owner, hleft, hright⟩ := ih
    apply exists_id_of_writes hslot hbase htype href
    · exact declarationOwner_eq_ok.mpr (.inr ⟨e, ht, hleft⟩)
    · exact Descriptor.encodeTypeOwner_eq_ok.mpr (.inr ⟨o, hd, hright⟩)

/-- **A reference has the id of the type that it denotes.**  Both can be written, and they are the
    same text, whichever way each of the two gives the arity of each level. -/
theorem declarationId_eq_encode {t : TypeRef} {d : Descriptor} (hd : d.kind.isType = true)
    (h : t.Denotes d) : ∃ id, t.declarationId = .ok id ∧ d.encode = .ok id := by
  obtain ⟨id, href, htype⟩ := h.exists_id
  refine ⟨id, href, ?_⟩
  rw [Descriptor.encode, if_pos hd, htype]

/-! ### A nested generic type -/

/-- A generic type that lists its parameter, and in it one that has its arity in the name. -/
def sampleRow : Descriptor :=
  (Descriptor.classDecl "" "Row`2").inType
    ((Descriptor.classDecl "Shop" "Table").withTypeParameter "T")

/-- An array of the inner type with two arguments, in the outer type by its name alone. -/
def sampleRows : TypeRef :=
  ((TypeRef.named "Shop" "Table`1").nested "Row[]").withArguments
    [.named "System" "String", .named "System" "Int32"]

/-- The sample reference denotes the sample type, with the arities spelled the other way on either
    level. -/
theorem sampleRows_denotes : sampleRows.Denotes sampleRow := by
  have htable : (TypeRef.named "Shop" "Table`1").Denotes
      ((Descriptor.classDecl "Shop" "Table").withTypeParameter "T") := by
    have hbase : IsBaseName "Table" := ⟨by decide, by decide⟩
    apply TypeRef.Denotes.outermost rfl rfl rfl rfl hbase
    · exact .inl ⟨rfl, rfl⟩
    · exact ⟨"`1", "", by decide, by simp [StartsWithShape], .inr ⟨rfl, by decide⟩⟩
  have hbase : IsBaseName "Row" := ⟨by decide, by decide⟩
  have htype : sampleRow.Writes "Row" 2 := .inr ⟨by decide, by decide⟩
  refine .nested rfl rfl rfl htable hbase htype ⟨"", "[]", by decide, ?_, .inl ⟨by decide, rfl, ?_⟩⟩
  · simp [StartsWithShape]
  · simp [StartsWithTick]

/-- The two levels are written in different ways by the reference and by the descriptor. -/
theorem declarationId_eq_encode_nested :
    sampleRow.kind.isType = true ∧ sampleRows.Denotes sampleRow ∧
    ∃ id, sampleRows.declarationId = .ok id ∧ sampleRow.encode = .ok id ∧
      id = "Shop.Table`1.Row`2" := by
  have htype : sampleRow.kind.isType = true := rfl
  obtain ⟨id, href, hencode⟩ := declarationId_eq_encode htype sampleRows_denotes
  refine ⟨htype, sampleRows_denotes, id, href, hencode, ?_⟩
  have hid : sampleRow.encode = .ok "Shop.Table`1.Row`2" := by decide +kernel
  exact Except.ok.inj (hencode.symm.trans hid)

end InheritDoc
