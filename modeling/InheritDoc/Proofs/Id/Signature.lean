import InheritDoc.Proofs.Id.Unambiguity

namespace InheritDoc

/-!
# Ids of members are unambiguous

* `NamePart`         : what the name in a member id says;
* `Signature`        : what a member id says as a whole;
* `Signature.chars`  : how a signature is written, which no other signature is;
* `Descriptor.Simple`, `Descriptor.signature` : members of simple names, and their signatures;
* `encode_eq_iff_signature_eq` : members have the same id exactly if they have the same signature.
-/

/-! ### Names of members -/

/-- The name part of a member id: one of the two names of constructors, or the name of the member
    with the id of the interface that it implements explicitly. -/
inductive NamePart where
  | constructor (isStatic : Bool)
  | named (name : String) (interface : Option String)

/-- Dots become hashes. -/
def hashDots (cs : List Char) : List Char :=
  cs.map fun c => if c = '.' then '#' else c

/-- Names with hashes for their dots are told apart, if they have no hashes of their own. -/
theorem hashDots_inj {cs cs' : List Char} (h : '#' ∉ cs) (h' : '#' ∉ cs')
    (heq : hashDots cs = hashDots cs') : cs = cs' := by
  have hback : ∀ ds : List Char, '#' ∉ ds →
      (hashDots ds).map (fun c => if c = '#' then '.' else c) = ds := by
    intro ds hds
    rw [hashDots, List.map_map]
    refine (List.map_congr_left fun c hc => ?_).trans (List.map_id ds)
    have hne : c ≠ '#' := by
      rintro rfl
      exact hds hc
    by_cases hdot : c = '.' <;> simp [hdot, hne]
  rw [← hback cs h, heq, hback cs' h']

namespace NamePart

/-- What stands before the last hash, if there is one. -/
def owner : NamePart → Option (List Char)
  | .constructor _ => some []
  | .named _ interface => interface.map fun id => hashDots id.toList

/-- What stands after it. -/
def last : NamePart → List Char
  | .constructor isStatic => if isStatic then "cctor".toList else "ctor".toList
  | .named name _ => name.toList

/-- How the name part is written. -/
def chars (part : NamePart) : List Char :=
  (part.owner.elim [] (· ++ ['#'])) ++ part.last

end NamePart

/-- The characters of declaration ids. -/
def isIdChar (c : Char) : Bool :=
  isWordChar c || c == '.'

/-- The characters of ids join names. -/
theorem joinsNames_isIdChar : JoinsNames isIdChar where
  dot := by decide
  tick := by decide
  digits h := by simp [isIdChar, isWordChar_of_isDigit h]

/-- The name is simple, and the interface has an id. -/
def NamePart.WellFormed : NamePart → Prop
  | .constructor _ => True
  | .named name interface =>
    IsSimple name.toList ∧ ∀ id, interface = some id → id ≠ "" ∧ SpelledIn isIdChar id

/-- The mark for a number of generic parameters, which is left out where there are none. -/
def arityChars (n : Nat) : List Char :=
  if n = 0 then [] else '`' :: '`' :: (toString n).toList

/-- An arity mark starts with a back-tick. -/
theorem stops_arityChars (n : Nat) : Stops ['`'] (arityChars n) := by
  unfold arityChars
  split
  · exact stops_nil _
  · exact stops_cons (List.mem_singleton_self _) _

/-- Arity marks are made of word characters. -/
theorem isWordChar_of_mem_arityChars {n : Nat} {c : Char} (hc : c ∈ arityChars n) :
    isWordChar c = true := by
  unfold arityChars at hc
  split at hc
  · exact absurd hc List.not_mem_nil
  · simp only [List.mem_cons] at hc
    rcases hc with rfl | rfl | hc
    · decide
    · decide
    · exact spelledIn_toString isWordChar_of_isDigit n c hc

/-- Different arities have different marks. -/
theorem arityChars_inj {m n : Nat} (h : arityChars m = arityChars n) : m = n := by
  unfold arityChars at h
  split at h <;> split at h
  · omega
  · simp at h
  · simp at h
  · exact toList_toString_inj (by simpa using h)

/-- A text is cut at its last hash in one way. -/
theorem append_inj_of_last {owner owner' : Option (List Char)} {cs cs' : List Char} (h : '#' ∉ cs)
    (h' : '#' ∉ cs')
    (heq : (owner.elim [] (· ++ ['#'])) ++ cs = (owner'.elim [] (· ++ ['#'])) ++ cs') :
    owner = owner' ∧ cs = cs' := by
  cases owner with
  | none =>
    cases owner' with
    | none => exact ⟨rfl, heq⟩
    | some before =>
      rw [Option.elim_none, Option.elim_some, List.nil_append] at heq
      exact absurd (by simp [heq]) h
  | some before =>
    cases owner' with
    | none =>
      rw [Option.elim_none, Option.elim_some, List.nil_append] at heq
      exact absurd (by simp [← heq]) h'
    | some before' =>
      -- read from the end, what has no hash in it is a run that the hash ends
      have hrun : ∀ ds : List Char, '#' ∉ ds → ∀ c ∈ ds.reverse, (c != '#') = true := by
        intro ds hds c hc
        rw [bne_iff_ne]
        rintro rfl
        exact hds (List.mem_reverse.mp hc)
      have hreverse := congrArg List.reverse heq
      simp only [Option.elim_some, List.reverse_append, List.reverse_singleton,
        List.singleton_append] at hreverse
      obtain ⟨hafter, hbefore⟩ := append_inj_of_run (p := (· != '#')) (by decide) (hrun cs h)
        (hrun cs' h') (stops_cons (List.mem_singleton_self _) _)
        (stops_cons (List.mem_singleton_self _) _) hreverse
      exact ⟨congrArg some (List.reverse_injective (List.cons.inj hbefore).2),
        List.reverse_injective hafter⟩

namespace NamePart

/-- The last part of a name is made of simple characters. -/
theorem WellFormed.last {part : NamePart} (h : part.WellFormed) :
    ∀ c ∈ part.last, isSimpleChar c = true := by
  cases part with
  | constructor isStatic => cases isStatic <;> decide
  | named name interface => exact h.1.2

/-- Name parts are made of the characters of declaration ids and of hashes. -/
theorem WellFormed.mem_chars {part : NamePart} (h : part.WellFormed) {c : Char}
    (hc : c ∈ part.chars) : (isIdChar c || c == '#') = true := by
  rcases List.mem_append.mp hc with hc | hc
  · cases part with
    | constructor _ =>
      -- the hash of `#ctor`
      obtain rfl : c = '#' := by simpa [owner] using hc
      decide
    | named name interface =>
      cases interface with
      | none => simp [owner] at hc
      | some id =>
        rcases List.mem_append.mp hc with hc | hc
        · -- the id of the interface, with hashes for its dots
          obtain ⟨b, hb, rfl⟩ := List.mem_map.mp hc
          split
          · decide
          · simp [(h.2 id rfl).2 b hb]
        · obtain rfl : c = '#' := List.mem_singleton.mp hc
          decide
  · simp [isIdChar, isWordChar, h.last c hc]

/-- A name part is determined by what stands before and after its last hash. -/
theorem WellFormed.eq_of_owner_eq {part part' : NamePart} (h : part.WellFormed)
    (h' : part'.WellFormed) (howner : part.owner = part'.owner) (hlast : part.last = part'.last) :
    part = part' := by
  -- an interface has an id, so no other member is written like a constructor
  have hinterface : ∀ {name interface isStatic}, (NamePart.named name interface).WellFormed →
      (NamePart.named name interface).owner ≠ (NamePart.constructor isStatic).owner := by
    intro name interface isStatic hnamed howner
    obtain ⟨id, hid, hhashed⟩ := Option.map_eq_some_iff.mp howner
    exact (hnamed.2 id hid).1 (by simpa [hashDots] using hhashed)
  cases part with
  | constructor isStatic =>
    cases part' with
    | constructor isStatic' =>
      cases isStatic <;> cases isStatic'
      · rfl
      · exact absurd hlast (by decide)
      · exact absurd hlast (by decide)
      · rfl
    | named _ _ => exact absurd howner.symm (hinterface h')
  | named name interface =>
    cases part' with
    | constructor _ => exact absurd howner (hinterface h)
    | named name' interface' =>
      obtain rfl : name = name' := String.toList_inj.mp hlast
      cases interface with
      | none =>
        cases interface' with
        | none => rfl
        | some _ => simp [owner] at howner
      | some id =>
        cases interface' with
        | none => simp [owner] at howner
        | some id' =>
          -- the hashes in an owner were all dots
          have hhash : '#' ∉ id.toList := fun hc => absurd ((h.2 id rfl).2 _ hc) (by decide)
          have hhash' : '#' ∉ id'.toList := fun hc => absurd ((h'.2 id' rfl).2 _ hc) (by decide)
          have hids := hashDots_inj hhash hhash' (by simpa [owner] using howner)
          rw [String.toList_inj.mp hids]

/-- **Name parts with arity marks are unambiguous.** -/
theorem WellFormed.append_inj {part part' : NamePart} (h : part.WellFormed) (h' : part'.WellFormed)
    {n n' : Nat} (heq : part.chars ++ arityChars n = part'.chars ++ arityChars n') :
    part = part' ∧ n = n' := by
  have hhash : ∀ {part : NamePart} (n : Nat), part.WellFormed →
      '#' ∉ part.last ++ arityChars n := by
    intro part n h hc
    rcases List.mem_append.mp hc with hc | hc
    · exact absurd (h.last _ hc) (by decide)
    · exact absurd (isWordChar_of_mem_arityChars hc) (by decide)
  rw [chars, chars, List.append_assoc, List.append_assoc] at heq
  -- interfaces may have arity marks too, so the last hash is looked for before the back-ticks
  obtain ⟨howner, hafter⟩ := append_inj_of_last (hhash n h) (hhash n' h') heq
  obtain ⟨hlast, harity⟩ := append_inj_of_run (by decide) h.last h'.last (stops_arityChars n)
    (stops_arityChars n') hafter
  exact ⟨h.eq_of_owner_eq h' howner hlast, arityChars_inj harity⟩

end NamePart

/-! ### Signatures -/

/-- What a member id says: a name part, the number of generic parameters, the normal forms of the
    parameter types in order, each with whether it is passed by reference, and the normal form of
    the target of a conversion. -/
@[ext]
structure Signature where
  name : NamePart
  arity : Nat
  parameters : List (List Part × Bool)
  target : Option (List Part)

/-- How a parameter is written. -/
def parameterChars (parameter : List Part × Bool) : List Char :=
  pathChars parameter.1 ++ if parameter.2 then ['@'] else []

/-- A parameter can be told from what follows it. -/
theorem readable_parameter {parameter : List Part × Bool} (h : IsPath parameter.1) :
    Readable parameterChars (fun p => IsPath p.1) [',', ')'] parameter := by
  obtain ⟨path, isByRef⟩ := parameter
  rintro ⟨path', isByRef'⟩ h' rest rest' hrest hrest' heq
  -- with its mark or without, a path is followed by something that ends it
  have hmark : ∀ (isByRef : Bool) {rest : List Char}, Stops [',', ')'] rest →
      Stops [',', '}', '@', ')'] ((if isByRef then ['@'] else []) ++ rest) := by
    intro isByRef rest hrest
    cases isByRef with
    | true => exact stops_cons (by decide) _
    | false => exact hrest.mono (by decide)
  rw [parameterChars, parameterChars, List.append_assoc, List.append_assoc] at heq
  obtain ⟨hpaths, hmarks⟩ := h.readable _ h' _ _ (hmark isByRef hrest) (hmark isByRef' hrest') heq
  obtain rfl : path = path' := hpaths
  -- a parameter without the mark is followed by a comma or the parenthesis, not by the mark
  cases isByRef <;> cases isByRef'
  · exact ⟨rfl, hmarks⟩
  · exact absurd hmarks (hrest.ne_cons (by decide) _)
  · exact absurd hmarks.symm (hrest'.ne_cons (by decide) _)
  · exact ⟨rfl, (List.cons.inj hmarks).2⟩

namespace Signature

/-- How a signature is written. -/
def chars (s : Signature) : List Char :=
  s.name.chars ++ arityChars s.arity ++
    (bracketed '(' ')' (s.parameters.map parameterChars) ++
      conversionSuffix (s.target.map pathChars))

/-- The name is simple, and the normal forms are well-formed. -/
structure WellFormed (s : Signature) : Prop where
  name : s.name.WellFormed
  parameters : ∀ parameter ∈ s.parameters, IsPath parameter.1
  target : ∀ path, s.target = some path → IsPath path

/-- A conversion target starts with a tilde. -/
theorem stops_conversionSuffix (target : Option (List Char)) :
    Stops ['~'] (conversionSuffix target) := by
  cases target with
  | none => exact stops_nil _
  | some _ => exact stops_cons (List.mem_singleton_self _) _

/-- The target of a conversion can be read off the end of an id. -/
theorem conversionSuffix_inj {target target' : Option (List Part)}
    (h : ∀ path, target = some path → IsPath path) (h' : ∀ path, target' = some path → IsPath path)
    (heq : conversionSuffix (target.map pathChars) = conversionSuffix (target'.map pathChars)) :
    target = target' := by
  cases target with
  | none =>
    cases target' with
    | none => rfl
    | some _ => simp [conversionSuffix] at heq
  | some path =>
    cases target' with
    | none => simp [conversionSuffix] at heq
    | some path' =>
      have hpaths := (h path rfl).readable path' (h' path' rfl) [] [] (stops_nil _) (stops_nil _)
        (by simpa [conversionSuffix] using heq)
      rw [hpaths.1]

/-- **Signatures are unambiguous.**  Well-formed signatures that are written alike are the same. -/
theorem WellFormed.eq_of_chars_eq {s s' : Signature} (h : s.WellFormed) (h' : s'.WellFormed)
    (heq : s.chars = s'.chars) : s = s' := by
  have hchars : ∀ {s : Signature}, s.WellFormed → ∀ c ∈ s.name.chars ++ arityChars s.arity,
      (isIdChar c || c == '#') = true := by
    intro s h c hc
    rcases List.mem_append.mp hc with hc | hc
    · exact h.name.mem_chars hc
    · simp [isIdChar, isWordChar_of_mem_arityChars hc]
  have hend := stops_conversionSuffix (s.target.map pathChars)
  have hend' := stops_conversionSuffix (s'.target.map pathChars)
  -- neither parentheses nor the tilde stand in the name, so it ends where they start
  obtain ⟨hnames, hafterName⟩ := append_inj_of_run (p := fun c => isIdChar c || c == '#')
    (by decide) (hchars h) (hchars h') (stops_bracketed hend _) (stops_bracketed hend' _) heq
  obtain ⟨hname, harity⟩ := h.name.append_inj h'.name hnames
  obtain ⟨hparameters, hafterParameters⟩ := readable_bracketed (by decide) (by decide)
    (fun parameter hp => readable_parameter (h.parameters parameter hp)) _ h'.parameters _ _ hend
    hend' hafterName
  exact Signature.ext hname harity hparameters
    (conversionSuffix_inj h.target h'.target hafterParameters)

end Signature

/-! ### Members of simple names -/

namespace Descriptor

/-- A member of a simple name, or a constructor that implements no interface explicitly, with simple
    references in its signature. -/
structure Simple (d : Descriptor) : Prop where
  member : d.kind.isType = false
  name : d.kind ≠ .constructor → IsSimple d.name.toList
  implicit : d.kind = .constructor → d.explicitInterface = none
  references : ∀ t ∈ d.references, t.Simple

/-- The name part of the id of a member. -/
def namePart (d : Descriptor) : NamePart :=
  match d.kind with
  | .constructor => .constructor d.isStatic
  | _ => .named d.name (d.explicitInterface.bind fun interface => interface.declarationId.toOption)

/-- The signature of a member.  Parameters are in the order of their positions, and only conversions
    have a target. -/
def signature (d : Descriptor) : Signature where
  name := d.namePart
  arity := d.arity .onMember
  parameters := d.orderedParameters.map fun p => (p.type.path, p.isByRef)
  target := if d.kind.isConversion then d.returnType.map TypeRef.path else none

/-- The name of an element that is not a constructor is that of its descriptor. -/
theorem namePart_of_ne {d : Descriptor} (h : d.kind ≠ .constructor) :
    d.namePart = .named d.name
      (d.explicitInterface.bind fun interface => interface.declarationId.toOption) := by
  unfold namePart
  split
  · rename_i hkind
    exact absurd hkind h
  · rfl

/-- Only constructors are given another name. -/
theorem memberName_of_ne {d : Descriptor} (h : d.kind ≠ .constructor) : d.memberName = d.name := by
  unfold memberName
  split
  · rename_i hkind
    exact absurd hkind h
  · rfl

/-- The name that opens a member id is its name part, written out. -/
theorem Simple.toList_encodeMemberName {d : Descriptor} (hd : d.Simple) {name : String}
    (hname : d.encodeMemberName = .ok name) : name.toList = d.namePart.chars := by
  by_cases hkind : d.kind = .constructor
  · rcases encodeMemberName_eq_ok.mp hname with ⟨-, rfl⟩ | ⟨_, _, hexplicit, -⟩
    · simp only [memberName, namePart, hkind]
      cases d.isStatic <;> decide
    · -- constructors implement no interface explicitly
      simp [hd.implicit hkind] at hexplicit
  · rw [namePart_of_ne hkind]
    rcases encodeMemberName_eq_ok.mp hname with ⟨hexplicit, rfl⟩ |
      ⟨interface, id, hexplicit, hid, rfl⟩
    · simp [hexplicit, memberName_of_ne hkind, NamePart.chars, NamePart.owner, NamePart.last]
    · -- a simple name has no dots that would become hashes
      have hdots : hashDots d.name.toList = d.name.toList := by
        refine (List.map_congr_left fun c hc => ?_).trans (List.map_id _)
        exact if_neg (isSimpleChar_iff.mp ((hd.name hkind).2 c hc)).2.2.1
      rw [hashDots] at hdots
      simp [hexplicit, hid, memberName_of_ne hkind, NamePart.chars, NamePart.owner, NamePart.last,
        Except.toOption, hashDots, hdots]

/-- The characters of the arity mark of a member. -/
theorem toList_memberArity (d : Descriptor) :
    d.memberArity.toList = arityChars (d.arity .onMember) := by
  unfold memberArity arityChars
  by_cases harity : d.arity .onMember = 0
  · simp [harity]
  · simp [harity, Nat.pos_of_ne_zero harity]

/-- The characters of a parameter list are those of the parameters in the signature. -/
theorem toList_encodeParameters {d : Descriptor} {text : String}
    (h : d.encodeParameters = .ok text) :
    text.toList = bracketed '(' ')' (d.signature.parameters.map parameterChars) := by
  rcases encodeParameters_eq_ok.mp h with ⟨hnil, rfl⟩ | ⟨codes, hne, hcodes, rfl⟩
  · simp [signature, hnil, bracketed]
  · have hchars : codes.map String.toList = d.signature.parameters.map parameterChars := by
      rw [signature, List.map_map]
      refine map_eq_map_of_mapM (mapM_eq_ok.mpr hcodes) fun parameter _ code hcode => ?_
      obtain ⟨type, htype, rfl⟩ := encodeParameter_eq_ok.mp hcode
      rw [String.toList_append, TypeRef.toList_encode htype]
      cases hbyRef : parameter.isByRef <;> simp [parameterChars, hbyRef]
    have hsignature : d.signature.parameters.map parameterChars ≠ [] := by
      simpa [signature] using hne
    rw [bracketed, if_neg hsignature, ← hchars]
    simp [String.toList_intercalate]

/-- The characters of a conversion target are those of the target in the signature. -/
theorem toList_encodeTarget {d : Descriptor} {text : String} (h : d.encodeTarget = .ok text) :
    text.toList = conversionSuffix (d.signature.target.map pathChars) := by
  rcases encodeTarget_eq_ok.mp h with ⟨hkind, rfl⟩ | ⟨type, code, hkind, htype, hcode, rfl⟩
  · simp [signature, hkind, conversionSuffix]
  · simp [signature, hkind, htype, conversionSuffix, TypeRef.toList_encode hcode]

/-- **Member ids are written signatures.** -/
theorem Simple.toList_encode {d : Descriptor} (hd : d.Simple) {id : String}
    (hid : d.encode = .ok id) : id.toList = d.signature.chars := by
  rw [encode, hd.member, if_neg Bool.false_ne_true] at hid
  obtain ⟨-, name, parameters, target, hname, hparameters, htarget, rfl⟩ :=
    encodeMember_eq_ok.mp hid
  simp only [String.toList_append, hd.toList_encodeMemberName hname, toList_memberArity,
    toList_encodeParameters hparameters, toList_encodeTarget htarget, List.append_assoc,
    Signature.chars]
  rfl

end Descriptor

/-- Simple namespaces are made of the characters of declaration ids. -/
theorem IsNamespace.spelledIn {ns : String} (h : IsNamespace ns) : SpelledIn isIdChar ns := by
  rcases h with rfl | ⟨names, -, hnames, hns⟩
  · simp [SpelledIn]
  · rw [SpelledIn, hns]
    -- the names of the namespace are joined by dots, and dots are characters of ids
    clear hns
    induction names with
    | nil => simp
    | cons name names ih =>
      rw [List.forall_mem_cons] at hnames
      have hname : ∀ c ∈ name, isIdChar c = true := fun c hc => by
        simp [isIdChar, isWordChar, hnames.1.2 c hc]
      cases names with
      | nil => simpa using hname
      | cons next names =>
        rw [List.intercalate_cons_cons, List.forall_mem_append, List.forall_mem_append]
        exact ⟨⟨hname, by decide⟩, ih hnames.2⟩

namespace TypeRef

/-- Simple references are made of the characters of ids. -/
theorem Simple.spelledIn {t : TypeRef} (h : t.Simple) : t.SpelledIn isIdChar := by
  refine Everywhere.mono (fun t ht => ⟨ht.1.spelledIn, ?_⟩) h
  obtain ⟨c, cs, marks, hname, -, hword, hmarks⟩ := ht.2.exists_word
  exact ⟨c :: cs, marks, hname, fun b hb => by simp [isIdChar, hword b hb], hmarks⟩

/-- The id of a simple reference is not empty. -/
theorem Simple.declarationId_ne_empty {t : TypeRef} (h : t.Simple) {id : String}
    (hid : t.declarationId = .ok id) : id ≠ "" := by
  obtain ⟨here, -, -⟩ := h
  obtain ⟨-, -, owner, -, rfl⟩ := declarationId_eq_ok.mp hid
  obtain ⟨⟨c, cs, hcodeName, -⟩, -⟩ := here.2.codeName
  have hne : t.codeName ≠ "" := by
    rintro hempty
    simp [hempty] at hcodeName
  simp [joinDotted_ne_empty owner hne]

end TypeRef

/-- Members of simple names have well-formed signatures. -/
theorem Descriptor.Simple.wellFormed_signature {d : Descriptor} (hd : d.Simple) :
    d.signature.WellFormed where
  name := by
    by_cases hkind : d.kind = .constructor
    · simp [signature, namePart, hkind, NamePart.WellFormed]
    · rw [signature, namePart_of_ne hkind]
      refine ⟨hd.name hkind, fun id hid => ?_⟩
      obtain ⟨interface, hinterface, hid⟩ := Option.bind_eq_some_iff.mp hid
      have hsimple : interface.Simple :=
        hd.references _ (by simp [Descriptor.references, hinterface])
      cases hdeclaration : interface.declarationId with
      | error _ => simp [hdeclaration, Except.toOption] at hid
      | ok id' =>
        obtain rfl : id' = id := by simpa [hdeclaration, Except.toOption] using hid
        exact ⟨hsimple.declarationId_ne_empty hdeclaration,
          hsimple.spelledIn.declarationId joinsNames_isIdChar hdeclaration⟩
  parameters := by
    refine List.forall_mem_map.mpr fun parameter hparameter => ?_
    exact (hd.references _ (type_mem_references hparameter)).isPath
  target := by
    intro path hpath
    unfold signature at hpath
    split at hpath
    · obtain ⟨type, htype, rfl⟩ := Option.map_eq_some_iff.mp hpath
      exact (hd.references type (by simp [Descriptor.references, htype])).isPath
    · simp at hpath

/-! ### Members with the same id -/

/-- **Member ids are unambiguous.**  Two members of simple names have the same id exactly if they
    have the same signature: the same name part, as many generic parameters, parameters of the same
    normal forms in the same order and passed in the same way, and the same conversion target, if
    any. -/
theorem encode_eq_iff_signature_eq {d d' : Descriptor} (hd : d.Simple) (hd' : d'.Simple)
    {id id' : String} (hid : d.encode = .ok id) (hid' : d'.encode = .ok id') :
    id = id' ↔ d.signature = d'.signature := by
  constructor
  · rintro rfl
    have hchars : d.signature.chars = d'.signature.chars := by
      rw [← hd.toList_encode hid, ← hd'.toList_encode hid']
    exact hd.wellFormed_signature.eq_of_chars_eq hd'.wellFormed_signature hchars
  · intro hsignature
    rw [← String.toList_inj, hd.toList_encode hid, hd'.toList_encode hid', hsignature]

/-- A generic method that implements a method of an interface, with a parameter passed by
    reference. -/
def sampleAdd (interface list : TypeRef) : Descriptor :=
  (((Descriptor.method "Add").withTypeParameter "U").withParameter list true).implementing interface

/-- An array of lists, in a namespace and with its marks in the name. -/
def sampleLists : TypeRef :=
  (TypeRef.named "System.Collections" "List`1[]").withArguments [.ofParameter ⟨"U", 0, .onMember⟩]

/-- The same in a type that is called like the namespace, with a rank and without the arity mark. -/
def sampleListsByRank : TypeRef :=
  ((TypeRef.nested (.named "System" "Collections") "List").withArguments
    [.ofParameter ⟨"V", 0, .onMember⟩]).array 1

/-- The sample is simple, whatever simple references it is made with. -/
theorem sampleAdd_simple {interface list : TypeRef} (hinterface : interface.Simple)
    (hlist : list.Simple) : (sampleAdd interface list).Simple where
  member := rfl
  name _ := show IsSimple "Add".toList by decide
  implicit h := by cases h
  references := List.forall_mem_cons.mpr ⟨hlist, List.forall_mem_singleton.mpr hinterface⟩

/-- A reference without arguments is simple if its namespace and its name are. -/
theorem TypeRef.simple_named {ns name : String} (hns : IsNamespace ns) (hname : IsTypeName name) :
    (TypeRef.named ns name).Simple :=
  .ref ⟨hns, hname⟩ (by simp [named]) (by simp [named])

/-- A simple name is one of a type, with neither arity nor marks. -/
theorem IsTypeName.of_isSimple {name : String} (h : IsSimple name.toList) : IsTypeName name :=
  ⟨name.toList, [], [], by simp, h, .inl rfl, .nil⟩

/-- Two spellings of one type give one id, and one signature. -/
theorem encode_eq_iff_signature_eq_spellings :
    (sampleAdd (.named "Shop" "IBag`1") sampleLists).Simple ∧
    (sampleAdd (.named "Shop" "IBag`1") sampleListsByRank).Simple ∧
    (sampleAdd (.named "Shop" "IBag`1") sampleLists).encode
      = .ok "Shop#IBag`1#Add``1(System.Collections.List\x7b``0\x7d[]@)" ∧
    (sampleAdd (.named "Shop" "IBag`1") sampleListsByRank).encode
      = .ok "Shop#IBag`1#Add``1(System.Collections.List\x7b``0\x7d[]@)" ∧
    (sampleAdd (.named "Shop" "IBag`1") sampleLists).signature
      = (sampleAdd (.named "Shop" "IBag`1") sampleListsByRank).signature := by
  have harity : IsArity "`1".toList := .inr ⟨['1'], by decide, by decide, by decide⟩
  have hinterface : (TypeRef.named "Shop" "IBag`1").Simple :=
    TypeRef.simple_named (.inr ⟨["Shop".toList], by decide, by decide, by decide⟩)
      ⟨"IBag".toList, "`1".toList, [], by decide, by decide, harity, .nil⟩
  have hargument : ∀ name : String, IsSimple name.toList →
      (TypeRef.ofParameter ⟨name, 0, .onMember⟩).Simple := fun name hname =>
    .ref ⟨.inl rfl, .of_isSimple hname⟩ (by simp [TypeRef.ofParameter])
      (by simp [TypeRef.ofParameter])
  have hlists : sampleLists.Simple :=
    .ref ⟨.inr ⟨["System".toList, "Collections".toList], by decide, by decide, by decide⟩,
        "List".toList, "`1".toList, "[]".toList, by decide, by decide, harity, .array 0 .nil⟩
      (by rintro e ⟨⟩) (List.forall_mem_singleton.mpr (hargument "U" (by decide)))
  have hlistsByRank : sampleListsByRank.Simple := by
    refine .ref ⟨.inl rfl, .of_isSimple (by decide)⟩ ?_
      (List.forall_mem_singleton.mpr (hargument "V" (by decide)))
    rintro e ⟨⟩
    exact TypeRef.simple_named (.inr ⟨["System".toList], by decide, by decide, by decide⟩)
      (.of_isSimple (by decide))
  have hid : (sampleAdd (.named "Shop" "IBag`1") sampleLists).encode
      = .ok "Shop#IBag`1#Add``1(System.Collections.List\x7b``0\x7d[]@)" := by
    decide +kernel
  have hid' : (sampleAdd (.named "Shop" "IBag`1") sampleListsByRank).encode
      = .ok "Shop#IBag`1#Add``1(System.Collections.List\x7b``0\x7d[]@)" := by
    decide +kernel
  have hsimple := sampleAdd_simple hinterface hlists
  have hsimple' := sampleAdd_simple hinterface hlistsByRank
  exact ⟨hsimple, hsimple', hid, hid',
    (encode_eq_iff_signature_eq hsimple hsimple' hid hid').mp rfl⟩

end InheritDoc
