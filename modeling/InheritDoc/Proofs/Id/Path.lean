import InheritDoc.Proofs.Element.Induction
import InheritDoc.Proofs.Id.Spelling

namespace InheritDoc

/-!
# Normal forms of references

A reference can be built in several ways that all have one code: a type may be in a namespace or in
a type of the same name, marks may stand in its name or be counted, and an arity mark gives way to
arguments.  Its path is what they have in common.

* `Part`           : a name or a generic parameter, with arguments and marks;
* `TypeRef.path`   : the normal form of a reference, the parts from the outermost namespace inwards;
* `Part.chars`     : how a part is written;
* `toList_encode`  : the code of a reference is its path, written out;
* `TypeRef.Simple` : a reference all of whose names are simple, which makes its path well-formed.
-/

/-! ### Parts and paths -/

/-- What a part of a path names. -/
inductive Head where
  | parameter (scope : TypeParameter.Scope) (index : UInt32)
  | named (text : String)

/-- One part of a path: what it names, the paths of its type arguments, and its pointer and array
    marks. -/
inductive Part where
  | mk (head : Head) (arguments : List (List Part)) (marks : String)

/-- The parts of a namespace are names without arguments and marks. -/
def namespacePath (ns : String) : List Part :=
  if ns.isEmpty then []
  else (ns.toList.splitOn '.').map fun name => ⟨.named (String.ofList name), [], ""⟩

namespace TypeRef

mutual

/-- The normal form of a reference. -/
def path : TypeRef → List Part
  | ⟨ns, name, enclosing, arguments, rank, pointers, slot⟩ =>
    let t : TypeRef := ⟨ns, name, enclosing, arguments, rank, pointers, slot⟩
    match slot with
    | some parameter => [⟨.parameter parameter.scope parameter.index, [], t.marks⟩]
    | none => ownerPath ns enclosing ++ [⟨.named t.codeName, pathAll arguments, t.marks⟩]

/-- The parts before the name of a type: those of its enclosing type, or else of its namespace. -/
def ownerPath (ns : String) : Option TypeRef → List Part
  | none => namespacePath ns
  | some t => path t

/-- The normal forms of several references. -/
def pathAll : List TypeRef → List (List Part)
  | [] => []
  | t :: ts => path t :: pathAll ts

end

/-- The normal forms of several references are those of each. -/
theorem pathAll_eq_map (ts : List TypeRef) : pathAll ts = ts.map path := by
  induction ts with
  | nil => rfl
  | cons t ts ih => rw [pathAll, ih, List.map_cons]

/-- The path of a generic parameter has one part. -/
theorem path_of_slot {t : TypeRef} {parameter : TypeParameter} (h : t.slot = some parameter) :
    t.path = [⟨.parameter parameter.scope parameter.index, [], t.marks⟩] := by
  obtain ⟨ns, name, enclosing, arguments, rank, pointers, slot⟩ := t
  cases h
  rfl

/-- The path of a type ends with its name. -/
theorem path_of_slot_eq_none {t : TypeRef} (h : t.slot = none) :
    t.path =
      ownerPath t.ns t.enclosing ++ [⟨.named t.codeName, t.arguments.map path, t.marks⟩] := by
  obtain ⟨ns, name, enclosing, arguments, rank, pointers, slot⟩ := t
  cases h
  rw [path, pathAll_eq_map]

/-- Every path has a part. -/
theorem path_ne_nil (t : TypeRef) : t.path ≠ [] := by
  cases h : t.slot with
  | some parameter => simp [path_of_slot h]
  | none => simp [path_of_slot_eq_none h]

end TypeRef

/-! ### How paths are written -/

/-- Generic parameters are written as placeholders. -/
def Head.chars : Head → List Char
  | .parameter .onType index => '`' :: (toString index.toNat).toList
  | .parameter .onMember index => '`' :: '`' :: (toString index.toNat).toList
  | .named text => text.toList

/-- Texts in brackets, with commas between them; nothing when there are none. -/
def bracketed (opening closing : Char) (codes : List (List Char)) : List Char :=
  if codes = [] then [] else opening :: ([','].intercalate codes ++ [closing])

/-- A part is written as its head, its arguments in braces and its marks. -/
def Part.chars : Part → List Char
  | ⟨head, arguments, marks⟩ =>
    let codes := arguments.map fun path => ['.'].intercalate (path.map Part.chars)
    head.chars ++ (bracketed '{' '}' codes ++ marks.toList)
termination_by part => part
decreasing_by
  rename_i hpath _ hpart
  have := List.sizeOf_lt_of_mem hpath
  have := List.sizeOf_lt_of_mem hpart
  simp only [mk.sizeOf_spec]
  omega

/-- The parts of a path are written with dots between them. -/
def pathChars (path : List Part) : List Char :=
  ['.'].intercalate (path.map Part.chars)

/-- How a part is written, with the arguments as written paths. -/
theorem Part.chars_mk (head : Head) (arguments : List (List Part)) (marks : String) :
    (Part.mk head arguments marks).chars =
      head.chars ++ (bracketed '{' '}' (arguments.map pathChars) ++ marks.toList) := by
  rw [Part.chars]
  rfl

/-- The last part of a path stands after a dot, unless it is the only one. -/
theorem pathChars_concat (owner : List Part) (part : Part) :
    pathChars (owner ++ [part]) =
      if owner = [] then part.chars else pathChars owner ++ '.' :: part.chars := by
  induction owner with
  | nil => simp [pathChars]
  | cons first owner ih =>
    cases owner with
    | nil => simp [pathChars, List.intercalate_cons_cons]
    | cons next owner => simp_all [pathChars, List.intercalate_cons_cons]

/-- Only the empty namespace has no parts. -/
theorem namespacePath_eq_nil {ns : String} : namespacePath ns = [] ↔ ns = "" := by
  simp [namespacePath, List.splitOn_eq_splitOnP, List.splitOnP_ne_nil]

/-- A namespace is written as it is. -/
theorem pathChars_namespacePath (ns : String) : pathChars (namespacePath ns) = ns.toList := by
  by_cases hns : ns = ""
  · simp [hns, namespacePath, pathChars]
  · have hparts : (fun name => (Part.mk (.named (String.ofList name)) [] "").chars) = id := by
      funext name
      simp [Part.chars_mk, Head.chars, bracketed]
    simp only [namespacePath, String.isEmpty_iff, hns, ↓reduceIte, pathChars, List.map_map,
      Function.comp_def, hparts, List.map_id, List.intercalate_splitOn]

/-- The characters of a name within an owner. -/
theorem toList_joinDotted (owner name : String) :
    (joinDotted owner name).toList =
      if owner = "" then name.toList else owner.toList ++ '.' :: name.toList := by
  unfold joinDotted
  split <;> simp_all

/-- The characters of type arguments. -/
theorem toList_argumentList (codes : List String) :
    (TypeRef.argumentList codes).toList = bracketed '{' '}' (codes.map String.toList) := by
  cases codes <;> simp [TypeRef.argumentList, bracketed, String.toList_intercalate]

/-- A generic parameter is written as its placeholder. -/
theorem chars_parameter (parameter : TypeParameter) :
    (Head.parameter parameter.scope parameter.index).chars = parameter.placeholder.toList := by
  unfold TypeParameter.placeholder
  cases parameter.scope <;> simp [Head.chars]

/-- **Codes are written paths.**  The code of a reference is made of its normal form. -/
theorem TypeRef.toList_encode {t : TypeRef} {code : String} (h : t.encode = .ok code) :
    code.toList = pathChars t.path := by
  induction t using TypeRef.induction generalizing code with
  | ref t ihenclosing iharguments =>
    rcases encode_eq_ok.mp h with ⟨parameter, hslot, -, -, rfl⟩ |
      ⟨hslot, -, owner, codes, howner, hcodes, rfl⟩
    · simp [path_of_slot hslot, pathChars, Part.chars_mk, chars_parameter, bracketed]
    · -- whether there is a dot depends on the owner being empty, in the code and in the path alike
      have hownerChars : owner.toList = pathChars (ownerPath t.ns t.enclosing) ∧
          (owner = "" ↔ ownerPath t.ns t.enclosing = []) := by
        rcases encodeOwner_eq_ok.mp howner with ⟨henclosing, rfl⟩ | ⟨e, henclosing, howner⟩
        · rw [henclosing, ownerPath]
          exact ⟨(pathChars_namespacePath _).symm, namespacePath_eq_nil.symm⟩
        · rw [henclosing, ownerPath]
          exact ⟨ihenclosing e henclosing howner,
            iff_of_false (encode_ne_empty howner) (path_ne_nil e)⟩
      -- the codes of the arguments are their written paths, by the induction hypothesis
      have hargumentChars : codes.map String.toList = (t.arguments.map path).map pathChars := by
        rw [List.map_map]
        exact map_eq_map_of_mapM (mapM_eq_ok.mpr hcodes) fun a ha code => iharguments a ha
      rw [path_of_slot_eq_none hslot, pathChars_concat, Part.chars_mk, ← hargumentChars,
        ← hownerChars.1]
      simp only [← hownerChars.2, String.toList_append, toList_joinDotted, toList_argumentList,
        Head.chars]
      split <;> simp

/-! ### Simple names -/

/-- The characters of simple names: those that are plain, join no names and mark no kind of id. -/
def isSimpleChar (c : Char) : Bool :=
  isPlain c && !(['`', '.', ':', '#', '@', '*'].contains c)

/-- The characters of names with arity marks and of placeholders. -/
def isWordChar (c : Char) : Bool :=
  isSimpleChar c || c == '`'

/-- A name that is not empty and leaves alone all characters that have a meaning in ids. -/
def IsSimple (name : List Char) : Prop :=
  name ≠ [] ∧ ∀ c ∈ name, isSimpleChar c = true

instance : DecidablePred IsSimple := fun name =>
  inferInstanceAs (Decidable (name ≠ [] ∧ ∀ c ∈ name, isSimpleChar c = true))

/-- A namespace is empty or made of simple names with dots between them. -/
def IsNamespace (ns : String) : Prop :=
  ns = "" ∨ ∃ names, names ≠ [] ∧ (∀ name ∈ names, IsSimple name) ∧
    ns.toList = ['.'].intercalate names

/-- An arity mark, or nothing. -/
def IsArity (cs : List Char) : Prop :=
  cs = [] ∨ ∃ digits, digits ≠ [] ∧ (∀ c ∈ digits, c.isDigit = true) ∧ cs = '`' :: digits

/-- The name of a type in a reference is a simple name, which an arity mark and then pointer and
    array marks may follow. -/
def IsTypeName (name : String) : Prop :=
  ∃ base arity marks, name.toList = base ++ arity ++ marks ∧ IsSimple base ∧ IsArity arity ∧
    IsMarks marks

/-- All namespaces and names in a reference are made of simple names. -/
def TypeRef.Simple : TypeRef → Prop :=
  Everywhere fun t => IsNamespace t.ns ∧ IsTypeName t.name

/-- What simple characters are not. -/
theorem isSimpleChar_iff {c : Char} : isSimpleChar c = true ↔ isPlain c = true ∧ c ≠ '`' ∧
    c ≠ '.' ∧ c ≠ ':' ∧ c ≠ '#' ∧ c ≠ '@' ∧ c ≠ '*' := by
  simp [isSimpleChar]

theorem isSimpleChar_of_isDigit {c : Char} (h : c.isDigit = true) : isSimpleChar c = true := by
  have hne := ne_of_holds h
  exact isSimpleChar_iff.mpr ⟨isPlain_of_isDigit h, hne _ (by decide), hne _ (by decide),
    hne _ (by decide), hne _ (by decide), hne _ (by decide), hne _ (by decide)⟩

theorem isWordChar_of_isSimpleChar {c : Char} (h : isSimpleChar c = true) :
    isWordChar c = true := by
  simp [isWordChar, h]

theorem isWordChar_of_isDigit {c : Char} (h : c.isDigit = true) : isWordChar c = true :=
  isWordChar_of_isSimpleChar (isSimpleChar_of_isDigit h)

/-- Words contain no mark. -/
theorem opensMarks_of_isWordChar {c : Char} (h : isWordChar c = true) : opensMarks c = false := by
  simp [opensMarks, ne_of_holds h '[' (by decide), ne_of_holds h '*' (by decide)]

/-- Words may have arity marks. -/
theorem IsArity.isWordChar {cs : List Char} (h : IsArity cs) {c : Char} (hc : c ∈ cs) :
    isWordChar c = true := by
  rcases h with rfl | ⟨digits, -, hdigits, rfl⟩
  · exact absurd hc List.not_mem_nil
  · rcases List.mem_cons.mp hc with rfl | hc
    · decide
    · exact isWordChar_of_isDigit (hdigits c hc)

/-! ### Names of types -/

/-- The name of a type is split into what stands before its marks, and the marks. -/
theorem baseName_and_nameMarks {name : String} {base marks : List Char}
    (hname : name.toList = base ++ marks) (hbase : ∀ c ∈ base, isWordChar c = true)
    (hmarks : IsMarks marks) : (baseName name).toList = base ∧ (nameMarks name).toList = marks := by
  -- words contain no mark, so the name is split at its first mark
  have hopens : ∀ c ∈ base, (!opensMarks c) = true := by
    intro c hc
    simp [opensMarks_of_isWordChar (hbase c hc)]
  constructor
  · rw [baseName, String.toList_ofList, hname, List.takeWhile_append_of_pos hopens, hmarks.span.1,
      List.append_nil]
  · rw [nameMarks, String.toList_ofList, hname, List.dropWhile_append_of_pos hopens, hmarks.span.2]

/-- Before its marks the name of a type is a word that starts with a simple character. -/
theorem IsTypeName.exists_word {name : String} (h : IsTypeName name) :
    ∃ c cs marks, name.toList = c :: cs ++ marks ∧ isSimpleChar c = true ∧
      (∀ b ∈ c :: cs, isWordChar b = true) ∧ IsMarks marks := by
  obtain ⟨base, arity, marks, hname, ⟨hne, hsimple⟩, harity, hmarks⟩ := h
  obtain ⟨c, cs, rfl⟩ := List.exists_cons_of_ne_nil hne
  refine ⟨c, cs ++ arity, marks, hname, hsimple c List.mem_cons_self, ?_, hmarks⟩
  rw [← List.cons_append, List.forall_mem_append]
  exact ⟨fun b hb => isWordChar_of_isSimpleChar (hsimple b hb), fun b hb => harity.isWordChar hb⟩

/-- The marks of a reference are marks, whether they stand in its name or not. -/
theorem IsTypeName.isMarks {t : TypeRef} (h : IsTypeName t.name) : IsMarks t.marks.toList := by
  obtain ⟨c, cs, marks, hname, -, hword, hmarks⟩ := h.exists_word
  unfold TypeRef.marks
  split
  · exact isMarks_shapeMarks _ _
  · rwa [(baseName_and_nameMarks hname hword hmarks).2]

/-! ### Well-formed paths -/

/-- A head is written as a word, and a name does not start like a placeholder. -/
def Head.WellFormed : Head → Prop
  | .parameter _ _ => True
  | .named text =>
    (∃ c cs, text.toList = c :: cs ∧ isSimpleChar c = true) ∧ SpelledIn isWordChar text

/-- A part with a well-formed head, well-formed arguments and nothing but marks for its marks. -/
inductive Part.WellFormed : Part → Prop
  | mk {head : Head} {arguments : List (List Part)} {marks : String} (hhead : head.WellFormed)
      (hnonempty : ∀ path ∈ arguments, path ≠ [])
      (harguments : ∀ path ∈ arguments, ∀ part ∈ path, WellFormed part)
      (hmarks : IsMarks marks.toList) : WellFormed ⟨head, arguments, marks⟩

/-- A path has parts, and they are well-formed. -/
def IsPath (path : List Part) : Prop :=
  path ≠ [] ∧ ∀ part ∈ path, part.WellFormed

/-- The name of a reference in its code is a well-formed head. -/
theorem IsTypeName.codeName {t : TypeRef} (h : IsTypeName t.name) :
    (Head.named t.codeName).WellFormed := by
  obtain ⟨c, cs, marks, hname, hc, hword, hmarks⟩ := h.exists_word
  refine ⟨?_, TypeRef.spelledIn_codeName ⟨c :: cs, marks, hname, hword, hmarks⟩⟩
  have hbaseName := (baseName_and_nameMarks hname hword hmarks).1
  unfold TypeRef.codeName
  split
  · exact ⟨c, cs, hbaseName, hc⟩
  · -- a simple character is no arity mark
    have htick : (c != '`') = true := by simpa using (isSimpleChar_iff.mp hc).2.1
    rw [withoutArity, String.toList_ofList, hbaseName, List.takeWhile_cons, if_pos htick]
    exact ⟨c, _, rfl, hc⟩

/-- The parts of a namespace are well-formed. -/
theorem IsNamespace.wellFormed {ns : String} (h : IsNamespace ns) :
    ∀ part ∈ namespacePath ns, part.WellFormed := by
  intro part hpart
  rcases h with rfl | ⟨names, hne, hnames, hns⟩
  · simp [namespacePath] at hpart
  · -- splitting at the dots gives the names back, since none of them has a dot
    have hdotless : ∀ name ∈ names, '.' ∉ name := by
      intro name hname hdot
      exact absurd ((hnames name hname).2 _ hdot) (by decide)
    unfold namespacePath at hpart
    split at hpart
    · simp at hpart
    · rw [hns, List.splitOn_intercalate '.' hdotless hne, List.mem_map] at hpart
      obtain ⟨name, hname, rfl⟩ := hpart
      obtain ⟨hname_ne, hchars⟩ := hnames name hname
      obtain ⟨c, cs, rfl⟩ := List.exists_cons_of_ne_nil hname_ne
      refine .mk ⟨⟨c, cs, String.toList_ofList, hchars c List.mem_cons_self⟩, ?_⟩ (by simp)
        (by simp) .nil
      intro b hb
      rw [String.toList_ofList] at hb
      exact isWordChar_of_isSimpleChar (hchars b hb)

/-- **Simple references have well-formed paths.** -/
theorem TypeRef.Simple.isPath {t : TypeRef} (h : t.Simple) : IsPath t.path := by
  induction h with
  | @ref t here _ _ ihenclosing iharguments =>
    refine ⟨path_ne_nil t, ?_⟩
    cases hslot : t.slot with
    | some parameter =>
      rw [path_of_slot hslot, List.forall_mem_singleton]
      exact .mk trivial (by simp) (by simp) here.2.isMarks
    | none =>
      rw [path_of_slot_eq_none hslot, List.forall_mem_append, List.forall_mem_singleton]
      constructor
      · cases henclosing : t.enclosing with
        | none => exact here.1.wellFormed
        | some e => exact (ihenclosing e henclosing).2
      · refine .mk here.2.codeName ?_ ?_ here.2.isMarks
        · exact List.forall_mem_map.mpr fun a ha => (iharguments a ha).1
        · exact List.forall_mem_map.mpr fun a ha => (iharguments a ha).2

end InheritDoc
