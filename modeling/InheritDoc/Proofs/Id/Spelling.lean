import InheritDoc.Id.Target
import InheritDoc.Proofs.Id.Encode
import InheritDoc.Proofs.Text.Blank

namespace InheritDoc

open Text (isBlank)

/-!
# How ids are spelled

Which texts the writers of ids produce, when the names that they are made of leave alone the
characters that structure an id.

* `isPlain`, `JoinsNames`, `IsAlphabet` : the characters that names may be made of;
* `SpelledIn`, `TypeRef.SpelledIn`, `Descriptor.TypeSpelledIn`, `Descriptor.MemberSpelledIn` : all
  names in a text, a reference, a type or a member are made of such characters;
* `Nested`     : a text whose brackets are balanced and whose commas are all inside brackets;
* `MemberText` : the parts of a member id, each of the shape that a reader expects.
-/

/-! ### Characters -/

/-- The characters that do not structure an id.  Dots do, and may still be part of names. -/
def isPlain (c : Char) : Bool :=
  !isBlank c && !(['(', ')', '{', '}', '[', ']', ',', '~'].contains c)

/-- Plain characters, one condition for each character that they are not. -/
theorem isPlain_iff {c : Char} : isPlain c = true ↔ isBlank c = false ∧ c ≠ '(' ∧ c ≠ ')' ∧
    c ≠ '{' ∧ c ≠ '}' ∧ c ≠ '[' ∧ c ≠ ']' ∧ c ≠ ',' ∧ c ≠ '~' := by
  simp [isPlain]

/-- The characters include those that join names in the ids of types. -/
structure JoinsNames (p : Char → Bool) : Prop where
  dot : p '.' = true
  tick : p '`' = true
  digits : ∀ {c : Char}, c.isDigit = true → p c = true

/-- An alphabet for the names in ids: plain characters only, and among them all those that the
    writers of ids add to names. -/
structure IsAlphabet (p : Char → Bool) : Prop extends JoinsNames p where
  plain : ∀ {c : Char}, p c = true → isPlain c = true
  joins : ∀ c ∈ ['#', '*', '@', 'c', 't', 'o', 'r'], p c = true

/-- A character that has a property is none of those that do not. -/
theorem ne_of_holds {p : Char → Bool} {c : Char} (hc : p c = true) (x : Char)
    (hx : p x = false) : c ≠ x := by
  rintro rfl
  exact absurd hc (by simp [hx])

/-- Digits are plain. -/
theorem isPlain_of_isDigit {c : Char} (h : c.isDigit = true) : isPlain c = true := by
  have hne := ne_of_holds h
  refine isPlain_iff.mpr ⟨?_, hne _ (by decide), hne _ (by decide), hne _ (by decide),
    hne _ (by decide), hne _ (by decide), hne _ (by decide), hne _ (by decide), hne _ (by decide)⟩
  simp only [Char.isDigit, Bool.and_eq_true, decide_eq_true_eq, ge_iff_le,
    UInt32.le_iff_toNat_le] at h
  change 48 ≤ c.toNat ∧ c.toNat ≤ 57 at h
  simp only [isBlank, Bool.or_eq_false_iff, Bool.and_eq_false_iff, decide_eq_false_iff_not,
    beq_eq_false_iff_ne]
  omega

/-- The plain characters are an alphabet. -/
theorem isAlphabet_isPlain : IsAlphabet isPlain where
  dot := by decide
  tick := by decide
  digits := isPlain_of_isDigit
  plain := id
  joins := by decide

/-! ### Names -/

/-- A text of characters of an alphabet. -/
abbrev SpelledIn (p : Char → Bool) (s : String) : Prop :=
  ∀ c ∈ s.toList, p c = true

/-- Pointer and array marks, as they stand at the end of a name. -/
inductive IsMarks : List Char → Prop
  | nil : IsMarks []
  | pointer {cs : List Char} (h : IsMarks cs) : IsMarks ('*' :: cs)
  | array (n : Nat) {cs : List Char} (h : IsMarks cs) :
      IsMarks ('[' :: (List.replicate n ',' ++ ']' :: cs))

/-- Marks start with a character that opens marks. -/
theorem IsMarks.span {marks : List Char} (h : IsMarks marks) :
    marks.takeWhile (fun c => !opensMarks c) = [] ∧
      marks.dropWhile (fun c => !opensMarks c) = marks := by
  cases h <;> simp [opensMarks]

/-- A name that may end with pointer and array marks. -/
def SpelledWithMarks (p : Char → Bool) (name : String) : Prop :=
  ∃ base marks, name.toList = base ++ marks ∧ (∀ c ∈ base, p c = true) ∧ IsMarks marks

/-- A name may have no marks. -/
theorem SpelledWithMarks.of_spelledIn {p : Char → Bool} {name : String} (h : SpelledIn p name) :
    SpelledWithMarks p name :=
  ⟨name.toList, [], by simp, h, .nil⟩

/-- A reference and all the references inside it have a property. -/
inductive TypeRef.Everywhere (P : TypeRef → Prop) : TypeRef → Prop
  | ref {t : TypeRef} (here : P t) (enclosing : ∀ e, t.enclosing = some e → Everywhere P e)
      (arguments : ∀ a ∈ t.arguments, Everywhere P a) : Everywhere P t

/-- A weaker property holds wherever the stronger one does. -/
theorem TypeRef.Everywhere.mono {P Q : TypeRef → Prop} (hPQ : ∀ t, P t → Q t) {t : TypeRef}
    (h : t.Everywhere P) : t.Everywhere Q := by
  induction h with
  | ref here _ _ ihenclosing iharguments => exact .ref (hPQ _ here) ihenclosing iharguments

/-- The namespaces and names in a reference are made of the characters of an alphabet. -/
def TypeRef.SpelledIn (p : Char → Bool) : TypeRef → Prop :=
  Everywhere fun t => InheritDoc.SpelledIn p t.ns ∧ SpelledWithMarks p t.name

namespace Descriptor

/-- A declared type and all the types around it have a property. -/
inductive EveryLevel (P : Descriptor → Prop) : Descriptor → Prop
  | level {d : Descriptor} (here : P d) (enclosing : ∀ e, d.enclosing = some e → EveryLevel P e) :
      EveryLevel P d

/-- The namespaces and names of a type and of the types around it are made of the characters of an
    alphabet. -/
def TypeSpelledIn (p : Char → Bool) : Descriptor → Prop :=
  EveryLevel fun t => SpelledIn p t.ns ∧ SpelledIn p t.name

/-- The references in the signature of a member. -/
def references (d : Descriptor) : List TypeRef :=
  d.parameters.map (·.type) ++ d.explicitInterface.toList ++ d.returnType.toList

/-- The type of each parameter is a reference of the signature, in whichever order they are written.
    -/
theorem type_mem_references {d : Descriptor} {parameter : Parameter}
    (h : parameter ∈ d.orderedParameters) : parameter.type ∈ d.references := by
  have hmem : parameter ∈ d.parameters := (List.mergeSort_perm d.parameters _).mem_iff.mp h
  exact List.mem_append_left _ (List.mem_append_left _ (List.mem_map_of_mem hmem))

/-- The name of a member and the references in its signature are made of the characters of an
    alphabet, and the name has no dot unless the member implements an interface explicitly.
    Constructors may have any name. -/
structure MemberSpelledIn (p : Char → Bool) (d : Descriptor) : Prop where
  name : d.kind ≠ .constructor → SpelledIn p d.name
  dotless : d.kind ≠ .constructor → d.explicitInterface = none → '.' ∉ d.name.toList
  references : ∀ t ∈ d.references, t.SpelledIn p

end Descriptor

/-! ### Balanced texts -/

/-- `Nested p n cs` : the text `cs` closes the brackets that it opens and `n` more.  Commas stand
    inside brackets only, and all other characters are of the alphabet. -/
inductive Nested (p : Char → Bool) : Nat → List Char → Prop
  | nil : Nested p 0 []
  | plain {n : Nat} {c : Char} {cs : List Char} (hc : p c = true) (h : Nested p n cs) :
      Nested p n (c :: cs)
  | comma {n : Nat} {cs : List Char} (h : Nested p (n + 1) cs) : Nested p (n + 1) (',' :: cs)
  | opening {n : Nat} {c : Char} {cs : List Char} (hc : c = '{' ∨ c = '[')
      (h : Nested p (n + 1) cs) : Nested p n (c :: cs)
  | closing {n : Nat} {c : Char} {cs : List Char} (hc : c = '}' ∨ c = ']') (h : Nested p n cs) :
      Nested p (n + 1) (c :: cs)

namespace Nested

variable {p : Char → Bool}

/-- The brackets that two texts leave to be closed add up. -/
theorem append {m n : Nat} {cs ds : List Char} (hcs : Nested p m cs) (hds : Nested p n ds) :
    Nested p (m + n) (cs ++ ds) := by
  induction hcs with
  | nil => simpa using hds
  | plain hc _ ih => exact .plain hc ih
  | comma _ ih =>
    rw [Nat.succ_add] at ih ⊢
    exact .comma ih
  | opening hc _ ih =>
    rw [Nat.succ_add] at ih
    exact .opening hc ih
  | closing hc _ ih =>
    rw [Nat.succ_add]
    exact .closing hc ih

/-- Balanced texts one after the other are balanced. -/
theorem append_zero {cs ds : List Char} (hcs : Nested p 0 cs) (hds : Nested p 0 ds) :
    Nested p 0 (cs ++ ds) :=
  hcs.append hds

/-- Texts without brackets and commas are balanced. -/
theorem of_forall {cs : List Char} (h : ∀ c ∈ cs, p c = true) : Nested p 0 cs := by
  induction cs with
  | nil => exact .nil
  | cons c cs ih =>
    exact .plain (h c List.mem_cons_self) (ih fun d hd => h d (List.mem_cons_of_mem c hd))

/-- Every character of a balanced text is one of the alphabet, a bracket or a comma. -/
theorem mem_cases {n : Nat} {cs : List Char} (h : Nested p n cs) {c : Char} (hc : c ∈ cs) :
    p c = true ∨ c ∈ [',', '{', '[', '}', ']'] := by
  induction h with
  | nil => exact absurd hc List.not_mem_nil
  | plain hp _ ih =>
    rcases List.mem_cons.mp hc with rfl | hc
    · exact .inl hp
    · exact ih hc
  | comma _ ih =>
    rcases List.mem_cons.mp hc with rfl | hc
    · exact .inr (by decide)
    · exact ih hc
  | opening hp _ ih =>
    rcases List.mem_cons.mp hc with rfl | hc
    · rcases hp with rfl | rfl <;> exact .inr (by decide)
    · exact ih hc
  | closing hp _ ih =>
    rcases List.mem_cons.mp hc with rfl | hc
    · rcases hp with rfl | rfl <;> exact .inr (by decide)
    · exact ih hc

/-- Balanced texts with commas between them, up to a bracket that closes them. -/
theorem intercalate {codes : List (List Char)} (h : ∀ code ∈ codes, Nested p 0 code)
    {rest : List Char} (hrest : Nested p 1 rest) :
    Nested p 1 ([','].intercalate codes ++ rest) := by
  induction codes with
  | nil => simpa using hrest
  | cons code codes ih =>
    have hcode := h code List.mem_cons_self
    have hcodes := ih fun c hc => h c (List.mem_cons_of_mem code hc)
    cases codes with
    | nil => simpa using hcode.append hrest
    | cons next codes =>
      rw [List.intercalate_cons_cons, List.append_assoc, List.append_assoc, ← Nat.zero_add 1]
      exact hcode.append (.comma hcodes)

end Nested

/-! ### Declaration ids -/

section Joining

variable {p : Char → Bool}

/-- Decimal numbers are made of digits. -/
theorem spelledIn_toString (hdigits : ∀ {c : Char}, c.isDigit = true → p c = true) (n : Nat) :
    SpelledIn p (toString n) := by
  intro c hc
  rw [Nat.toString_eq_ofList_toDigits, String.toList_ofList] at hc
  exact hdigits (Nat.isDigit_of_mem_toDigits (by decide) (by decide) hc)

variable (hp : JoinsNames p)

include hp

/-- Arity marks are made of a tick and digits. -/
theorem spelledIn_arityMark (n : Nat) : SpelledIn p (arityMark n) := by
  intro c hc
  rw [arityMark, String.toList_append, List.mem_append] at hc
  rcases hc with hc | hc
  · obtain rfl : c = '`' := by simpa using hc
    exact hp.tick
  · exact spelledIn_toString hp.digits n c hc

/-- A dot joins an owner and a name. -/
theorem spelledIn_joinDotted {owner name : String} (howner : SpelledIn p owner)
    (hname : SpelledIn p name) : SpelledIn p (joinDotted owner name) := by
  intro c hc
  unfold joinDotted at hc
  split at hc
  · exact hname c hc
  · simp only [String.toList_append, List.mem_append] at hc
    rcases hc with (hc | hc) | hc
    · exact howner c hc
    · obtain rfl : c = '.' := by simpa using hc
      exact hp.dot
    · exact hname c hc

omit hp in
/-- Before its marks a name consists of characters of the alphabet. -/
theorem SpelledWithMarks.baseName {name : String} (h : SpelledWithMarks p name) :
    SpelledIn p (baseName name) := by
  obtain ⟨base, marks, hname, hbase, hmarks⟩ := h
  intro c hc
  rw [InheritDoc.baseName, String.toList_ofList, hname, List.takeWhile_append] at hc
  split at hc
  · -- the base has no mark in it, and the marks open with one
    rcases List.mem_append.mp hc with hc | hc
    · exact hbase c hc
    · simp [hmarks.span.1] at hc
  · exact hbase c (List.takeWhile_subset _ hc)

namespace TypeRef

omit hp in
/-- The name in a code is made of the characters of the name. -/
theorem spelledIn_codeName {t : TypeRef} (h : SpelledWithMarks p t.name) :
    InheritDoc.SpelledIn p t.codeName := by
  have hbase := h.baseName
  unfold codeName
  split
  · exact hbase
  · intro c hc
    rw [withoutArity, String.toList_ofList] at hc
    exact hbase c (List.takeWhile_subset _ hc)

/-- Declaration ids are made of the characters of names and of those that join names. -/
theorem SpelledIn.declarationId {t : TypeRef} (h : t.SpelledIn p) {id : String}
    (hid : t.declarationId = .ok id) : InheritDoc.SpelledIn p id := by
  induction h generalizing id with
  | @ref t here _ _ ihenclosing _ =>
    obtain ⟨-, -, owner, howner, rfl⟩ := declarationId_eq_ok.mp hid
    have hspelledOwner : InheritDoc.SpelledIn p owner := by
      rcases declarationOwner_eq_ok.mp howner with ⟨-, rfl⟩ | ⟨e, henclosing, howner⟩
      · exact here.1
      · exact ihenclosing e henclosing howner
    intro c hc
    rw [String.toList_append, List.mem_append] at hc
    rcases hc with hc | hc
    · exact spelledIn_joinDotted hp hspelledOwner (spelledIn_codeName here.2) c hc
    · split at hc
      · simp at hc
      · exact spelledIn_arityMark hp _ c hc

end TypeRef

end Joining

/-! ### Marks of references -/

section Alphabet

variable {p : Char → Bool} (hp : IsAlphabet p)

include hp

/-- Pointer and array marks are balanced. -/
theorem IsMarks.nested {marks : List Char} (h : IsMarks marks) : Nested p 0 marks := by
  induction h with
  | nil => exact .nil
  | pointer _ ih => exact .plain (hp.joins _ (by decide)) ih
  -- the commas of an array are inside its bracket: one more induction, on their number
  | array n _ ih =>
    refine .opening (.inr rfl) ?_
    induction n with
    | zero => exact .closing (.inr rfl) ih
    | succ n ihn => exact .comma ihn

omit hp in
/-- The marks for pointers and array dimensions are marks. -/
theorem isMarks_shapeMarks (pointers rank : Nat) : IsMarks (shapeMarks pointers rank).toList := by
  rw [shapeMarks, String.toList_ofList]
  induction pointers with
  | zero =>
    split
    · exact .nil
    · exact .array (rank - 1) .nil
  | succ n ih => exact .pointer ih

/-- The marks of a reference are balanced, whether they stand in its name or not. -/
theorem nested_marks {t : TypeRef} (h : SpelledWithMarks p t.name) : Nested p 0 t.marks.toList := by
  unfold TypeRef.marks
  split
  · exact (isMarks_shapeMarks _ _).nested hp
  · obtain ⟨base, marks, hname, hbase, hmarks⟩ := h
    rw [nameMarks, String.toList_ofList, hname, List.dropWhile_append]
    split
    · -- the base has no mark in it, and all of the marks are left
      rw [hmarks.span.2]
      exact hmarks.nested hp
    · exact (Nested.of_forall fun c hc => hbase c (List.dropWhile_subset _ hc)).append_zero
        (hmarks.nested hp)

/-! ### References -/

namespace TypeRef

omit hp in
/-- Balanced codes in braces are balanced. -/
theorem nested_argumentList {codes : List String} (h : ∀ code ∈ codes, Nested p 0 code.toList) :
    Nested p 0 (argumentList codes).toList := by
  unfold argumentList
  split
  · exact .nil
  · have hclose : Nested p 1 ['}'] := .closing (.inl rfl) .nil
    have hinner : Nested p 1 ([','].intercalate (codes.map String.toList) ++ ['}']) :=
      .intercalate (by simpa using h) hclose
    simpa [String.toList_intercalate] using Nested.opening (.inl rfl) hinner

/-- A name after a balanced owner is balanced. -/
theorem nested_joinDotted {owner name : String} (howner : Nested p 0 owner.toList)
    (hname : InheritDoc.SpelledIn p name) : Nested p 0 (joinDotted owner name).toList := by
  unfold joinDotted
  split
  · exact .of_forall hname
  · rw [String.toList_append, String.toList_append]
    exact (howner.append_zero (.plain hp.dot .nil)).append_zero (.of_forall hname)

omit hp in
/-- Placeholders are made of ticks and digits. -/
theorem spelledIn_placeholder (htick : p '`' = true)
    (hdigits : ∀ {c : Char}, c.isDigit = true → p c = true) (parameter : TypeParameter) :
    InheritDoc.SpelledIn p parameter.placeholder := by
  intro c hc
  have hindex := spelledIn_toString hdigits parameter.index.toNat c
  unfold TypeParameter.placeholder at hc
  split at hc <;> simp only [String.toList_append, List.mem_append] at hc
  · rcases hc with hc | hc
    · obtain rfl : c = '`' := by simpa using hc
      exact htick
    · exact hindex hc
  · rcases hc with hc | hc
    · obtain rfl : c = '`' := by simpa using hc
      exact htick
    · exact hindex hc

/-- **Codes are balanced.**  In the code of a reference brackets are closed, and commas stand inside
    brackets. -/
theorem SpelledIn.nested {t : TypeRef} (h : t.SpelledIn p) {code : String}
    (hcode : t.encode = .ok code) : Nested p 0 code.toList := by
  induction h generalizing code with
  | @ref t here _ _ ihenclosing iharguments =>
    have hmarks := nested_marks hp here.2
    rcases encode_eq_ok.mp hcode with ⟨parameter, -, -, -, rfl⟩ |
      ⟨-, -, owner, codes, howner, hcodes, rfl⟩
    · -- a use of a generic parameter
      rw [String.toList_append]
      have hplaceholder := spelledIn_placeholder hp.tick hp.digits parameter
      exact (Nested.of_forall hplaceholder).append_zero hmarks
    · -- a type, after its namespace or the type around it
      have hnestedOwner : Nested p 0 owner.toList := by
        rcases encodeOwner_eq_ok.mp howner with ⟨-, rfl⟩ | ⟨e, henclosing, howner⟩
        · exact .of_forall here.1
        · exact ihenclosing e henclosing howner
      have hnestedCodes : ∀ code ∈ codes, Nested p 0 code.toList := by
        intro code hcode
        obtain ⟨a, ha, hac⟩ := exists_of_mem_mapM (mapM_eq_ok.mpr hcodes) hcode
        exact iharguments a ha hac
      rw [String.toList_append, String.toList_append]
      exact ((nested_joinDotted hp hnestedOwner (spelledIn_codeName here.2)).append_zero
        (nested_argumentList hnestedCodes)).append_zero hmarks

omit hp in
/-- No reference has an empty code. -/
theorem encode_ne_empty {t : TypeRef} {code : String} (h : t.encode = .ok code) : code ≠ "" := by
  rcases encode_eq_ok.mp h with ⟨parameter, -, -, -, rfl⟩ |
    ⟨-, hname, owner, codes, -, hcodes, rfl⟩
  · unfold TypeParameter.placeholder
    split <;> simp
  · cases harguments : t.arguments with
    | cons a as =>
      -- the arguments are in braces
      rw [harguments] at hcodes
      cases hcodes
      simp [argumentList]
    | nil =>
      -- what is not in front of the marks of the name is in them
      by_cases hbase : baseName t.name = ""
      · have hparts : baseName t.name ++ nameMarks t.name = t.name := by
          simp [baseName, nameMarks, ← String.ofList_append]
        have hmarks : t.marks = t.name := by
          rw [hbase, String.empty_append] at hparts
          simp [marks, hparts, hname]
        simp [hmarks, hname]
      · have hcodeName : t.codeName ≠ "" := by simpa [codeName, harguments] using hbase
        simp [joinDotted_ne_empty owner hcodeName]

end TypeRef

/-! ### Types and members -/

namespace Descriptor

/-- Ids of types are made of the characters of names and of those that join names. -/
theorem TypeSpelledIn.encodeType {d : Descriptor} (h : d.TypeSpelledIn p) {id : String}
    (hid : d.encodeType = .ok id) : SpelledIn p id := by
  induction h generalizing id with
  | @level d here _ ih =>
    obtain ⟨-, owner, howner, rfl⟩ := encodeType_eq_ok.mp hid
    have hspelledOwner : SpelledIn p owner := by
      rcases encodeTypeOwner_eq_ok.mp howner with ⟨-, rfl⟩ | ⟨e, henclosing, howner⟩
      · exact here.1
      · exact ih e henclosing howner
    intro c hc
    rw [String.toList_append, List.mem_append] at hc
    rcases hc with hc | hc
    · exact spelledIn_joinDotted hp.toJoinsNames hspelledOwner here.2 c hc
    · unfold typeArity at hc
      split at hc
      · exact spelledIn_arityMark hp.toJoinsNames _ c hc
      · simp at hc

omit hp in
/-- No type has an empty id. -/
theorem encodeType_ne_empty {d : Descriptor} {id : String} (h : d.encodeType = .ok id) :
    id ≠ "" := by
  obtain ⟨hname, owner, -, rfl⟩ := encodeType_eq_ok.mp h
  simp [joinDotted_ne_empty owner hname]

/-- The name of a member is made of the characters of the alphabet, that of a constructor too. -/
theorem MemberSpelledIn.memberName {d : Descriptor} (h : d.MemberSpelledIn p) :
    SpelledIn p d.memberName := by
  unfold Descriptor.memberName
  split
  · intro c hc
    split at hc
    · exact hp.joins c (by revert c; decide)
    · exact hp.joins c (by revert c; decide)
  · rename_i hkind
    exact h.name hkind

omit hp in
/-- Only a member that implements an interface explicitly may have dots in its name. -/
theorem MemberSpelledIn.dot_notMem_memberName {d : Descriptor} (h : d.MemberSpelledIn p)
    (hexplicit : d.explicitInterface = none) : '.' ∉ d.memberName.toList := by
  unfold Descriptor.memberName
  split
  · split <;> decide
  · rename_i hkind
    exact h.dotless hkind hexplicit

/-- The name that opens a member id is spelled without dots, also where it names an interface. -/
theorem MemberSpelledIn.encodeMemberName {d : Descriptor} (h : d.MemberSpelledIn p) {name : String}
    (hname : d.encodeMemberName = .ok name) : ∀ c ∈ name.toList, p c = true ∧ c ≠ '.' := by
  rcases encodeMemberName_eq_ok.mp hname with ⟨hexplicit, rfl⟩ |
    ⟨interface, id, hexplicit, hid, rfl⟩
  · intro c hc
    refine ⟨h.memberName hp c hc, ?_⟩
    rintro rfl
    exact h.dot_notMem_memberName hexplicit hc
  · have hreference : interface.SpelledIn p :=
      h.references interface (by simp [Descriptor.references, hexplicit])
    have hinterface : SpelledIn p id := hreference.declarationId hp.toJoinsNames hid
    intro c hc
    rw [String.toList_ofList, List.mem_map] at hc
    obtain ⟨b, hb, rfl⟩ := hc
    split
    · -- a dot has become a hash
      exact ⟨hp.joins _ (by decide), by decide⟩
    · rename_i hdot
      refine ⟨?_, hdot⟩
      simp only [String.toList_append, List.mem_append] at hb
      rcases hb with (hb | hb) | hb
      · exact hinterface b hb
      · obtain rfl : b = '.' := by simpa using hb
        exact absurd rfl hdot
      · exact h.memberName hp b hb

/-- The arity mark of a member has no dot. -/
theorem spelledIn_memberArity (d : Descriptor) :
    ∀ c ∈ d.memberArity.toList, p c = true ∧ c ≠ '.' := by
  intro c hc
  unfold memberArity at hc
  split at hc
  · rw [String.toList_append, List.mem_append] at hc
    rcases hc with hc | hc
    · obtain rfl : c = '`' := by simpa using hc
      exact ⟨hp.tick, by decide⟩
    · refine ⟨spelledIn_toString hp.digits _ c hc, ?_⟩
      rw [Nat.toString_eq_ofList_toDigits, String.toList_ofList] at hc
      rintro rfl
      exact absurd (Nat.isDigit_of_mem_toDigits (by decide) (by decide) hc) (by decide)
  · simp at hc

end Descriptor

/-! ### Member ids -/

omit hp in
/-- Where there are parameters, they are in parentheses. -/
theorem joinParameters_of_ne_nil {codes : List (List Char)} (h : codes ≠ []) :
    joinParameters codes = '(' :: ([','].intercalate codes ++ [')']) := by
  cases codes with
  | nil => exact absurd rfl h
  | cons _ _ => rfl

omit hp in
/-- The text of a conversion target. -/
def conversionSuffix : Option (List Char) → List Char
  | none => []
  | some target => '~' :: target

/-- The parts of a member id: its name with the arity mark, its parameters and its conversion
    target. -/
structure MemberText (p : Char → Bool) where
  name : List Char
  parameters : List (List Char)
  target : Option (List Char)
  name_ne_nil : name ≠ []
  name_spelled : ∀ c ∈ name, p c = true ∧ c ≠ '.'
  parameters_nested : ∀ parameter ∈ parameters, parameter ≠ [] ∧ Nested p 0 parameter
  target_nested : ∀ code, target = some code → code ≠ [] ∧ Nested p 0 code

/-- The id that is made of the parts. -/
def MemberText.chars (m : MemberText p) : List Char :=
  m.name ++ (joinParameters m.parameters ++ conversionSuffix m.target)

omit hp in
/-- Every character of a member id is one of the alphabet or one that structures the id. -/
theorem MemberText.mem_chars (m : MemberText p) {c : Char} (hc : c ∈ m.chars) :
    p c = true ∨ c ∈ ['(', ')', ',', '{', '[', '}', ']', '~'] := by
  have hnested : ∀ {n : Nat} {cs : List Char}, Nested p n cs → c ∈ cs →
      p c = true ∨ c ∈ ['(', ')', ',', '{', '[', '}', ']', '~'] := fun h hmem =>
    (h.mem_cases hmem).imp_right (by simp only [List.mem_cons]; tauto)
  rw [chars, List.mem_append, List.mem_append] at hc
  rcases hc with hc | hc | hc
  · exact .inl (m.name_spelled c hc).1
  · by_cases hne : m.parameters = []
    · simp [hne, joinParameters] at hc
    · rw [joinParameters_of_ne_nil hne, List.mem_cons, List.mem_append, List.mem_singleton] at hc
      rcases hc with rfl | hc | rfl
      · exact .inr (by decide)
      · have hlist : Nested p 1 ([','].intercalate m.parameters ++ ['}']) :=
          .intercalate (fun code hcode => (m.parameters_nested code hcode).2)
            (.closing (.inl rfl) .nil)
        exact hnested hlist (List.mem_append_left _ hc)
      · exact .inr (by decide)
  · cases htarget : m.target with
    | none => simp [htarget, conversionSuffix] at hc
    | some code =>
      rw [htarget, conversionSuffix, List.mem_cons] at hc
      rcases hc with rfl | hc
      · exact .inr (by decide)
      · exact hnested (m.target_nested code htarget).2 hc

namespace Descriptor

/-- A parameter is balanced, also with its mark. -/
theorem MemberSpelledIn.encodeParameter {d : Descriptor} (h : d.MemberSpelledIn p)
    {parameter : Parameter} (hparameter : parameter ∈ d.orderedParameters) {code : String}
    (hcode : encodeParameter parameter = .ok code) :
    code.toList ≠ [] ∧ Nested p 0 code.toList := by
  obtain ⟨type, htype, rfl⟩ := encodeParameter_eq_ok.mp hcode
  have hspelled : parameter.type.SpelledIn p := h.references _ (type_mem_references hparameter)
  refine ⟨by simp [TypeRef.encode_ne_empty htype], ?_⟩
  rw [String.toList_append]
  refine (hspelled.nested hp htype).append_zero ?_
  split
  · exact .plain (hp.joins _ (by decide)) .nil
  · exact .nil

/-- Parameters are written as a list of balanced texts. -/
theorem MemberSpelledIn.encodeParameters {d : Descriptor} (h : d.MemberSpelledIn p) {text : String}
    (htext : d.encodeParameters = .ok text) :
    ∃ codes, text.toList = joinParameters codes ∧ ∀ code ∈ codes, code ≠ [] ∧ Nested p 0 code := by
  rcases encodeParameters_eq_ok.mp htext with ⟨-, rfl⟩ | ⟨codes, hne, hcodes, rfl⟩
  · exact ⟨[], rfl, by simp⟩
  · refine ⟨codes.map String.toList, ?_, ?_⟩
    · have hcodes_ne : codes.map String.toList ≠ [] := by
        rintro hnil
        rw [List.map_eq_nil_iff.mp hnil] at hcodes
        exact hne (List.forall₂_nil_right_iff.mp hcodes)
      rw [joinParameters_of_ne_nil hcodes_ne]
      simp [String.toList_intercalate]
    · intro code hcode
      obtain ⟨text, htext, rfl⟩ := List.mem_map.mp hcode
      obtain ⟨parameter, hparameter, hencode⟩ := exists_of_mem_mapM (mapM_eq_ok.mpr hcodes) htext
      exact h.encodeParameter hp hparameter hencode

/-- The target of a conversion operator is written as a balanced text. -/
theorem MemberSpelledIn.encodeTarget {d : Descriptor} (h : d.MemberSpelledIn p) {text : String}
    (htext : d.encodeTarget = .ok text) :
    ∃ target, text.toList = conversionSuffix target ∧
      ∀ code, target = some code → code ≠ [] ∧ Nested p 0 code := by
  rcases encodeTarget_eq_ok.mp htext with ⟨-, rfl⟩ | ⟨type, code, -, htype, hcode, rfl⟩
  · exact ⟨none, rfl, by simp⟩
  · refine ⟨some code.toList, by simp [conversionSuffix], ?_⟩
    rintro _ ⟨⟩
    refine ⟨by simp [TypeRef.encode_ne_empty hcode], ?_⟩
    exact (h.references type (by simp [Descriptor.references, htype])).nested hp hcode

/-- **Member ids have the parts of a member id.** -/
theorem MemberSpelledIn.exists_memberText {d : Descriptor} (h : d.MemberSpelledIn p)
    {id : String} (hid : d.encodeMember = .ok id) : ∃ m : MemberText p, id.toList = m.chars := by
  obtain ⟨hmember, name, parameters, target, hname, hparameters, htarget, rfl⟩ :=
    encodeMember_eq_ok.mp hid
  obtain ⟨codes, hcodes, hcodesNested⟩ := h.encodeParameters hp hparameters
  obtain ⟨code, hcode, hcodeNested⟩ := h.encodeTarget hp htarget
  -- the name is not empty, since explicit implementations add to it and all others keep it
  have hne : name.toList ++ d.memberArity.toList ≠ [] := by
    rcases encodeMemberName_eq_ok.mp hname with ⟨-, rfl⟩ | ⟨_, _, _, _, rfl⟩
    · simp [hmember]
    · simp
  have hspelled : ∀ c ∈ name.toList ++ d.memberArity.toList, p c = true ∧ c ≠ '.' := by
    intro c hc
    rcases List.mem_append.mp hc with hc | hc
    · exact h.encodeMemberName hp hname c hc
    · exact spelledIn_memberArity hp d c hc
  refine ⟨⟨_, codes, code, hne, hspelled, hcodesNested, hcodeNested⟩, ?_⟩
  simp [MemberText.chars, hcodes, hcode]

end Descriptor

end Alphabet

end InheritDoc
