import InheritDoc.Proofs.Id.Parts

namespace InheritDoc

open Text (isBlank trim cutAt WithBlanks Solid)

/-!
# Reading ids back

The reader of ids undoes the writer.

* `MemberText.signatureRead` : what follows the name of a member is read as it was written, whatever
  blanks have been put into its parameter list;
* `readMember_chars`     : a written member id is read as its owner and itself;
* `Respaced`             : an id with blanks put in where they do not matter;
* `parse_prefixedId`     : **a written documentation id is read as what it was written for.**
-/

/-! ### Parameter lists -/

/-- Blanks between the parentheses of a parameter list do not matter. -/
theorem readParameters_withBlanks {inner inner' : List Char} (h : WithBlanks inner inner')
    (hinner : ')' ∉ inner) (first : Bool) (depth : Nat) (current tail : List Char) :
    readParameters first depth current (inner' ++ ')' :: tail)
      = readParameters first depth current (inner ++ ')' :: tail) := by
  induction h generalizing first depth current with
  | nil => rfl
  -- the blank is in the spaced list only, where the reader skips it
  | blank hc _ ih =>
    rw [List.cons_append, readParameters_blank _ _ _ _ hc]
    exact ih hinner first depth current
  -- both lists go on with the character, which does not close them
  | @char c cs ds _ ih =>
    rw [List.mem_cons, not_or] at hinner
    simp only [List.cons_append, readParameters, ih hinner.2, Ne.symm hinner.1, ↓reduceIte]

section Alphabet

variable {p : Char → Bool} (hp : IsAlphabet p)

include hp

/-- Texts that are balanced for the writer are so for the reader. -/
theorem Nested.balanced {n : Nat} {cs : List Char} (h : Nested p n cs) : Balanced n cs := by
  induction h with
  | nil => exact .nil
  | plain hc _ ih =>
    have hplain := isPlain_iff.mp (hp.plain hc)
    exact .other hplain.1 (by simp [hplain]) ih
  | comma _ ih => exact .comma ih
  | opening hc _ ih => exact .opening (by rcases hc with rfl | rfl <;> decide) ih
  | closing hc _ ih => exact .closing (by rcases hc with rfl | rfl <;> decide) ih

/-! ### Conversion targets -/

omit hp in
/-- Balanced texts have no blanks. -/
theorem Nested.isBlank_eq_false {p : Char → Bool} (hp : IsAlphabet p) {n : Nat} {cs : List Char}
    (h : Nested p n cs) : ∀ c ∈ cs, isBlank c = false := by
  intro c hc
  rcases h.mem_cases hc with hc | hc
  · exact (isPlain_iff.mp (hp.plain hc)).1
  · have hall : ∀ c ∈ [',', '{', '[', '}', ']'], isBlank c = false := by decide
    exact hall c hc

/-- A balanced text is left alone when blanks are trimmed. -/
theorem Nested.solid {code : List Char} (hne : code ≠ []) (h : Nested p 0 code) : Solid code :=
  .of_forall hne (h.isBlank_eq_false hp)

/-! ### Members -/

omit hp in
/-- The parameter list of a member, with blanks put in between its parentheses. -/
def SpacedParameters (codes : List (List Char)) (written : List Char) : Prop :=
  (codes = [] ∧ written = []) ∨
    ∃ inner, codes ≠ [] ∧ WithBlanks ([','].intercalate codes) inner ∧
      written = '(' :: (inner ++ [')'])

omit hp in
/-- There may be no blanks. -/
theorem SpacedParameters.refl (codes : List (List Char)) :
    SpacedParameters codes (joinParameters codes) := by
  by_cases hne : codes = []
  · exact .inl ⟨hne, by rw [hne, joinParameters]⟩
  · exact .inr ⟨_, hne, .refl _, joinParameters_of_ne_nil hne⟩

omit hp in
/-- Balanced texts have no parenthesis and no tilde. -/
theorem Nested.notMem {p : Char → Bool} (hp : IsAlphabet p) {n : Nat} {cs : List Char}
    (h : Nested p n cs) {x : Char} (hx : x ∈ ['(', ')', '~']) : x ∉ cs := by
  intro hmem
  rcases h.mem_cases hmem with hx' | hx'
  · have hplain := hp.plain hx'
    revert hplain
    have hall : ∀ c ∈ ['(', ')', '~'], ¬ isPlain c = true := by decide
    exact hall x hx
  · have hall : ∀ c ∈ ['(', ')', '~'], c ∉ [',', '{', '[', '}', ']'] := by decide
    exact hall x hx hx'

/-- The parameters of a member have no parenthesis and no tilde. -/
theorem MemberText.notMem_intercalate (m : MemberText p) {x : Char} (hx : x ∈ ['(', ')', '~']) :
    x ∉ [','].intercalate m.parameters := by
  have hnested : Nested p 1 ([','].intercalate m.parameters ++ ['}']) :=
    .intercalate (fun code hcode => (m.parameters_nested code hcode).2) (.closing (.inl rfl) .nil)
  intro hmem
  exact hnested.notMem hp hx (List.mem_append_left _ hmem)

/-- What follows the name of a member is read as it was written. -/
theorem MemberText.signatureRead (m : MemberText p) {written : List Char}
    (hwritten : SpacedParameters m.parameters written) :
    SignatureRead (written ++ conversionSuffix m.target)
      (joinParameters m.parameters ++ conversionSuffix m.target) := by
  rcases hwritten with ⟨hnil, rfl⟩ | ⟨inner, hne, hinner, rfl⟩
  · -- no parameters: what follows is a conversion target, if anything
    rw [hnil]
    cases htarget : m.target with
    | none => exact .nothing
    | some code =>
      obtain ⟨hcode_ne, hcode⟩ := m.target_nested code htarget
      exact .of_solid (hcode.solid hp hcode_ne) (hcode.notMem hp (by decide))
  · -- the reader skips the blanks, and finds the parameters at the commas outside brackets
    refine .of_list (fun rest => ?_) fun code hcode =>
      (m.target_nested code hcode).2.solid hp (m.target_nested code hcode).1
    rw [readParameters_withBlanks hinner (m.notMem_intercalate hp (by decide)),
      readParameters_list hne fun code hcode =>
        ⟨(m.parameters_nested code hcode).1, (m.parameters_nested code hcode).2.balanced hp⟩]

omit hp in
/-- There are no blanks in a plain name. -/
theorem trim_of_isPlain {cs : List Char} (h : ∀ c ∈ cs, isPlain c = true) : trim cs = cs :=
  Text.trim_of_forall fun c hc => (isPlain_iff.mp (h c hc)).1

/-- **A written member id is read as its owner and itself**, whatever blanks have been put into its
    parameter list. -/
theorem readMember_chars {owner : List Char} (howner_ne : owner ≠ [])
    (howner : ∀ c ∈ owner, p c = true) (m : MemberText p) {written : List Char}
    (hwritten : SpacedParameters m.parameters written) (raw : String) :
    readMember (owner ++ '.' :: m.name ++ (written ++ conversionSuffix m.target)) raw
      = .ok (.member (String.ofList owner) (String.ofList m.chars)) := by
  have hplain : ∀ c ∈ owner ++ '.' :: m.name, isPlain c = true := by
    intro c hc
    rcases List.mem_append.mp hc with hc | hc
    · exact hp.plain (howner c hc)
    · rcases List.mem_cons.mp hc with rfl | hc
      · decide
      · exact hp.plain (m.name_spelled c hc).1
  -- so no parenthesis, brace or tilde stands in front of the parameter list
  have hnotMem : ∀ {x : Char}, isPlain x = false → x ∉ owner ++ '.' :: m.name := fun hx hmem =>
    absurd (hplain _ hmem) (by simp [hx])
  have hownerTrim : trim owner = owner := trim_of_isPlain fun c hc => hp.plain (howner c hc)
  have hnameTrim : trim m.name = m.name :=
    trim_of_isPlain fun c hc => hp.plain (m.name_spelled c hc).1
  have hbraces : openBraces 0 owner = 0 :=
    openBraces_of_notMem (fun h => hnotMem (by decide) (List.mem_append_left _ h))
      (fun h => hnotMem (by decide) (List.mem_append_left _ h)) 0
  have hdotless : Dotless 0 m.name := dotless_of_notMem (fun h => (m.name_spelled _ h).2 rfl) 0
  have hread := MemberRead.parts (.of_append (hnotMem (by decide)) hbraces hdotless)
    (by rwa [hownerTrim]) (by rw [hnameTrim]; exact m.name_ne_nil) (.inr (hnotMem (by decide)))
    (m.signatureRead hp hwritten)
  rw [hownerTrim, hnameTrim] at hread
  exact readMember_eq_ok.mpr hread

end Alphabet

/-! ### Documentation ids -/

/-- What the documentation id of an element points to: the type, or the member of its enclosing
    type. -/
def Descriptor.target (d : Descriptor) : Except EncodeError Target :=
  if d.kind.isType then do return .type (← d.encode)
  else
    match d.enclosing with
    | none => .error (.missingEnclosingType d.name)
    | some owner => do return .member (← owner.encodeType) (← d.encode)

/-- The names in an element and around it are plain.  Only what its documentation id is made of
    counts. -/
structure Descriptor.Plain (d : Descriptor) : Prop where
  type : d.kind.isType = true → d.TypeSpelledIn isPlain
  member : d.kind.isType = false → d.MemberSpelledIn isPlain
  owner : d.kind.isType = false → ∀ owner, d.enclosing = some owner → owner.TypeSpelledIn isPlain

/-- The text of an id with blanks put in before it, after it, and between the parentheses of its
    parameter list. -/
inductive Respaced (id : List Char) : List Char → Prop
  | around {before after : List Char} (hbefore : ∀ c ∈ before, isBlank c = true)
      (hafter : ∀ c ∈ after, isBlank c = true) : Respaced id (before ++ id ++ after)
  | inside {before after head inner inner' tail : List Char}
      (hbefore : ∀ c ∈ before, isBlank c = true) (hafter : ∀ c ∈ after, isBlank c = true)
      (hid : id = head ++ '(' :: (inner ++ ')' :: tail)) (h : WithBlanks inner inner') :
      Respaced id (before ++ (head ++ '(' :: (inner' ++ ')' :: tail)) ++ after)

/-- There may be no blanks. -/
theorem Respaced.refl (id : List Char) : Respaced id id := by
  have h : Respaced id ([] ++ id ++ []) := .around (by simp) (by simp)
  simpa using h

/-- Types and only types have the letter of types. -/
theorem Kind.letter_eq_type_iff {kind : Kind} : kind.letter = .type ↔ kind.isType = true := by
  cases kind <;> simp [Kind.letter, Kind.isType]

/-- An id is read by its letter and its name, which neither starts nor ends with a blank. -/
theorem DocId.parse_surrounded (letter : IdLetter) {name before after : List Char} (hne : name ≠ [])
    (hhead : ∀ c ∈ name.head?, isBlank c = false) (hlast : ∀ c ∈ name.getLast?, isBlank c = false)
    (hbefore : ∀ c ∈ before, isBlank c = true) (hafter : ∀ c ∈ after, isBlank c = true) :
    DocId.parse (String.ofList (before ++ (letter.toChar :: ':' :: name) ++ after))
      = if letter = .type then .ok ⟨.type, .type (String.ofList name)⟩
        else do
          return ⟨letter, ← readMember name (String.ofList (letter.toChar :: ':' :: name))⟩ := by
  have hletter : isBlank letter.toChar = false ∧ letter.toChar ≠ ':' := by
    cases letter <;> decide
  have htrim : trim (before ++ (letter.toChar :: ':' :: name) ++ after)
      = letter.toChar :: ':' :: name := by
    refine Text.trim_surrounded hbefore hafter (by simp) ?_ ?_
    · simpa using hletter.1
    · rw [← List.singleton_append, List.getLast?_append_of_ne_nil _ (by simp),
        ← List.singleton_append, List.getLast?_append_of_ne_nil _ hne]
      exact hlast
  have hcolon : ':' ∉ [letter.toChar] := by simpa using hletter.2.symm
  have hcut : cutAt ':' (letter.toChar :: ':' :: name) = some ([letter.toChar], name) :=
    Text.cutAt_append hcolon name
  have htrimName : trim name = name := Text.trim_of_ends hhead hlast
  simp only [DocId.parse, String.toList_ofList, htrim, hcut, IdLetter.ofChars?_toChar, htrimName,
    List.isEmpty_iff, hne]
  cases letter <;> rfl

section Alphabet

variable {p : Char → Bool} (hp : IsAlphabet p)

include hp

/-- A member id does not end with a blank, whatever blanks have been put into its parameter list. -/
theorem MemberText.isBlank_getLast? (m : MemberText p) {written : List Char}
    (hwritten : SpacedParameters m.parameters written) :
    ∀ c ∈ (m.name ++ (written ++ conversionSuffix m.target)).getLast?, isBlank c = false := by
  intro c hc
  cases htarget : m.target with
  | some code =>
    rw [htarget, conversionSuffix, List.getLast?_append_of_ne_nil _ (by simp),
      List.getLast?_append_of_ne_nil _ (by simp)] at hc
    have hcode := (m.target_nested code htarget).2.isBlank_eq_false hp
    exact List.forall_mem_cons.mpr ⟨by decide, hcode⟩ c (List.mem_of_mem_getLast? hc)
  | none =>
    rw [htarget, conversionSuffix, List.append_nil] at hc
    rcases hwritten with ⟨-, rfl⟩ | ⟨inner, -, -, rfl⟩
    · rw [List.append_nil] at hc
      exact (isPlain_iff.mp (hp.plain (m.name_spelled c (List.mem_of_mem_getLast? hc)).1)).1
    · rw [List.getLast?_append_of_ne_nil _ (by simp), ← List.cons_append,
        List.getLast?_append_of_ne_nil _ (by simp)] at hc
      obtain rfl : c = ')' := by simpa using hc.symm
      decide

/-- Conversion targets have no parenthesis. -/
theorem MemberText.notMem_conversionSuffix (m : MemberText p) {x : Char} (hx : x ∈ ['(', ')']) :
    x ∉ conversionSuffix m.target := by
  cases htarget : m.target with
  | none => simp [conversionSuffix]
  | some code =>
    have hcode := (m.target_nested code htarget).2
    rw [conversionSuffix, List.mem_cons, not_or]
    have hall : ∀ x ∈ ['(', ')'], x ≠ '~' ∧ x ∈ ['(', ')', '~'] := by decide
    exact ⟨(hall x hx).1, hcode.notMem hp (hall x hx).2⟩

/-- Blanks in and around a member id stand in and around its parts. -/
theorem Respaced.memberText {lead text : List Char} (hlead : '(' ∉ lead) (m : MemberText p)
    (h : Respaced (lead ++ m.chars) text) :
    ∃ before after written, (∀ c ∈ before, isBlank c = true) ∧ (∀ c ∈ after, isBlank c = true) ∧
      SpacedParameters m.parameters written ∧
      text = before ++ (lead ++ (m.name ++ (written ++ conversionSuffix m.target))) ++ after := by
  have hname : '(' ∉ m.name := fun hmem => absurd (hp.plain (m.name_spelled _ hmem).1) (by decide)
  have hfront : '(' ∉ lead ++ m.name := by simp [hlead, hname]
  cases h with
  | @around before after hbefore hafter =>
    exact ⟨before, after, _, hbefore, hafter, .refl _, rfl⟩
  | @inside before after head inner inner' tail hbefore hafter hid hinner =>
    by_cases hne : m.parameters = []
    · -- there is no parenthesis in the id
      have hmem : '(' ∈ lead ++ m.chars := by simp [hid]
      rw [MemberText.chars, hne, joinParameters, List.nil_append, ← List.append_assoc,
        List.mem_append] at hmem
      exact absurd hmem (not_or.mpr ⟨hfront, m.notMem_conversionSuffix hp (by decide)⟩)
    · -- there is one pair of parentheses in the id
      have hid' : (lead ++ m.name) ++ '(' ::
          ([','].intercalate m.parameters ++ ')' :: conversionSuffix m.target)
            = head ++ '(' :: (inner ++ ')' :: tail) := by
        rw [← hid, MemberText.chars, joinParameters_of_ne_nil hne]
        simp
      have hback : '(' ∉ [','].intercalate m.parameters ++ ')' :: conversionSuffix m.target := by
        simp [m.notMem_intercalate hp, m.notMem_conversionSuffix hp]
      obtain ⟨rfl, -, hrest⟩ := (List.append_cons_inj_of_notMem hfront hback).mp hid'
      obtain ⟨rfl, -, rfl⟩ := (List.append_cons_inj_of_notMem (m.notMem_intercalate hp (by decide))
        (m.notMem_conversionSuffix hp (by decide))).mp hrest
      exact ⟨before, after, _, hbefore, hafter, .inr ⟨inner', hne, hinner, rfl⟩, by simp⟩

end Alphabet

/-- The documentation id of a type is read as the type. -/
theorem parse_typeId {id text : List Char} (hne : id ≠ []) (hid : ∀ c ∈ id, isPlain c = true)
    (htext : Respaced (IdLetter.type.toChar :: ':' :: id) text) :
    DocId.parse (String.ofList text) = .ok ⟨.type, .type (String.ofList id)⟩ := by
  have hblank : ∀ c ∈ id, isBlank c = false := fun c hc => (isPlain_iff.mp (hid c hc)).1
  cases htext with
  | around hbefore hafter =>
    rw [DocId.parse_surrounded .type hne (fun c hc => hblank c (List.mem_of_mem_head? hc))
      (fun c hc => hblank c (List.mem_of_mem_getLast? hc)) hbefore hafter, if_pos rfl]
  | @inside _ _ head inner _ tail _ _ heq _ =>
    -- there is no parenthesis in the id
    have hmem : '(' ∈ IdLetter.type.toChar :: ':' :: id := by simp [heq]
    have hplain : ∀ c ∈ IdLetter.type.toChar :: ':' :: id, isPlain c = true :=
      List.forall_mem_cons.mpr ⟨by decide, List.forall_mem_cons.mpr ⟨by decide, hid⟩⟩
    exact absurd (hplain _ hmem) (by decide)

/-- The documentation id of a member is read as the member of its type. -/
theorem parse_memberId {p : Char → Bool} (hp : IsAlphabet p) {letter : IdLetter}
    (hletter : letter ≠ .type) {owner text : List Char} (howner_ne : owner ≠ [])
    (howner : ∀ c ∈ owner, p c = true) (m : MemberText p)
    (htext : Respaced (letter.toChar :: ':' :: (owner ++ '.' :: m.chars)) text) :
    DocId.parse (String.ofList text)
      = .ok ⟨letter, .member (String.ofList owner) (String.ofList m.chars)⟩ := by
  have hlead : '(' ∉ letter.toChar :: ':' :: (owner ++ ['.']) := by
    have hletterChar : '(' ≠ letter.toChar := by cases letter <;> decide
    have hownerChars : '(' ∉ owner := fun hmem => absurd (hp.plain (howner _ hmem)) (by decide)
    simp [hletterChar, hownerChars]
  have hsplit : letter.toChar :: ':' :: (owner ++ '.' :: m.chars)
      = (letter.toChar :: ':' :: (owner ++ ['.'])) ++ m.chars := by simp
  rw [hsplit] at htext
  obtain ⟨before, after, written, hbefore, hafter, hwritten, rfl⟩ := htext.memberText hp hlead m
  have hassoc : letter.toChar :: ':' :: (owner ++ ['.']) ++
      (m.name ++ (written ++ conversionSuffix m.target))
        = letter.toChar :: ':' ::
          (owner ++ '.' :: m.name ++ (written ++ conversionSuffix m.target)) := by
    simp
  have hhead : ∀ c ∈ (owner ++ '.' :: m.name ++ (written ++ conversionSuffix m.target)).head?,
      isBlank c = false := by
    intro c hc
    rw [List.append_assoc, List.head?_append_of_ne_nil _ howner_ne] at hc
    exact (isPlain_iff.mp (hp.plain (howner c (List.mem_of_mem_head? hc)))).1
  have hlast : ∀ c ∈ (owner ++ '.' :: m.name ++ (written ++ conversionSuffix m.target)).getLast?,
      isBlank c = false := by
    intro c hc
    rw [List.append_assoc, List.cons_append, ← List.singleton_append, ← List.append_assoc,
      List.getLast?_append_of_ne_nil _ (by simp [m.name_ne_nil])] at hc
    exact m.isBlank_getLast? hp hwritten c hc
  rw [hassoc, DocId.parse_surrounded letter (by simp) hhead hlast hbefore hafter, if_neg hletter,
    readMember_chars hp howner_ne howner m hwritten]
  rfl

/-- **The reader of ids undoes the writer.**  A documentation id that is made of plain names is read
    as its letter and what it was written for, and so it is with any blanks put in around it and
    between the parentheses of its parameter list. -/
theorem parse_prefixedId {d : Descriptor} {id : String} (hd : d.Plain)
    (hid : d.prefixedId = .ok id) :
    ∃ target, d.target = .ok target ∧ DocId.parse id = .ok ⟨d.kind.letter, target⟩ ∧
      ∀ text : String, Respaced id.toList text.toList →
        DocId.parse text = .ok ⟨d.kind.letter, target⟩ := by
  -- it is enough to read the id with blanks, for there may be none
  suffices h : ∃ target, d.target = .ok target ∧ ∀ text : String, Respaced id.toList text.toList →
      DocId.parse text = .ok ⟨d.kind.letter, target⟩ by
    obtain ⟨target, htarget, hread⟩ := h
    exact ⟨target, htarget, hread id (.refl _), hread⟩
  obtain ⟨qualified, hqualified, rfl⟩ := Descriptor.prefixedId_eq_ok.mp hid
  rcases Descriptor.qualifiedId_eq_ok.mp hqualified with ⟨htype, hcode⟩ |
    ⟨owner, ownerId, memberId, htype, henclosing, howner, hmember, rfl⟩
  · -- a type
    have hletter : d.kind.letter = .type := Kind.letter_eq_type_iff.mpr htype
    refine ⟨.type qualified, ?_, fun text htext => ?_⟩
    · simp only [Descriptor.target, htype, ↓reduceIte, Descriptor.encode, hcode]
      rfl
    · have hne : qualified.toList ≠ [] := by simpa using Descriptor.encodeType_ne_empty hcode
      have hspelled := (hd.type htype).encodeType isAlphabet_isPlain hcode
      have hread := parse_typeId hne hspelled (by simpa [hletter] using htext)
      simpa [hletter] using hread
  · -- a member of a type
    have hletter : d.kind.letter ≠ .type := by simp [Kind.letter_eq_type_iff, htype]
    refine ⟨.member ownerId memberId, ?_, fun text htext => ?_⟩
    · simp only [Descriptor.target, htype, henclosing, Descriptor.encode, howner, hmember]
      rfl
    · have hne : ownerId.toList ≠ [] := by simpa using Descriptor.encodeType_ne_empty howner
      have hspelled := (hd.owner htype owner henclosing).encodeType isAlphabet_isPlain howner
      obtain ⟨m, hm⟩ := (hd.member htype).exists_memberText isAlphabet_isPlain hmember
      have hread := parse_memberId isAlphabet_isPlain hletter hne hspelled m
        (by simpa [hm] using htext)
      simpa [← hm] using hread

/-- A two-dimensional array of the type parameter of a type. -/
def sampleItems : TypeRef :=
  { name := "T[,]", slot := some ⟨"T", 0, .onType⟩ }

/-- A conversion operator of a generic type, with a constructed type passed by reference. -/
def sampleConversion : Descriptor :=
  let cart := (Descriptor.classDecl "Shop" "Cart").withTypeParameter "T"
  let price := (TypeRef.named "" "Func`2").withArguments [.named "System" "String", sampleItems]
  let operator := Descriptor.conversion "op_Explicit" (.named "Shop" "Total")
  (operator.withParameter price true).inType cart

/-- The names in the sample are plain. -/
theorem sampleConversion_plain : sampleConversion.Plain := by
  have hnamed : ∀ ns name : String, SpelledIn isPlain ns → SpelledIn isPlain name →
      (TypeRef.named ns name).SpelledIn isPlain := fun ns name hns hname =>
    .ref ⟨hns, .of_spelledIn hname⟩ (by simp [TypeRef.named]) (by simp [TypeRef.named])
  have hitems : sampleItems.SpelledIn isPlain :=
    .ref ⟨by decide, ['T'], ['[', ',', ']'], by decide, by decide, .array 1 .nil⟩
      (by simp [sampleItems]) (by simp [sampleItems])
  have hprice : ((TypeRef.named "" "Func`2").withArguments
      [.named "System" "String", sampleItems]).SpelledIn isPlain := by
    refine .ref ⟨by decide, .of_spelledIn (by decide)⟩
      (by simp [TypeRef.withArguments, TypeRef.named]) ?_
    exact List.forall_mem_cons.2
      ⟨hnamed _ _ (by decide) (by decide), List.forall_mem_singleton.2 hitems⟩
  refine ⟨by simp [sampleConversion, Descriptor.conversion, Descriptor.withParameter,
    Descriptor.inType, Kind.isType], fun _ => ⟨fun _ => by decide, fun _ _ => by decide, ?_⟩, ?_⟩
  · exact List.forall_mem_cons.2
      ⟨hprice, List.forall_mem_singleton.2 (hnamed _ _ (by decide) (by decide))⟩
  · rintro - owner ⟨⟩
    exact .level ⟨by decide, by decide⟩ (by rintro e ⟨⟩)

/-- The reader undoes the writer on a conversion operator, with blanks in its parameter list. -/
theorem parse_prefixedId_conversion :
    sampleConversion.Plain ∧
    sampleConversion.prefixedId
      = .ok "M:Shop.Cart`1.op_Explicit(Func\x7bSystem.String,`0[,]\x7d@)~Shop.Total" ∧
    DocId.parse " M:Shop.Cart`1.op_Explicit( Func\x7bSystem.String, `0[,]\x7d@ )~Shop.Total"
      = .ok ⟨.method, .member "Shop.Cart`1"
          "op_Explicit(Func\x7bSystem.String,`0[,]\x7d@)~Shop.Total"⟩ := by
  have hid : sampleConversion.prefixedId
      = .ok "M:Shop.Cart`1.op_Explicit(Func\x7bSystem.String,`0[,]\x7d@)~Shop.Total" := by
    decide +kernel
  have htarget : sampleConversion.target = .ok (.member "Shop.Cart`1"
      "op_Explicit(Func\x7bSystem.String,`0[,]\x7d@)~Shop.Total") := by
    decide +kernel
  have hspaced : Respaced
      "M:Shop.Cart`1.op_Explicit(Func\x7bSystem.String,`0[,]\x7d@)~Shop.Total".toList
      (" ".toList ++ ("M:Shop.Cart`1.op_Explicit".toList ++ '(' ::
        (" Func\x7bSystem.String, `0[,]\x7d@ ".toList ++ ')' :: "~Shop.Total".toList)) ++ []) :=
    .inside (by decide) (by decide) (by decide +kernel) (Text.withBlanks_filter _)
  refine ⟨sampleConversion_plain, hid, ?_⟩
  obtain ⟨target, heq, -, hread⟩ := parse_prefixedId sampleConversion_plain hid
  obtain rfl := Except.ok.inj (htarget.symm.trans heq)
  refine hread _ ?_
  simpa using hspaced

end InheritDoc
