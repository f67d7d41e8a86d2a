import InheritDoc.Proofs.Id.Reading

namespace InheritDoc

open Text (isBlank trim cutAt Solid)

/-!
# Normal forms of ids

An id is read, written out and read again.  That gives the same id, unless an empty parameter list
has been dropped and the text around it is read differently without it.

* `DocId.Normal`          : the ids that are made of the parts their own text is cut into;
* `parse_text_eq_ok_iff`  : these are the ids that are read from their own text;
* `DropsList`             : how an empty parameter list is dropped;
* `MarkedEmptyList`       : an empty parameter list, with a tilde before or a parenthesis after it;
* `parse_text_of_parse`   : **an id that has been read is read again from its own text**, unless it
  came from such a list.
-/

/-! ### Normal forms -/

/-- What follows the name of a member in an id. -/
inductive IsSignature : List Char → Prop
  | nothing : IsSignature []
  | target {code : List Char} (hcode : Solid code) (hparenthesis : '(' ∉ code) :
      IsSignature ('~' :: code)
  | list {parameters : List (List Char)} {target : Option (List Char)} (hne : parameters ≠ [])
      (hparameters : ∀ parameter ∈ parameters, IsParameter parameter)
      (htarget : ∀ code, target = some code → Solid code) :
      IsSignature (joinParameters parameters ++ conversionSuffix target)

/-- Members whose owner and id are trimmed and stand before and after the dot where their text is
    cut.  Without a parameter list the first tilde is the one before the conversion target. -/
inductive Target.NormalMember : Target → Prop
  | parts {owner name signature : List Char} (hcuts : CutsAtDot owner name) (howner : Solid owner)
      (hname : Solid name) (hsignature : IsSignature signature)
      (htilde : signature.head? = some '(' ∨ '~' ∉ owner ++ '.' :: name) :
      NormalMember (.member (String.ofList owner) (String.ofList (name ++ signature)))

/-- Ids in normal form. -/
inductive DocId.Normal : DocId → Prop
  | type {name : List Char} (h : Solid name) : Normal ⟨.type, .type (String.ofList name)⟩
  | member {letter : IdLetter} {target : Target} (hletter : letter ≠ .type)
      (h : target.NormalMember) : Normal ⟨letter, target⟩

/-! ### Normal forms are read as they are -/

/-- A signature in normal form is read as itself. -/
theorem IsSignature.signatureRead {signature : List Char} (h : IsSignature signature) :
    SignatureRead signature signature := by
  cases h with
  | nothing => exact .nothing
  | target hcode hparenthesis => exact .of_solid hcode hparenthesis
  | list hne hparameters htarget =>
    have hread := SignatureRead.of_list (readParameters_list hne hparameters true) htarget
    rwa [← joinParameters_of_ne_nil hne] at hread

/-- A conversion target has no blanks at its ends, if the code has none. -/
theorem solid_conversionSuffix {code : List Char} (h : Solid code) :
    Solid (conversionSuffix (some code)) := by
  have htilde : Solid ['~'] := .of_forall (by decide) (by decide)
  exact htilde.append h

/-- A signature in normal form is empty or has no blanks at its ends. -/
theorem IsSignature.eq_nil_or_solid {signature : List Char} (h : IsSignature signature) :
    signature = [] ∨ Solid signature := by
  cases h with
  | nothing => exact .inl rfl
  | target hcode _ => exact .inr (solid_conversionSuffix hcode)
  | @list parameters target hne _ htarget =>
    have hlist : Solid (joinParameters parameters) := by
      rw [joinParameters_of_ne_nil hne]
      exact .of_ends (by decide) (by decide) _
    cases target with
    | none => exact .inr (by rwa [conversionSuffix, List.append_nil])
    | some code => exact .inr (hlist.append (solid_conversionSuffix (htarget code rfl)))

/-- A member in normal form is read as itself. -/
theorem Target.NormalMember.memberRead {target : Target} (h : target.NormalMember) :
    MemberRead target.qualifiedId.toList target := by
  obtain ⟨hcuts, howner, hname, hsignature, htilde⟩ := h
  rename_i owner name signature
  have hread := MemberRead.parts hcuts (by rw [howner.trim_eq]; exact howner.ne_nil)
    (by rw [hname.trim_eq]; exact hname.ne_nil) htilde hsignature.signatureRead
  rw [howner.trim_eq, hname.trim_eq] at hread
  simpa [Target.qualifiedId] using hread

/-- A member in normal form has no blanks at its ends. -/
theorem Target.NormalMember.solid {target : Target} (h : target.NormalMember) :
    Solid target.qualifiedId.toList := by
  obtain ⟨-, howner, hname, hsignature, -⟩ := h
  rename_i owner name signature
  have hdot : Solid ['.'] := .of_forall (by decide) (by decide)
  have hmember : Solid (name ++ signature) := by
    rcases hsignature.eq_nil_or_solid with rfl | hsolid
    · rwa [List.append_nil]
    · exact hname.append hsolid
  simpa [Target.qualifiedId] using (howner.append hdot).append hmember

/-- An id is written as its letter, a colon and the name. -/
theorem DocId.text_eq (id : DocId) :
    id.text = String.ofList (id.letter.toChar :: ':' :: id.target.qualifiedId.toList) := by
  rw [← String.toList_inj]
  simp [DocId.text, DocId.qualifiedId]

/-- **An id in normal form is read as itself.** -/
theorem DocId.Normal.parse_text {id : DocId} (h : id.Normal) : DocId.parse id.text = .ok id := by
  have hnone : ∀ c ∈ ([] : List Char), isBlank c = true := List.forall_mem_nil _
  rw [DocId.text_eq]
  cases h with
  | type hname =>
    have hparse := DocId.parse_surrounded .type hname.ne_nil hname.head hname.last hnone hnone
    simpa [Target.qualifiedId] using hparse
  | @member letter target hletter hmember =>
    have hname := hmember.solid
    have hparse := DocId.parse_surrounded letter hname.ne_nil hname.head hname.last hnone hnone
    rw [List.nil_append, List.append_nil, if_neg hletter,
      readMember_eq_ok.mpr hmember.memberRead] at hparse
    exact hparse

/-! ### What an id has been read from -/

/-- A letter is read from that letter alone. -/
theorem IdLetter.eq_of_ofChars? {cs : List Char} {letter : IdLetter}
    (h : IdLetter.ofChars? cs = some letter) : cs = [letter.toChar] := by
  unfold IdLetter.ofChars? at h
  split at h <;> cases h <;> rfl

/-- An id is read from a name, with a letter before it and blanks around it. -/
theorem DocId.exists_of_parse {text : String} {id : DocId} (h : DocId.parse text = .ok id) :
    ∃ before name after, text.toList = before ++ name ++ after ∧ '(' ∉ before ∧
      2 ≤ before.length ∧ Solid name ∧
      (id = ⟨.type, .type (String.ofList name)⟩ ∨
        id.letter ≠ .type ∧ MemberRead name id.target) := by
  unfold DocId.parse at h
  dsimp only at h
  split at h
  · cases h
  rename_i chars name hcut
  split at h
  · cases h
  rename_i letter hletter
  split_ifs at h with hempty
  · cases h
  -- blanks are trimmed twice: around the id, and around the name after the colon
  obtain ⟨before, after, hbefore, -, htext⟩ := Text.exists_blanks_trim text.toList
  obtain ⟨before', after', hbefore', -, hname⟩ := Text.exists_blanks_trim name
  have hcs := Text.eq_append_of_cutAt hcut
  rw [IdLetter.eq_of_ofChars? hletter] at hcs
  refine ⟨before ++ letter.toChar :: ':' :: before', trim name, after' ++ after, ?_, ?_, ?_,
    Text.solid_trim (by simpa using hempty), ?_⟩
  · rw [htext, hcs]
    conv => lhs; rw [hname]
    simp
  · have hblank : ∀ {cs : List Char}, (∀ c ∈ cs, isBlank c = true) → '(' ∉ cs := fun hcs hmem =>
      absurd (hcs _ hmem) (by decide)
    have hchar : '(' ≠ letter.toChar := by cases letter <;> decide
    simp [hblank hbefore, hblank hbefore', hchar]
  · simp only [List.length_append, List.length_cons]
    omega
  · split at h
    · cases h
      exact .inl rfl
    · rename_i htype
      obtain ⟨target, htarget, rfl⟩ := bind_pure_eq_ok.mp h
      exact .inr ⟨htype, readMember_eq_ok.mp htarget⟩

/-! ### Dropped parameter lists -/

/-- A text with an empty parameter list, and the member that it is read as. -/
inductive DropsList : List Char → Target → Prop
  | parts {owner member blanks rest : List Char} {target : Option (List Char)}
      (hcuts : CutsAtDot owner member) (howner : trim owner ≠ []) (hmember : trim member ≠ [])
      (hblanks : ∀ c ∈ blanks, isBlank c = true) (htarget : readTarget rest = .ok target)
      (hne : target ≠ some []) :
      DropsList (owner ++ '.' :: member ++ '(' :: (blanks ++ ')' :: rest))
        (.member (String.ofList (trim owner))
          (String.ofList (trim member ++ conversionSuffix target)))

/-- What is read as a conversion target is trimmed and part of the text. -/
theorem solid_of_readTarget {cs : List Char} {target : Option (List Char)}
    (h : readTarget cs = .ok target) (hne : target ≠ some []) {code : List Char}
    (hcode : target = some code) : Solid code ∧ '~' :: code ⊆ cs := by
  rcases readTarget_eq_ok.mp h with ⟨-, rfl⟩ | ⟨code', htrim, rfl⟩
  · cases hcode
  · cases hcode
    refine ⟨Text.solid_trim fun hnil => hne (by rw [hnil]), fun c hc => Text.trim_subset cs ?_⟩
    rw [htrim]
    exact List.cons_subset_cons _ (Text.trim_subset code') hc

/-- Reading a conversion target does not make it longer. -/
theorem length_conversionSuffix_le {cs : List Char} {target : Option (List Char)}
    (h : readTarget cs = .ok target) : (conversionSuffix target).length ≤ cs.length := by
  rcases readTarget_eq_ok.mp h with ⟨-, rfl⟩ | ⟨code, htrim, rfl⟩
  · simp [conversionSuffix]
  · have hcs := Text.length_trim_le cs
    have hcode := Text.length_trim_le code
    rw [htrim, List.length_cons] at hcs
    rw [conversionSuffix, List.length_cons]
    omega

/-- Trimming brings the name of a member into normal form. -/
theorem Target.NormalMember.of_trim {owner member signature : List Char}
    (hcuts : CutsAtDot owner member) (howner : trim owner ≠ []) (hmember : trim member ≠ [])
    (hsignature : IsSignature signature)
    (htilde : signature.head? = some '(' ∨ '~' ∉ owner ++ '.' :: member) :
    NormalMember
      (.member (String.ofList (trim owner)) (String.ofList (trim member ++ signature))) := by
  refine .parts hcuts.trim (Text.solid_trim howner) (Text.solid_trim hmember) hsignature
    (htilde.imp_right fun htilde => ?_)
  rw [List.mem_append, List.mem_cons, not_or, not_or] at htilde ⊢
  exact ⟨fun hmem => htilde.1 (Text.trim_subset _ hmem), htilde.2.1,
    fun hmem => htilde.2.2 (Text.trim_subset _ hmem)⟩

/-- A text that is read as a member has an empty parameter list, or the member is in normal form. -/
theorem MemberRead.normal_or_dropsList {text : List Char} {target : Target}
    (h : MemberRead text target) : target.NormalMember ∨ DropsList text target := by
  obtain ⟨hcuts, howner, hmember, htilde, hsignature⟩ := h
  rename_i owner member tail signature
  cases hsignature with
  -- what the reader keeps of the tail decides: a parameter list that is empty is dropped
  | nothing => exact .inl (.of_trim hcuts howner hmember .nothing (by simpa using htilde))
  | target hparenthesis hne =>
    exact .inl (.of_trim hcuts howner hmember (.target (Text.solid_trim hne) fun hmem =>
      hparenthesis (Text.trim_subset _ hmem)) (by simpa using htilde))
  | @list body rest parameters target hlist htarget hne =>
    cases listRead_of_readParameters hlist with
    | @blank blanks _ _ hblanks hbody =>
      rw [hbody, joinParameters, List.nil_append]
      exact .inr (.parts hcuts howner hmember hblanks htarget hne)
    | @parameters more _ others hmore_ne hmore hothers =>
      have hparameters : ∀ parameter ∈ ([] ++ more) :: others, IsParameter parameter :=
        List.forall_mem_cons.mpr ⟨⟨hmore_ne, hmore⟩, hothers⟩
      exact .inl (.of_trim hcuts howner hmember (.list (List.cons_ne_nil _ _) hparameters
        fun code hcode => (solid_of_readTarget htarget hne hcode).1) (.inl rfl))

/-- With a parameter list dropped, the id is shorter than its text was. -/
theorem DropsList.length_lt {text : List Char} {target : Target} (h : DropsList text target) :
    target.qualifiedId.toList.length < text.length := by
  obtain ⟨-, -, -, -, htarget, -⟩ := h
  rename_i owner member blanks rest target
  have howner := Text.length_trim_le owner
  have hmember := Text.length_trim_le member
  have hsuffix := length_conversionSuffix_le htarget
  simp only [Target.qualifiedId, String.toList_append, String.toList_ofList, List.length_append,
    List.length_cons, List.length_nil, show (".").toList = ['.'] from rfl]
  omega

/-- Exactly the ids in normal form are read from their own text. -/
theorem parse_text_eq_ok_iff {id : DocId} : DocId.parse id.text = .ok id ↔ id.Normal := by
  refine ⟨fun h => ?_, DocId.Normal.parse_text⟩
  obtain ⟨before, name, after, htext, -, hbefore, hname, rfl | ⟨hletter, hread⟩⟩ :=
    DocId.exists_of_parse h
  · exact .type hname
  · rcases hread.normal_or_dropsList with hnormal | hdrops
    · exact .member hletter hnormal
    · -- the name would be longer than the text that it is part of
      have hlength := congrArg List.length htext
      have hlt := hdrops.length_lt
      rw [DocId.text_eq, String.toList_ofList] at hlength
      simp only [List.length_append, List.length_cons] at hlength
      omega

/-! ### Marked lists -/

/-- The first parenthesis of the text opens an empty parameter list, and there is a tilde before it
    or a parenthesis after it. -/
def MarkedEmptyList (text : List Char) : Prop :=
  ∃ head blanks tail, text = head ++ '(' :: (blanks ++ ')' :: tail) ∧ '(' ∉ head ∧
    (∀ c ∈ blanks, isBlank c = true) ∧ ('~' ∈ head ∨ '(' ∈ tail)

/-- An empty list with marks around it is found in a longer text too. -/
theorem MarkedEmptyList.surrounded {name before : List Char} (h : MarkedEmptyList name)
    (hbefore : '(' ∉ before) (after : List Char) : MarkedEmptyList (before ++ name ++ after) := by
  obtain ⟨head, blanks, tail, rfl, hhead, hblanks, hmarks⟩ := h
  refine ⟨before ++ head, blanks, tail ++ after, by simp, by simp [hbefore, hhead], hblanks, ?_⟩
  exact hmarks.imp (List.mem_append_right before) (List.mem_append_left after)

/-- Only blanks stand between the first parenthesis and the one that closes the list. -/
theorem MarkedEmptyList.closed {head body : List Char} (h : MarkedEmptyList (head ++ '(' :: body))
    (hhead : '(' ∉ head) : (Text.trimStart body).head? = some ')' := by
  obtain ⟨head', blanks, tail, heq, hhead', hblanks, -⟩ := h
  have hcut := congrArg (cutAt '(') heq
  rw [Text.cutAt_append hhead, Text.cutAt_append hhead'] at hcut
  cases hcut
  rw [Text.trimStart, List.dropWhile_append_of_pos hblanks]
  rfl

/-- A parameter list that is not marked is dropped without consequences. -/
theorem DropsList.normalMember {text : List Char} {target : Target} (h : DropsList text target)
    (hmarked : ¬ MarkedEmptyList text) : target.NormalMember := by
  obtain ⟨hcuts, howner, hmember, hblanks, htarget, hne⟩ := h
  rename_i owner member blanks rest target
  -- a tilde before the list or a parenthesis after it would mark the empty list
  have htilde : '~' ∉ owner ++ '.' :: member := fun hmem =>
    hmarked ⟨_, blanks, rest, rfl, hcuts.parenthesis, hblanks, .inl hmem⟩
  have hparenthesis : '(' ∉ rest := fun hmem =>
    hmarked ⟨_, blanks, rest, rfl, hcuts.parenthesis, hblanks, .inr hmem⟩
  have hsignature : IsSignature (conversionSuffix target) := by
    cases target with
    | none => exact .nothing
    | some code =>
      obtain ⟨hsolid, hsubset⟩ := solid_of_readTarget htarget hne rfl
      exact .target hsolid fun hmem => hparenthesis (hsubset (List.mem_cons_of_mem _ hmem))
  exact .of_trim hcuts howner hmember hsignature (.inr htilde)

/-- **An id that has been read is read again from its own text**, unless it is the id of a member
    and came from a text with a marked empty list.  In any case it is exactly if it is in normal
    form. -/
theorem parse_text_of_parse {text : String} {id : DocId} (h : DocId.parse text = .ok id) :
    (id.letter = .type ∨ ¬ MarkedEmptyList text.toList → DocId.parse id.text = .ok id) ∧
      (DocId.parse id.text = .ok id ↔ id.Normal) := by
  refine ⟨fun hlist => parse_text_eq_ok_iff.mpr ?_, parse_text_eq_ok_iff⟩
  obtain ⟨before, name, after, htext, hbefore, -, hname, rfl | ⟨hletter, hread⟩⟩ :=
    DocId.exists_of_parse h
  · exact .type hname
  · rcases hread.normal_or_dropsList with hnormal | hdrops
    · exact .member hletter hnormal
    · refine .member hletter (hdrops.normalMember fun hmarked => hlist.resolve_left hletter ?_)
      rw [htext]
      exact hmarked.surrounded hbefore after

/-- Blanks are taken out of the id of a conversion operator, and then it stays as it is. -/
theorem parse_text_of_parse_conversion :
    DocId.parse " M: Shop.Cart`1 . op_Explicit( Func\x7bA, B\x7d ) ~ Shop.Total "
        = .ok ⟨.method, .member "Shop.Cart`1" "op_Explicit(Func\x7bA,B\x7d)~Shop.Total"⟩ ∧
      DocId.parse "M:Shop.Cart`1.op_Explicit(Func\x7bA,B\x7d)~Shop.Total"
        = .ok ⟨.method, .member "Shop.Cart`1" "op_Explicit(Func\x7bA,B\x7d)~Shop.Total"⟩ := by
  have h : DocId.parse " M: Shop.Cart`1 . op_Explicit( Func\x7bA, B\x7d ) ~ Shop.Total "
      = .ok ⟨.method, .member "Shop.Cart`1" "op_Explicit(Func\x7bA,B\x7d)~Shop.Total"⟩ := by
    decide +kernel
  refine ⟨h, (parse_text_of_parse h).1 (.inr fun hmarked => ?_)⟩
  have hlist : MarkedEmptyList (" M: Shop.Cart`1 . op_Explicit".toList ++
      '(' :: " Func\x7bA, B\x7d ) ~ Shop.Total ".toList) := by simpa using hmarked
  exact absurd (hlist.closed (by decide)) (by decide)

/-- Two ids that are not read from their own text.  Without the empty parameter list, the tilde
    before it and the parenthesis after it are read differently. -/
theorem parse_text_emptyList :
    DocId.parse "M:Shop.Cart~Old.Total()" = .ok ⟨.method, .member "Shop.Cart~Old" "Total"⟩ ∧
      DocId.parse (DocId.text ⟨.method, .member "Shop.Cart~Old" "Total"⟩)
        = .ok ⟨.method, .member "Shop" "Cart~Old.Total"⟩ ∧
      DocId.parse "M:Shop.Cart.Total()~Old(" = .ok ⟨.method, .member "Shop.Cart" "Total~Old("⟩ ∧
      DocId.parse (DocId.text ⟨.method, .member "Shop.Cart" "Total~Old("⟩)
        = .error (.malformedSignature "M:Shop.Cart.Total~Old(" .unterminated) := by
  decide +kernel

end InheritDoc
