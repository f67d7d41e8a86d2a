import InheritDoc.Proofs.Id.Spelling
import InheritDoc.Proofs.Outcome
import InheritDoc.Proofs.Text.Solid
import Mathlib.Tactic.SplitIfs

namespace InheritDoc

open Text (isBlank trim cutAt Solid)

/-!
# The parts of a member id

What the reader of member ids finds in a text, part by part and without the reader.

* `openBraces`, `Dotless`, `cutLastDot_eq_some` : a name is cut at its last dot outside braces;
* `Balanced`, `IsParameter`        : the parameters that a parameter list may have;
* `readParameters_list`, `listRead_of_readParameters` : such parameters are read, and no others;
* `SignatureRead`                  : what follows the name of a member, and what its id has of it;
* `MemberRead`, `readMember_eq_ok` : **a text is read as a member exactly if it has these parts.**
-/

/-! ### Dots outside braces -/

/-- The braces open after a text, if `depth` are open before it. -/
def openBraces (depth : Nat) : List Char → Nat
  | [] => depth
  | c :: cs => openBraces (if c = '{' then depth + 1 else if c = '}' then depth - 1 else depth) cs

/-- There is no dot outside braces in a text, if `depth` are open before it. -/
def Dotless (depth : Nat) (cs : List Char) : Prop :=
  ∀ before after, cs = before ++ '.' :: after → openBraces depth before ≠ 0

/-- Braces are counted from left to right. -/
theorem openBraces_append (depth : Nat) (cs ds : List Char) :
    openBraces depth (cs ++ ds) = openBraces (openBraces depth cs) ds := by
  induction cs generalizing depth with
  | nil => rfl
  | cons c cs ih => exact ih _

/-- Braces are all that counts. -/
theorem openBraces_of_notMem {cs : List Char} (hopen : '{' ∉ cs) (hclose : '}' ∉ cs)
    (depth : Nat) : openBraces depth cs = depth := by
  induction cs with
  | nil => rfl
  | cons c cs ih =>
    rw [List.mem_cons, not_or] at hopen hclose
    rw [openBraces, if_neg (Ne.symm hopen.1), if_neg (Ne.symm hclose.1), ih hopen.2 hclose.2]

/-- Blanks neither open nor close a brace. -/
theorem openBraces_blanks {cs : List Char} (h : ∀ c ∈ cs, isBlank c = true) (depth : Nat) :
    openBraces depth cs = depth :=
  openBraces_of_notMem (fun hmem => absurd (h _ hmem) (by decide))
    (fun hmem => absurd (h _ hmem) (by decide)) depth

/-- Trimming leaves the count of braces as it is. -/
theorem openBraces_trim (depth : Nat) (cs : List Char) :
    openBraces depth (trim cs) = openBraces depth cs := by
  obtain ⟨before, after, hbefore, hafter, hcs⟩ := Text.exists_blanks_trim cs
  conv => rhs; rw [hcs]
  rw [openBraces_append, openBraces_append, openBraces_blanks hbefore, openBraces_blanks hafter]

/-- Trimming adds no dot. -/
theorem Dotless.trim {cs : List Char} {depth : Nat} (h : Dotless depth cs) :
    Dotless depth (trim cs) := by
  intro before after heq
  obtain ⟨blanks, blanks', hblanks, -, hcs⟩ := Text.exists_blanks_trim cs
  have hdot := h (blanks ++ before) (after ++ blanks') (by rw [hcs, heq]; simp)
  rwa [openBraces_append, openBraces_blanks hblanks] at hdot

/-- A text without dots has none outside braces. -/
theorem dotless_of_notMem {cs : List Char} (h : '.' ∉ cs) (depth : Nat) : Dotless depth cs := by
  rintro before after rfl
  simp at h

/-- No dot outside braces, read from left to right. -/
theorem dotless_cons {depth : Nat} {c : Char} {cs : List Char} :
    Dotless depth (c :: cs) ↔ ¬ (c = '.' ∧ depth = 0) ∧
      Dotless (if c = '{' then depth + 1 else if c = '}' then depth - 1 else depth) cs := by
  constructor
  · refine fun h => ⟨?_, fun before after heq => ?_⟩
    · rintro ⟨rfl, rfl⟩
      exact h [] cs rfl rfl
    · exact h (c :: before) after (by rw [heq, List.cons_append])
  · rintro ⟨hc, hcs⟩ before after heq
    cases before with
    | nil =>
      obtain ⟨rfl, rfl⟩ := List.cons.inj heq
      exact fun hdepth => hc ⟨rfl, hdepth⟩
    | cons d before =>
      obtain ⟨rfl, rfl⟩ := List.cons.inj heq
      exact hcs before after rfl

/-- A text is not cut if it has no dot outside braces. -/
theorem cutLastDot_eq_none {depth : Nat} {cs : List Char} :
    cutLastDot depth cs = none ↔ Dotless depth cs := by
  induction cs generalizing depth with
  | nil => simp [cutLastDot, Dotless]
  | cons c cs ih =>
    rw [dotless_cons, ← ih, cutLastDot]
    cases cutLastDot (if c = '{' then depth + 1 else if c = '}' then depth - 1 else depth) cs with
    | some cut => simp
    | none => simp

/-- A name is cut at the dot outside braces that no other such dot follows. -/
theorem cutLastDot_eq_some {depth : Nat} {cs owner member : List Char} :
    cutLastDot depth cs = some (owner, member) ↔
      cs = owner ++ '.' :: member ∧ openBraces depth owner = 0 ∧ Dotless 0 member := by
  constructor
  · intro h
    induction cs generalizing depth owner with
    | nil => simp [cutLastDot] at h
    | cons c cs ih =>
      rw [cutLastDot] at h
      split at h
      · rename_i hcut
        cases h
        obtain ⟨rfl, hbraces, hmember⟩ := ih hcut
        exact ⟨rfl, hbraces, hmember⟩
      · rename_i hcut
        split_ifs at h with hc
        cases h
        obtain ⟨rfl, rfl⟩ := hc
        -- there is no dot further on, so this one is the last
        exact ⟨rfl, rfl, cutLastDot_eq_none.mp hcut⟩
  · rintro ⟨rfl, hbraces, hmember⟩
    induction owner generalizing depth with
    | nil =>
      -- the dot itself: no brace is open here, and the member has no other dot
      rw [openBraces] at hbraces
      subst hbraces
      have hnone : cutLastDot 0 member = none := cutLastDot_eq_none.mpr hmember
      simp [cutLastDot, hnone]
    | cons c owner ih => rw [List.cons_append, cutLastDot, ih hbraces]

/-! ### Parameter lists -/

/-- `Balanced n cs` : the text `cs` closes the brackets that it opens and `n` more.  Commas stand
    inside brackets only, and there are no blanks. -/
inductive Balanced : Nat → List Char → Prop
  | nil : Balanced 0 []
  | opening {n : Nat} {c : Char} {cs : List Char} (hc : c ∈ ['{', '[', '('])
      (h : Balanced (n + 1) cs) : Balanced n (c :: cs)
  | closing {n : Nat} {c : Char} {cs : List Char} (hc : c ∈ ['}', ']', ')']) (h : Balanced n cs) :
      Balanced (n + 1) (c :: cs)
  | comma {n : Nat} {cs : List Char} (h : Balanced (n + 1) cs) : Balanced (n + 1) (',' :: cs)
  | other {n : Nat} {c : Char} {cs : List Char} (hblank : isBlank c = false)
      (hc : c ∉ ['{', '[', '(', '}', ']', ')', ',']) (h : Balanced n cs) : Balanced n (c :: cs)

/-- What a parameter list has between its commas. -/
structure IsParameter (cs : List Char) : Prop where
  ne_nil : cs ≠ []
  balanced : Balanced 0 cs

section Characters

variable (first : Bool) (depth : Nat) (current : List Char) {c : Char} (cs : List Char)

/-- Characters that structure nothing are read as part of the parameter. -/
theorem readParameters_other (hblank : isBlank c = false)
    (hc : c ∉ ['{', '[', '(', '}', ']', ')', ',']) :
    readParameters first depth current (c :: cs)
      = readParameters first depth (current ++ [c]) cs := by
  simp only [List.mem_cons, List.not_mem_nil, or_false, not_or] at hc
  simp [readParameters, hc, hblank]

/-- An opening bracket is part of the parameter and goes one level down. -/
theorem readParameters_opening (hc : c ∈ ['{', '[', '(']) :
    readParameters first depth current (c :: cs)
      = readParameters first (depth + 1) (current ++ [c]) cs := by
  have hopening : c = '{' ∨ c = '[' ∨ c = '(' := by simpa using hc
  rw [readParameters, if_pos hopening]

/-- A closing bracket inside another is part of the parameter and goes one level up. -/
theorem readParameters_closing (hc : c ∈ ['}', ']', ')']) :
    readParameters first (depth + 1) current (c :: cs)
      = readParameters first depth (current ++ [c]) cs := by
  have hclosing : c = '}' ∨ c = ']' ∨ c = ')' := by simpa using hc
  rcases hclosing with rfl | rfl | rfl <;> simp [readParameters]

/-- A comma inside brackets belongs to the parameter. -/
theorem readParameters_inner_comma :
    readParameters first (depth + 1) current (',' :: cs)
      = readParameters first (depth + 1) (current ++ [',']) cs := by
  have hblank : isBlank ',' = false := by decide
  simp [readParameters, hblank]

/-- A comma outside brackets ends a parameter. -/
theorem readParameters_comma (hcurrent : current ≠ []) :
    readParameters first 0 current (',' :: cs) = (do
      let (parameters, rest) ← readParameters false 0 [] cs
      return (current :: parameters, rest)) := by
  simp [readParameters, hcurrent]

/-- A closing parenthesis outside brackets ends the list. -/
theorem readParameters_end (hcurrent : current ≠ []) :
    readParameters first 0 current (')' :: cs) = .ok ([current], cs) := by
  simp [readParameters, hcurrent]

/-- A blank is skipped. -/
theorem readParameters_blank (hc : isBlank c = true) :
    readParameters first depth current (c :: cs) = readParameters first depth current cs := by
  have hne := ne_of_holds hc
  simp [readParameters, hc, hne '{' (by decide), hne '[' (by decide), hne '(' (by decide),
    hne '}' (by decide), hne ']' (by decide), hne ')' (by decide), hne ',' (by decide)]

end Characters

/-- A balanced text is part of one parameter. -/
theorem readParameters_balanced {n : Nat} {cs : List Char} (h : Balanced n cs) (first : Bool)
    (current rest : List Char) :
    readParameters first n current (cs ++ rest) = readParameters first 0 (current ++ cs) rest := by
  induction h generalizing current with
  | nil => simp
  | opening hc _ ih =>
    rw [List.cons_append, readParameters_opening _ _ _ _ hc, ih, List.append_assoc,
      List.singleton_append]
  | closing hc _ ih =>
    rw [List.cons_append, readParameters_closing _ _ _ _ hc, ih, List.append_assoc,
      List.singleton_append]
  | comma _ ih =>
    rw [List.cons_append, readParameters_inner_comma, ih, List.append_assoc, List.singleton_append]
  | other hblank hc _ ih =>
    rw [List.cons_append, readParameters_other _ _ _ _ hblank hc, ih, List.append_assoc,
      List.singleton_append]

/-- Parameters with commas between them are read one by one. -/
theorem readParameters_list {parameters : List (List Char)} (hne : parameters ≠ [])
    (h : ∀ parameter ∈ parameters, IsParameter parameter) (first : Bool) (rest : List Char) :
    readParameters first 0 [] ([','].intercalate parameters ++ ')' :: rest)
      = .ok (parameters, rest) := by
  induction parameters generalizing first with
  | nil => exact absurd rfl hne
  | cons parameter parameters ih =>
    have hparameter := h parameter List.mem_cons_self
    cases parameters with
    | nil =>
      rw [List.intercalate_singleton, readParameters_balanced hparameter.balanced, List.nil_append,
        readParameters_end _ _ _ hparameter.ne_nil]
    | cons next parameters =>
      -- the comma ends the first parameter, for outside brackets there is no other in front of it
      have hrest := ih (by simp) (fun p hp => h p (List.mem_cons_of_mem parameter hp)) false
      rw [List.intercalate_cons_cons, List.append_assoc, List.append_assoc,
        readParameters_balanced hparameter.balanced, List.nil_append, List.singleton_append,
        readParameters_comma _ _ _ hparameter.ne_nil, hrest]
      rfl

/-- What has been read from a place in a parameter list on, where `depth` brackets are open and
    `current` is what there is of the current parameter: nothing but blanks, or the rest of the
    current parameter and other parameters. -/
inductive ListRead (depth : Nat) (current cs : List Char) : List (List Char) → List Char → Prop
  | blank {blanks rest : List Char} (hcurrent : current = [])
      (hblanks : ∀ c ∈ blanks, isBlank c = true) (hcs : cs = blanks ++ ')' :: rest) :
      ListRead depth current cs [] rest
  | parameters {more rest : List Char} {others : List (List Char)} (hne : current ++ more ≠ [])
      (hmore : Balanced depth more) (hothers : ∀ parameter ∈ others, IsParameter parameter) :
      ListRead depth current cs ((current ++ more) :: others) rest

/-- A character that belongs to the current parameter. -/
theorem ListRead.push {depth inner : Nat} {c : Char} {current cs rest : List Char}
    {parameters : List (List Char)}
    (hc : ∀ {more}, Balanced inner more → Balanced depth (c :: more))
    (h : ListRead inner (current ++ [c]) cs parameters rest) :
    ListRead depth current (c :: cs) parameters rest := by
  cases h with
  | blank hcurrent => simp at hcurrent
  | @parameters more _ others hne hmore hothers =>
    rw [List.append_assoc, List.singleton_append] at hne ⊢
    exact .parameters hne (hc hmore) hothers

/-- Every parameter that is read is one, and where none is read there are only blanks. -/
theorem listRead_of_readParameters {first : Bool} {depth : Nat} {current cs rest : List Char}
    {parameters : List (List Char)}
    (h : readParameters first depth current cs = .ok (parameters, rest)) :
    ListRead depth current cs parameters rest := by
  -- along the recursion of the reader; the branches that end in a fault read nothing
  fun_induction readParameters first depth current cs generalizing parameters with
  | case1 => simp at h
  | case2 first depth current c cs hc ih =>
    exact (ih h).push (.opening (by simpa using hc))
  | case3 => simp at h
  | case4 first depth current c cs _ hc hdepth ih =>
    obtain ⟨n, rfl⟩ := Nat.exists_eq_succ_of_ne_zero hdepth
    exact (ih h).push (.closing (by simp; tauto))
  | case5 first depth current cs hdepth _ _ ih =>
    obtain ⟨n, rfl⟩ := Nat.exists_eq_succ_of_ne_zero hdepth.ne'
    exact (ih h).push (.closing (by simp))
  | case6 first depth current cs hdepth hcurrent =>
    cases h
    obtain rfl : depth = 0 := by omega
    have hread : ListRead 0 current (')' :: rest) [current ++ []] rest :=
      .parameters (by simpa using hcurrent) .nil (List.forall_mem_nil _)
    rwa [List.append_nil] at hread
  | case7 depth current cs _ hcurrent =>
    cases h
    exact .blank (by simpa using hcurrent) (List.forall_mem_nil _) rfl
  | case8 => simp at h
  | case9 => simp at h
  | case10 first depth current c cs _ _ _ hc hcurrent ih =>
    obtain ⟨rfl, rfl⟩ := hc
    obtain ⟨⟨others, rest'⟩, hread, heq⟩ := bind_eq_ok.mp h
    cases heq
    have hall : ∀ parameter ∈ others, IsParameter parameter := by
      cases ih hread with
      | blank => exact List.forall_mem_nil _
      | parameters hne hmore hothers => exact List.forall_mem_cons.mpr ⟨⟨hne, hmore⟩, hothers⟩
    have hlist : ListRead 0 current (',' :: cs) ((current ++ []) :: others) rest :=
      .parameters (by simpa using hcurrent) .nil hall
    rwa [List.append_nil] at hlist
  | case11 first depth current c cs _ _ _ _ hblank ih =>
    cases ih h with
    | @blank blanks _ hcurrent hblanks hcs =>
      exact .blank hcurrent (List.forall_mem_cons.mpr ⟨hblank, hblanks⟩)
        (by rw [hcs, List.cons_append])
    | parameters hne hmore hothers => exact .parameters hne hmore hothers
  | case12 first depth current c cs hopening hclosing hend hcomma hblank ih =>
    -- a comma that comes this far is inside brackets
    by_cases hc : c = ','
    · subst hc
      obtain ⟨n, rfl⟩ := Nat.exists_eq_succ_of_ne_zero fun hdepth => hcomma ⟨rfl, hdepth⟩
      exact (ih h).push .comma
    · refine (ih h).push (.other (by simpa using hblank) ?_)
      simp only [List.mem_cons, List.not_mem_nil]
      tauto

/-! ### Signatures -/

/-- What follows a parameter list is blank, or a conversion target after a tilde. -/
theorem readTarget_eq_ok {cs : List Char} {target : Option (List Char)} :
    readTarget cs = .ok target ↔ (trim cs = [] ∧ target = none) ∨
      ∃ code, trim cs = '~' :: code ∧ target = some (trim code) := by
  unfold readTarget
  split
  · rename_i h
    simp [h, eq_comm]
  · rename_i code h
    simp [h, eq_comm]
  · rename_i hnil htilde
    simp only [reduceCtorEq, false_iff, not_or, not_and, not_exists]
    exact ⟨fun h => absurd h hnil, fun code h => absurd h (htilde code)⟩

/-- A conversion target is read as it was written. -/
theorem readTarget_conversionSuffix {target : Option (List Char)}
    (h : ∀ code, target = some code → Solid code) :
    readTarget (conversionSuffix target) = .ok target := by
  cases target with
  | none => rfl
  | some code =>
    have hcode := h code rfl
    have htilde : Solid ['~'] := .of_forall (by decide) (by decide)
    exact readTarget_eq_ok.mpr (.inr ⟨code, (htilde.append hcode).trim_eq, by rw [hcode.trim_eq]⟩)

/-- What follows the name of a member in a text, and what its id has in place of it. -/
inductive SignatureRead : List Char → List Char → Prop
  | nothing : SignatureRead [] []
  | target {code : List Char} (hparenthesis : '(' ∉ code) (hne : trim code ≠ []) :
      SignatureRead ('~' :: code) ('~' :: trim code)
  | list {body rest : List Char} {parameters : List (List Char)} {target : Option (List Char)}
      (hlist : readParameters true 0 [] body = .ok (parameters, rest))
      (htarget : readTarget rest = .ok target) (hne : target ≠ some []) :
      SignatureRead ('(' :: body) (joinParameters parameters ++ conversionSuffix target)

/-- A conversion target that is trimmed stays as it is. -/
theorem SignatureRead.of_solid {code : List Char} (hcode : Solid code) (hparenthesis : '(' ∉ code) :
    SignatureRead ('~' :: code) ('~' :: code) := by
  have hread : SignatureRead ('~' :: code) ('~' :: trim code) :=
    .target hparenthesis (by rw [hcode.trim_eq]; exact hcode.ne_nil)
  rwa [hcode.trim_eq] at hread

/-- A parameter list that is read as some parameters, with a trimmed conversion target after it. -/
theorem SignatureRead.of_list {inner : List Char} {parameters : List (List Char)}
    {target : Option (List Char)}
    (hlist : ∀ rest, readParameters true 0 [] (inner ++ ')' :: rest) = .ok (parameters, rest))
    (htarget : ∀ code, target = some code → Solid code) :
    SignatureRead ('(' :: (inner ++ [')']) ++ conversionSuffix target)
      (joinParameters parameters ++ conversionSuffix target) := by
  have hassoc : '(' :: (inner ++ [')']) ++ conversionSuffix target
      = '(' :: (inner ++ ')' :: conversionSuffix target) := by simp
  rw [hassoc]
  exact .list (hlist _) (readTarget_conversionSuffix htarget) fun hcode =>
    (htarget _ hcode).ne_nil rfl

/-- A conversion target without parameter list is read if it is not blank. -/
theorem readSignature_bare {code signature : List Char} :
    readSignature [] (some code) = .ok signature ↔
      trim code ≠ [] ∧ signature = '~' :: trim code := by
  rw [readSignature, Option.map_some, pure_bind]
  cases trim code with
  | nil => simp [throw, throwThe, MonadExceptOf.throw]
  | cons c code => simp [joinParameters, pure, Except.pure, eq_comm]

/-- A parameter list is read up to its parenthesis, and a conversion target after it. -/
theorem readSignature_list {c : Char} {body signature : List Char} :
    readSignature (c :: body) none = .ok signature ↔ ∃ parameters rest target,
      readParameters true 0 [] body = .ok (parameters, rest) ∧ readTarget rest = .ok target ∧
        target ≠ some [] ∧ signature = joinParameters parameters ++ conversionSuffix target := by
  rw [readSignature]
  constructor
  · intro h
    obtain ⟨⟨parameters, rest⟩, hlist, h⟩ := bind_eq_ok.mp h
    obtain ⟨target, htarget, h⟩ := bind_eq_ok.mp h
    refine ⟨parameters, rest, target, hlist, htarget, ?_⟩
    cases target with
    | none =>
      cases h
      simp [conversionSuffix]
    | some code =>
      cases code with
      -- a tilde with nothing after it is refused
      | nil => cases h
      | cons c code =>
        cases h
        simp [conversionSuffix]
  · rintro ⟨parameters, rest, target, hlist, htarget, hne, rfl⟩
    refine bind_eq_ok.mpr ⟨(parameters, rest), hlist, bind_eq_ok.mpr ⟨target, htarget, ?_⟩⟩
    cases target with
    | none => simp [conversionSuffix, pure, Except.pure, bind, Except.bind]
    | some code =>
      cases code with
      | nil => exact absurd rfl hne
      | cons c code => rfl

/-! ### Members -/

/-- The dot between two texts is where a name is cut that consists of them. -/
structure CutsAtDot (owner member : List Char) : Prop where
  owner_parenthesis : '(' ∉ owner
  member_parenthesis : '(' ∉ member
  braces : openBraces 0 owner = 0
  dotless : Dotless 0 member

/-- A dot outside braces with no such dot after it is where the name is cut. -/
theorem CutsAtDot.of_append {owner member : List Char} (hparenthesis : '(' ∉ owner ++ '.' :: member)
    (hbraces : openBraces 0 owner = 0) (hdotless : Dotless 0 member) : CutsAtDot owner member := by
  rw [List.mem_append, List.mem_cons, not_or, not_or] at hparenthesis
  exact ⟨hparenthesis.1, hparenthesis.2.2, hbraces, hdotless⟩

/-- Neither side of the dot has a parenthesis. -/
theorem CutsAtDot.parenthesis {owner member : List Char} (h : CutsAtDot owner member) :
    '(' ∉ owner ++ '.' :: member := by
  simp [h.owner_parenthesis, h.member_parenthesis]

/-- A name is cut at the same dot when both sides are trimmed. -/
theorem CutsAtDot.trim {owner member : List Char} (h : CutsAtDot owner member) :
    CutsAtDot (trim owner) (trim member) where
  owner_parenthesis := fun hmem => h.owner_parenthesis (Text.trim_subset owner hmem)
  member_parenthesis := fun hmem => h.member_parenthesis (Text.trim_subset member hmem)
  braces := by rw [openBraces_trim, h.braces]
  dotless := h.dotless.trim

/-- How a text is cut into a name, the signature that follows it and a conversion target: at the
    first parenthesis, and only if there is none at the first tilde. -/
inductive CutsOff : List Char → List Char → List Char → Option (List Char) → Prop
  | list {name body : List Char} (hparenthesis : '(' ∉ name) :
      CutsOff (name ++ '(' :: body) name ('(' :: body) none
  | plain {name : List Char} (hparenthesis : '(' ∉ name) (htilde : '~' ∉ name) :
      CutsOff name name [] none
  | target {name code : List Char} (hparenthesis : '(' ∉ name ++ '~' :: code)
      (htilde : '~' ∉ name) : CutsOff (name ++ '~' :: code) name [] (some code)

/-- The steps of a reading that succeeds: the signature is cut off, the name is cut at its last dot,
    and neither side of the dot is blank. -/
theorem exists_cutsOff_of_readMember {text : List Char} {raw : String} {target : Target}
    (h : readMember text raw = .ok target) :
    ∃ name tail bare owner member signature, CutsOff text name tail bare ∧
      cutLastDot 0 name = some (owner, member) ∧ trim owner ≠ [] ∧ trim member ≠ [] ∧
      readSignature tail bare = .ok signature ∧
      target = .member (String.ofList (trim owner)) (String.ofList (trim member ++ signature)) := by
  -- one split for each decision of the reader
  unfold readMember at h
  split at h
  rename_i head tail hspan
  split at h
  rename_i name bare hbare
  split at h
  · cases h
  rename_i owner member hdot
  dsimp only at h
  split_ifs at h with hempty
  · cases h
  split at h
  · cases h
  rename_i signature hsignature
  cases h
  simp only [List.isEmpty_iff, not_or] at hempty
  obtain ⟨rfl, hparenthesis, htail⟩ := Text.span_ne_eq hspan
  refine ⟨name, tail, bare, owner, member, signature, ?_, hdot, hempty.1, hempty.2, hsignature, rfl⟩
  split at hbare
  · rename_i before after hcut
    cases hbare
    obtain rfl := Text.eq_append_of_cutAt hcut
    rw [List.append_nil]
    exact .target hparenthesis (Text.notMem_of_cutAt hcut)
  · rename_i tail _ _ hnone
    cases hbare
    cases tail with
    | nil =>
      have hcut : cutAt '~' head = none :=
        Option.eq_none_iff_forall_ne_some.mpr fun cut => hnone cut.1 cut.2 rfl
      rw [List.append_nil]
      exact .plain hparenthesis (Text.cutAt_eq_none.mp hcut)
    | cons c body =>
      obtain rfl : c = '(' := htail c rfl
      exact .list hparenthesis

/-- If each step of the reading succeeds, so does the reading. -/
theorem readMember_of_cutsOff {text name tail owner member signature : List Char}
    {bare : Option (List Char)} (hcuts : CutsOff text name tail bare)
    (hdot : cutLastDot 0 name = some (owner, member)) (howner : trim owner ≠ [])
    (hmember : trim member ≠ []) (hsignature : readSignature tail bare = .ok signature)
    (raw : String) :
    readMember text raw
      = .ok (.member (String.ofList (trim owner)) (String.ofList (trim member ++ signature))) := by
  cases hcuts with
  | @list _ body hparenthesis =>
    have hspan : (name ++ '(' :: body).span (· != '(') = (name, '(' :: body) :=
      Text.span_append (Text.bne_of_notMem hparenthesis) (by simp)
    simp only [readMember, hspan, hdot, List.isEmpty_iff, howner, hmember, hsignature]
    rfl
  | plain hparenthesis htilde =>
    have hspan := Text.span_of_forall (Text.bne_of_notMem hparenthesis)
    have hbare := Text.cutAt_of_notMem htilde
    simp only [readMember, hspan, hbare, hdot, List.isEmpty_iff, howner, hmember, hsignature]
    rfl
  | @target _ code hparenthesis htilde =>
    have hspan := Text.span_of_forall (Text.bne_of_notMem hparenthesis)
    have hbare := Text.cutAt_append htilde code
    simp only [readMember, hspan, hbare, hdot, List.isEmpty_iff, howner, hmember, hsignature]
    rfl

/-- A text and the member that it is read as.  In a name there is a tilde only if a parameter list
    follows; otherwise the signature starts with it. -/
inductive MemberRead : List Char → Target → Prop
  | parts {owner member tail signature : List Char} (hcuts : CutsAtDot owner member)
      (howner : trim owner ≠ []) (hmember : trim member ≠ [])
      (htilde : tail.head? = some '(' ∨ '~' ∉ owner ++ '.' :: member)
      (hsignature : SignatureRead tail signature) :
      MemberRead (owner ++ '.' :: member ++ tail)
        (.member (String.ofList (trim owner)) (String.ofList (trim member ++ signature)))

/-- **A text is read as a member exactly if it has the parts of a member id.** -/
theorem readMember_eq_ok {text : List Char} {raw : String} {target : Target} :
    readMember text raw = .ok target ↔ MemberRead text target := by
  constructor
  · intro h
    obtain ⟨name, tail, bare, owner, member, signature, hcuts, hdot, howner, hmember, hsignature,
      rfl⟩ := exists_cutsOff_of_readMember h
    -- the reader looks for a parenthesis first, and for a tilde only where there is none
    obtain ⟨rfl, hbraces, hdotless⟩ := cutLastDot_eq_some.mp hdot
    cases hcuts with
    | list hparenthesis =>
      obtain ⟨parameters, rest, target, hlist, htarget, hne, rfl⟩ :=
        readSignature_list.mp hsignature
      exact .parts (.of_append hparenthesis hbraces hdotless) howner hmember (.inl rfl)
        (.list hlist htarget hne)
    | plain hparenthesis htilde =>
      cases hsignature
      rw [← List.append_nil (owner ++ '.' :: member)]
      exact .parts (.of_append hparenthesis hbraces hdotless) howner hmember (.inr htilde) .nothing
    | target hparenthesis htilde =>
      obtain ⟨hne, rfl⟩ := readSignature_bare.mp hsignature
      rw [List.mem_append, List.mem_cons, not_or, not_or] at hparenthesis
      exact .parts (.of_append hparenthesis.1 hbraces hdotless) howner hmember (.inr htilde)
        (.target hparenthesis.2.2 hne)
  · rintro ⟨hcuts, howner, hmember, htilde, hsignature⟩
    rename_i owner member tail signature
    have hdot : cutLastDot 0 (owner ++ '.' :: member) = some (owner, member) :=
      cutLastDot_eq_some.mpr ⟨rfl, hcuts.braces, hcuts.dotless⟩
    have hparenthesis := hcuts.parenthesis
    cases hsignature with
    | nothing =>
      rw [List.append_nil]
      exact readMember_of_cutsOff (.plain hparenthesis (by simpa using htilde)) hdot howner hmember
        rfl _
    | @target code hcode hne =>
      refine readMember_of_cutsOff (.target ?_ (by simpa using htilde)) hdot howner hmember
        (readSignature_bare.mpr ⟨hne, rfl⟩) _
      rw [List.mem_append, List.mem_cons, not_or, not_or]
      exact ⟨hparenthesis, by decide, hcode⟩
    | @list body rest parameters target hlist htarget hne =>
      exact readMember_of_cutsOff (.list hparenthesis) hdot howner hmember
        (readSignature_list.mpr ⟨parameters, rest, target, hlist, htarget, hne, rfl⟩) _

end InheritDoc
