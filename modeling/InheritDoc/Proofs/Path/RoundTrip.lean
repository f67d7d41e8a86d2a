import InheritDoc.Proofs.Outcome
import InheritDoc.Proofs.Path.Writing

namespace InheritDoc

open Text (trim cutAt cutAt_append cutAt_of_notMem numeral? numeral?_toDigits isAlphanumeric Solid)

/-!
# Reading back written paths

* `Path.readTest?_write`, `Path.readPredicate?_write`, `Path.readStep_write` : tests, predicates and
  steps are read back;
* `Path.readSteps_pieces` : so are the pieces of several steps;
* `Path.parse_eq_ok`  : a path is read if its pieces are;
* `parse_write_path`  : **hence every path that can be written is read back**, whatever its opening.
-/

namespace Path

/-! ### Names, tests and predicates -/

/-- Names are read as names. -/
theorem IsName.isName_toList {name : String} (h : IsName name) : isName name.toList = true := by
  have hall : ∀ c ∈ name.toList,
      (isAlphanumeric c || c = '_' || c = '-' || c = '.' || c = ':') = true := by
    intro c hc
    rcases h.chars c hc with hc | hc
    · simp [hc]
    · simp only [List.mem_cons, List.not_mem_nil, or_false] at hc
      rcases hc with rfl | rfl | rfl | rfl <;> simp
  rw [isName, Bool.and_eq_true, List.all_eq_true]
  exact ⟨by simpa using h.nonempty, hall⟩

/-- Names have none of the characters that structure a path. -/
theorem IsName.notMem {name : String} (h : IsName name) {c : Char} (hc : c ∈ structural) :
    c ∉ name.toList :=
  fun hmem => (h.chars c hmem).notMem_structural hc

/-- A written test is read back. -/
theorem readTest?_write {test : NodeTest} (h : test.Writable) : readTest? test.write = some test := by
  cases test with
  | named name =>
    -- a name is none of the other tests, which have a star or a parenthesis
    have hstar : name.toList ≠ ['*'] := fun heq =>
      h.1.notMem (c := '*') (by decide) (by simp [heq])
    have hparenthesis : '(' ∉ name.toList := h.1.notMem (by decide)
    have hnode : name.toList ≠ ['n', 'o', 'd', 'e', '(', ')'] := fun heq => by simp [heq] at hparenthesis
    have htext : name.toList ≠ ['t', 'e', 'x', 't', '(', ')'] := fun heq => by simp [heq] at hparenthesis
    rw [NodeTest.write, readTest?, if_neg hstar, if_neg hnode, if_neg htext,
      if_pos h.1.isName_toList, String.ofList_toList]
  | anyElement => rfl
  | anyNode => rfl
  | anyText => rfl

theorem withoutLast?_concat (c : Char) (cs : List Char) : withoutLast? c (cs ++ [c]) = some cs := by
  simp [withoutLast?]

/-- A quoted value is unquoted to itself. -/
theorem unquote?_quoted (value : List Char) : unquote? (quoted value) = some value := by
  unfold quoted quoteFor
  split
  · exact withoutLast?_concat '"' value
  · exact withoutLast?_concat '\'' value

/-- What starts with the sign of an attribute is no number. -/
theorem numeral?_at (bound : Nat) (cs : List Char) : numeral? 10 bound ('@' :: cs) = none := by
  rfl

/-- A written predicate is read back. -/
theorem readPredicate?_write {predicate : Predicate} (h : predicate.Writable) :
    readPredicate? predicate.write = some predicate := by
  rw [readPredicate?, h.solid.trim_eq]
  cases predicate with
  | position n =>
    have hn : n ≠ 0 := by have := h.1; omega
    simp only [Predicate.write, numeral?_toDigits (show n < positionBound from h.2), if_neg hn]
  | hasAttribute name =>
    have hname : trim name.toList = name.toList := (IsName.solid h).trim_eq
    have hequals : '=' ∉ name.toList := IsName.notMem h (by decide)
    simp [Predicate.write, numeral?_at, cutAt_of_notMem hequals, hname, IsName.isName_toList h]
  | attributeEquals name value =>
    have hname : trim name.toList = name.toList := h.1.solid.trim_eq
    have hvalue : trim (quoted value.toList) = quoted value.toList := (solid_quoted _).trim_eq
    have hequals : '=' ∉ name.toList := h.1.notMem (by decide)
    simp [Predicate.write, numeral?_at, cutAt_append hequals, hname, hvalue, unquote?_quoted,
      h.1.isName_toList]

/-! ### Steps -/

/-- A test has no character that decides where a path is cut. -/
theorem notMem_write_of_cutting {test : NodeTest} (h : test.Writable) {c : Char} (hc : c ∈ cutting) :
    c ∉ test.write := by
  cases test with
  | named name => exact h.1.notMem (List.mem_append_left _ hc)
  | anyElement =>
    have hall : ∀ c ∈ cutting, c ∉ NodeTest.anyElement.write := by decide
    exact hall c hc
  | anyNode =>
    have hall : ∀ c ∈ cutting, c ∉ NodeTest.anyNode.write := by decide
    exact hall c hc
  | anyText =>
    have hall : ∀ c ∈ cutting, c ∉ NodeTest.anyText.write := by decide
    exact hall c hc

/-- The test of a step goes up to the bracket. -/
theorem takeWhile_write {step : Step} (h : step.Writable) :
    step.write.takeWhile (· != '[') = step.test.write := by
  have hbracket : '[' ∉ step.test.write := notMem_write_of_cutting h.test (by decide)
  have hspan : step.write.span (· != '[') = (step.test.write, Predicate.writeOption step.predicate) := by
    refine Text.span_append (fun c hc => ?_) (fun c hc => ?_)
    · -- the test has no bracket, so the first one opens the predicate
      simpa using ne_of_mem_of_not_mem hc hbracket
    · cases hpredicate : step.predicate with
      | none => simp [hpredicate, Predicate.writeOption] at hc
      | some predicate =>
        obtain rfl : '[' = c := by simpa [hpredicate, Predicate.writeOption] using hc
        decide
  rw [List.span_eq_takeWhile_dropWhile, Prod.mk.injEq] at hspan
  exact hspan.1

/-- **A written step is read back.** -/
theorem readStep_write {step : Step} (h : step.Writable) (path : String) :
    readStep step.axis path step.write = .ok step := by
  have htest : readTest? (trim (step.write.takeWhile (· != '['))) = some step.test := by
    rw [takeWhile_write h, h.test.solid.trim_eq, readTest?_write h.test]
  have hbracket : '[' ∉ step.test.write := notMem_write_of_cutting h.test (by decide)
  cases hpredicate : step.predicate with
  | none =>
    have hcut : cutAt '[' step.write = none := by
      rw [Step.write, hpredicate, Predicate.writeOption, List.append_nil, cutAt_of_notMem hbracket]
    simp only [readStep, hcut, htest, pure_bind]
    rw [← hpredicate]
    rfl
  | some predicate =>
    have hcut : cutAt '[' step.write = some (step.test.write, predicate.write ++ [']']) := by
      rw [Step.write, hpredicate, Predicate.writeOption, cutAt_append hbracket]
    have hread := readPredicate?_write (h.predicate predicate hpredicate)
    simp only [readStep, hcut, withoutLast?_concat, hread, htest, pure_bind]
    rw [← hpredicate]
    rfl

/-- Only a step of its own is written as a dot. -/
theorem write_ne_dot {step : Step} (h : step.Writable) : step.write ≠ ['.'] := by
  intro hdot
  have htest : step.test.write = ['.'] := by
    rcases List.append_eq_singleton_iff.mp hdot with ⟨hnil, -⟩ | ⟨htest, -⟩
    · exact absurd hnil h.test.solid.ne_nil
    · exact htest
  have hwritable := h.test
  cases hname : step.test with
  | named name =>
    -- of all tests only a name could be a dot, and writable names are not
    rw [hname] at htest hwritable
    exact hwritable.2 (String.toList_inj.mp htest)
  | anyElement => simp [hname, NodeTest.write] at htest
  | anyNode => simp [hname, NodeTest.write] at htest
  | anyText => simp [hname, NodeTest.write] at htest

/-! ### Several steps -/

/-- A piece that is neither empty nor a dot is read as a step. -/
theorem readSteps_cons {raw : List Char} (hnil : raw ≠ []) (hdot : raw ≠ ['.']) (axis : Axis)
    (path : String) (rest : List (List Char)) :
    readSteps axis path (raw :: rest) = (do
      let step ← readStep axis path raw
      let steps ← readSteps .child path rest
      return step :: steps) := by
  rw [readSteps]
  · exact hnil
  · exact hdot

/-- The empty piece in a double slash is read as the axis of the next step. -/
theorem readSteps_gap (axis : Axis) (path : String) (rest : List (List Char)) :
    readSteps .child path (axis.gap ++ rest) = readSteps axis path rest := by
  cases axis with
  | child => rfl
  | descendant => rw [Axis.gap, List.singleton_append, readSteps]

/-- **The pieces of written steps are read back**, the axis of the first one being known. -/
theorem readSteps_pieces {first : Step} {steps : List Step} (hfirst : first.Writable)
    (h : ∀ step ∈ steps, step.Writable) (path : String) :
    readSteps first.axis path (first.write :: pieces steps) = .ok (first :: steps) := by
  have hmore : readSteps .child path (pieces steps) = .ok steps := by
    induction steps generalizing first with
    | nil => rfl
    | cons second steps ih =>
      rw [List.forall_mem_cons] at h
      -- the axis of a step is told by the gap in front of it
      have hpieces : pieces (second :: steps) = second.axis.gap ++ (second.write :: pieces steps) := by
        simp [pieces]
      rw [hpieces, readSteps_gap, readSteps_cons h.1.solid.ne_nil (write_ne_dot h.1),
        readStep_write h.1, ih h.1 h.2]
      rfl
  rw [readSteps_cons hfirst.solid.ne_nil (write_ne_dot hfirst), readStep_write hfirst, hmore]
  rfl

/-! ### Paths -/

/-- A path is read if its pieces are.  A slash at its start is dropped. -/
theorem parse_eq_ok {cs body : List Char} {raw : List (List Char)} {first : Step} {steps : List Step}
    (htrim : trim cs = cs) (hbody : cs = '/' :: body ∨ cs = body ∧ body.head? ≠ some '/')
    (hne : body ≠ []) (hraw : segments 0 none [] body = some raw) (hlast : raw.getLast? ≠ some [])
    (hsteps : readSteps .child (String.ofList cs) raw = .ok (first :: steps)) :
    parse (String.ofList cs) = .ok ⟨first :: steps⟩ := by
  have hempty : ¬ body.isEmpty = true := by simpa using hne
  unfold parse
  rw [String.toList_ofList, htrim]
  -- a slash in front is dropped, if there is one
  rcases hbody with rfl | ⟨rfl, hslash⟩
  · simp only [if_neg hempty, hraw, if_neg hlast, hsteps]
    rfl
  · dsimp only
    split
    · simp at hslash
    · simp only [if_neg hempty, hraw, if_neg hlast, hsteps]
      rfl

/-- A dot in front is a piece of its own. -/
theorem segments_dot (rest : List Char) :
    segments 0 none [] ('.' :: '/' :: rest) = (segments 0 none [] rest).map (['.'] :: ·) := by
  rw [← segments_slash]
  rfl

/-- Openings leave pieces that say no more than the axis of the first step. -/
theorem exists_lead_of_opening {axis : Axis} {opening text : List Char}
    (hopening : opening ∈ axis.openings) (hne : text ≠ []) (hslash : text.head? ≠ some '/') :
    ∃ body lead, (opening ++ text = '/' :: body ∨ opening ++ text = body ∧ body.head? ≠ some '/') ∧
      body ≠ [] ∧ segments 0 none [] body = (segments 0 none [] text).map (lead ++ ·) ∧
      ∀ path raw, readSteps .child path (lead ++ raw) = readSteps axis path raw := by
  cases axis with
  | child =>
    simp only [Axis.openings, List.mem_cons, List.not_mem_nil, or_false] at hopening
    rcases hopening with rfl | rfl | rfl
    · exact ⟨text, [], .inr ⟨rfl, hslash⟩, hne, by simp, fun _ _ => rfl⟩
    · exact ⟨text, [], .inl rfl, hne, by simp, fun _ _ => rfl⟩
    · exact ⟨'.' :: '/' :: text, [['.']], .inr ⟨rfl, by simp⟩, by simp, segments_dot text,
        fun _ _ => rfl⟩
  | descendant =>
    simp only [Axis.openings, List.mem_cons, List.not_mem_nil, or_false] at hopening
    rcases hopening with rfl | rfl
    · exact ⟨'/' :: text, [[]], .inl rfl, by simp, segments_slash [] text, fun _ _ => rfl⟩
    · refine ⟨'.' :: '/' :: '/' :: text, [['.'], []], .inr ⟨rfl, by simp⟩, by simp, ?_,
        fun _ _ => rfl⟩
      rw [segments_dot, segments_slash, Option.map_map]
      rfl

end Path

/-- **Every path that can be written is read back**: its text, with any opening that suits the first
    step, denotes its steps. -/
theorem parse_write_path {first : Step} {steps : List Step}
    (h : ∀ step ∈ first :: steps, step.Writable) {opening : List Char}
    (hopening : opening ∈ first.axis.openings) :
    Path.parse (Path.write opening first steps) = .ok ⟨first :: steps⟩ := by
  obtain ⟨hfirst, hmore⟩ := List.forall_mem_cons.mp h
  have hsolid : Solid (first.write ++ Path.writeSteps steps) :=
    Path.solid_append_writeSteps hmore hfirst.solid
  -- the slashes in front of the first step are those of the opening
  have hslash : (first.write ++ Path.writeSteps steps).head? ≠ some '/' := by
    rw [Step.write, List.append_assoc, List.head?_append_of_ne_nil _ hfirst.test.solid.ne_nil]
    exact fun hhead => Path.notMem_write_of_cutting hfirst.test (by decide) (List.mem_of_mem_head? hhead)
  obtain ⟨body, lead, hbody, hne, hsegments, hlead⟩ :=
    Path.exists_lead_of_opening hopening hsolid.ne_nil hslash
  have hpieces : Path.segments 0 none [] body = some (lead ++ first.write :: Path.pieces steps) := by
    rw [hsegments, hfirst.staysWhole 0, List.nil_append, Path.segments_writeSteps hmore,
      Option.map_some]
  refine Path.parse_eq_ok ?_ hbody hne hpieces
    (Path.getLast?_pieces hmore hfirst.solid.ne_nil lead) ?_
  · rcases Axis.solid_of_opening hopening with rfl | hstart
    · exact hsolid.trim_eq
    · exact (hstart.append hsolid).trim_eq
  · rw [hlead, Path.readSteps_pieces hfirst hmore]

/-- A step to parameters with a value that has a quote, brackets, a slash and an equals sign in it. -/
def sampleQuotedStep : Step where
  axis := .descendant
  test := .named "c:param.1"
  predicate := some (.attributeEquals "name" "it's [a/b] = 1")

/-- Steps to the second text of an element, and to elements with an attribute that is a dot. -/
def sampleFurtherSteps : List Step :=
  [{ test := .anyText, predicate := some (.position 2) },
    { test := .anyElement, predicate := some (.hasAttribute ".") }]

/-- The value is kept in one piece, and what follows its quotes is the end of the step. -/
theorem parse_write_path_quoted :
    (∀ step ∈ sampleQuotedStep :: sampleFurtherSteps, step.Writable) ∧
    ['.', '/', '/'] ∈ sampleQuotedStep.axis.openings ∧
    Path.write ['.', '/', '/'] sampleQuotedStep sampleFurtherSteps
      = ".//c:param.1[@name=\"it's [a/b] = 1\"]/text()[2]/*[@.]" ∧
    Path.parse ".//c:param.1[@name=\"it's [a/b] = 1\"]/text()[2]/*[@.]"
      = .ok ⟨sampleQuotedStep :: sampleFurtherSteps⟩ := by
  have hsteps : ∀ step ∈ sampleQuotedStep :: sampleFurtherSteps, step.Writable := by decide +kernel
  have hopening : ['.', '/', '/'] ∈ sampleQuotedStep.axis.openings := by decide
  have htext : Path.write ['.', '/', '/'] sampleQuotedStep sampleFurtherSteps
      = ".//c:param.1[@name=\"it's [a/b] = 1\"]/text()[2]/*[@.]" := by decide
  exact ⟨hsteps, hopening, htext, htext ▸ parse_write_path hsteps hopening⟩

end InheritDoc
