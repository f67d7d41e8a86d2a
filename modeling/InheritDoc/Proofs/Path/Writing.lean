import InheritDoc.Path.Reader
import InheritDoc.Proofs.Text.Solid

namespace InheritDoc

open Text (isBlank isAlphanumeric Solid isBlank_of_isAlphanumeric isAlphanumeric_of_isDigit)

/-!
# Paths as they are written

* `Path.write`       : the text of some steps, after one of the openings that a path may have;
* `Step.Writable`    : steps whose names, positions and values a path can have;
* `Step.Writable.solid` : a written step is not empty, and neither starts nor ends with a blank;
* `Path.StaysWhole`  : a text that no slash is looked for in;
* `Path.segments_writeSteps` : hence written steps are cut apart where they were put together.
-/

/-! ### Texts of paths -/

/-- The text of a test. -/
def NodeTest.write : NodeTest → List Char
  | .named name => name.toList
  | .anyElement => ['*']
  | .anyNode => ['n', 'o', 'd', 'e', '(', ')']
  | .anyText => ['t', 'e', 'x', 't', '(', ')']

/-- The quote that a value is put in: a single one, unless the value has one. -/
def Path.quoteFor (value : List Char) : Char :=
  if '\'' ∈ value then '"' else '\''

/-- A value in quotes. -/
def Path.quoted (value : List Char) : List Char :=
  quoteFor value :: (value ++ [quoteFor value])

/-- The text of a predicate, without its brackets. -/
def Predicate.write : Predicate → List Char
  | .position n => Nat.toDigits 10 n
  | .hasAttribute name => '@' :: name.toList
  | .attributeEquals name value => '@' :: (name.toList ++ '=' :: Path.quoted value.toList)

/-- A predicate in its brackets, if there is one. -/
def Predicate.writeOption : Option Predicate → List Char
  | none => []
  | some predicate => '[' :: (predicate.write ++ [']'])

/-- The text of a step, without what stands before it. -/
def Step.write (step : Step) : List Char :=
  step.test.write ++ Predicate.writeOption step.predicate

/-- What stands between a step and the one before it. -/
def Axis.separator : Axis → List Char
  | .child => ['/']
  | .descendant => ['/', '/']

/-- What may stand before the first step. -/
def Axis.openings : Axis → List (List Char)
  | .child => [[], ['/'], ['.', '/']]
  | .descendant => [['/', '/'], ['.', '/', '/']]

namespace Path

/-- Steps that follow another one. -/
def writeSteps (steps : List Step) : List Char :=
  steps.flatMap fun step => step.axis.separator ++ step.write

/-- The text of a path with an opening, a first step and more steps. -/
def write (opening : List Char) (first : Step) (steps : List Step) : String :=
  String.ofList (opening ++ (first.write ++ writeSteps steps))

/-- The characters of names. -/
def IsNameChar (c : Char) : Prop :=
  isAlphanumeric c = true ∨ c ∈ ['_', '-', '.', ':']

/-- A name: not empty, of alphanumeric characters and `_`, `-`, `.`, `:`. -/
structure IsName (name : String) : Prop where
  nonempty : name ≠ ""
  chars : ∀ c ∈ name.toList, IsNameChar c

instance : DecidablePred IsNameChar := fun c =>
  inferInstanceAs (Decidable (isAlphanumeric c = true ∨ c ∈ ['_', '-', '.', ':']))

instance : DecidablePred IsName := fun name =>
  decidable_of_iff (name ≠ "" ∧ ∀ c ∈ name.toList, IsNameChar c)
    ⟨fun h => ⟨h.1, h.2⟩, fun h => ⟨h.nonempty, h.chars⟩⟩

end Path

open InheritDoc.Path (IsName quoted quoteFor)

/-- A test that can be written.  A single dot would be no step at all. -/
def NodeTest.Writable : NodeTest → Prop
  | .named name => IsName name ∧ name ≠ "."
  | _ => True

/-- A predicate that can be written: positions are counted in 64 bits, and a value with both sorts of
    quotes cannot be quoted. -/
def Predicate.Writable : Predicate → Prop
  | .position n => 1 ≤ n ∧ n < UInt64.size
  | .hasAttribute name => IsName name
  | .attributeEquals name value => IsName name ∧ ¬ ('\'' ∈ value.toList ∧ '"' ∈ value.toList)

/-- A step that can be written. -/
structure Step.Writable (step : Step) : Prop where
  test : step.test.Writable
  predicate : ∀ predicate ∈ step.predicate, predicate.Writable

instance : DecidablePred NodeTest.Writable
  | .named name => inferInstanceAs (Decidable (IsName name ∧ name ≠ "."))
  | .anyElement => .isTrue trivial
  | .anyNode => .isTrue trivial
  | .anyText => .isTrue trivial

instance : DecidablePred Predicate.Writable
  | .position n => inferInstanceAs (Decidable (1 ≤ n ∧ n < UInt64.size))
  | .hasAttribute name => inferInstanceAs (Decidable (IsName name))
  | .attributeEquals name value =>
    inferInstanceAs (Decidable (IsName name ∧ ¬ ('\'' ∈ value.toList ∧ '"' ∈ value.toList)))

instance : DecidablePred Step.Writable := fun step =>
  decidable_of_iff (step.test.Writable ∧ ∀ predicate ∈ step.predicate, predicate.Writable)
    ⟨fun h => ⟨h.1, h.2⟩, fun h => ⟨h.test, h.predicate⟩⟩

/-! ### Their characters -/

namespace Path

/-- The characters that decide where a path is cut. -/
def cutting : List Char :=
  ['/', '[', ']', '\'', '"']

/-- The characters that structure a path. -/
def structural : List Char :=
  cutting ++ ['=', '@', '*', '(', ')']

/-- The characters that structure a path are no letters and no digits. -/
theorem isAlphanumeric_of_mem_structural : ∀ c ∈ structural, isAlphanumeric c = false := by
  decide +kernel

/-- Names have no blanks. -/
theorem IsNameChar.isBlank_eq_false {c : Char} (h : IsNameChar c) : isBlank c = false := by
  rcases h with h | h
  · exact isBlank_of_isAlphanumeric h
  · have hall : ∀ c ∈ ['_', '-', '.', ':'], isBlank c = false := by decide
    exact hall c h

/-- The characters of names structure nothing. -/
theorem IsNameChar.notMem_structural {c : Char} (h : IsNameChar c) : c ∉ structural := by
  intro hmem
  rcases h with h | h
  · simp [isAlphanumeric_of_mem_structural c hmem] at h
  · have hall : ∀ c ∈ ['_', '-', '.', ':'], c ∉ structural := by decide
    exact hall c h hmem

/-- Digits may stand in names. -/
theorem isNameChar_of_mem_toDigits {n : Nat} {c : Char} (hc : c ∈ Nat.toDigits 10 n) : IsNameChar c :=
  .inl (isAlphanumeric_of_isDigit (Nat.isDigit_of_mem_toDigits (by decide) (by decide) hc))

/-- Texts of name characters have no blanks at their ends. -/
theorem solid_of_isNameChar {cs : List Char} (hne : cs ≠ []) (h : ∀ c ∈ cs, IsNameChar c) : Solid cs :=
  .of_forall hne fun c hc => (h c hc).isBlank_eq_false

theorem IsName.toList_ne_nil {name : String} (h : IsName name) : name.toList ≠ [] := by
  simpa using h.nonempty

/-- Names have no blanks at their ends. -/
theorem IsName.solid {name : String} (h : IsName name) : Solid name.toList :=
  solid_of_isNameChar h.toList_ne_nil h.chars

/-- Quoted values have no blanks at their ends, for the quotes are outside. -/
theorem solid_quoted (value : List Char) : Solid (quoted value) := by
  have hquote : isBlank (quoteFor value) = false := by
    unfold quoteFor
    split <;> decide
  exact .of_ends hquote hquote value

end Path

/-- Written tests have no blanks at their ends. -/
theorem NodeTest.Writable.solid {test : NodeTest} (h : test.Writable) : Solid test.write := by
  cases test with
  | named name => exact Path.IsName.solid h.1
  | anyElement => exact .of_forall (List.cons_ne_nil _ _) (by decide)
  | anyNode => exact .of_forall (List.cons_ne_nil _ _) (by decide)
  | anyText => exact .of_forall (List.cons_ne_nil _ _) (by decide)

/-- Written predicates have no blanks at their ends. -/
theorem Predicate.Writable.solid {predicate : Predicate} (h : predicate.Writable) :
    Solid predicate.write := by
  have hat : Solid ['@'] := .of_forall (List.cons_ne_nil _ _) (by decide)
  have hequals : Solid ['='] := .of_forall (List.cons_ne_nil _ _) (by decide)
  cases predicate with
  | position n =>
    exact Path.solid_of_isNameChar Nat.toDigits_ne_nil fun _ => Path.isNameChar_of_mem_toDigits
  | hasAttribute name => exact hat.append (Path.IsName.solid h)
  | attributeEquals name value =>
    exact hat.append (h.1.solid.append (hequals.append (Path.solid_quoted value.toList)))

/-- Written steps have no blanks at their ends. -/
theorem Step.Writable.solid {step : Step} (h : step.Writable) : Solid step.write := by
  unfold Step.write
  cases step.predicate with
  | none => simpa [Predicate.writeOption] using h.test.solid
  | some predicate => exact h.test.solid.append (.of_ends (by decide) (by decide) predicate.write)

/-- Separators have no blanks at their ends. -/
theorem Axis.solid_separator (axis : Axis) : Solid axis.separator := by
  cases axis with
  | child => exact .of_forall (List.cons_ne_nil _ _) (by decide)
  | descendant => exact .of_forall (List.cons_ne_nil _ _) (by decide)

/-- An opening is empty or has no blanks at its ends. -/
theorem Axis.solid_of_opening {axis : Axis} {opening : List Char} (h : opening ∈ axis.openings) :
    opening = [] ∨ Solid opening := by
  have hall : ∀ opening ∈ axis.openings, ∀ c ∈ opening, isBlank c = false := by
    cases axis <;> decide
  by_cases hne : opening = []
  · exact .inl hne
  · exact .inr (.of_forall hne (hall opening h))

/-- Further steps add no blanks at the ends. -/
theorem Path.solid_append_writeSteps {steps : List Step} (h : ∀ step ∈ steps, step.Writable)
    {cs : List Char} (hcs : Solid cs) : Solid (cs ++ writeSteps steps) := by
  induction steps generalizing cs with
  | nil => simpa [writeSteps] using hcs
  | cons step steps ih =>
    rw [List.forall_mem_cons] at h
    have hstep : Solid (cs ++ (step.axis.separator ++ step.write)) :=
      hcs.append (step.axis.solid_separator.append h.1.solid)
    simpa [writeSteps] using ih h.2 hstep

/-! ### Pieces -/

namespace Path

/-- Where no quote is open, the text goes to the current piece as it is. -/
def StaysWhole (depth : Nat) (cs : List Char) : Prop :=
  ∀ current rest, segments depth none current (cs ++ rest) = segments depth none (current ++ cs) rest

namespace StaysWhole

variable {depth : Nat} {cs ds : List Char}

theorem nil : StaysWhole depth [] := by
  intro current rest
  rw [List.nil_append, List.append_nil]

theorem append (hcs : StaysWhole depth cs) (hds : StaysWhole depth ds) :
    StaysWhole depth (cs ++ ds) := by
  intro current rest
  rw [List.append_assoc, hcs, hds, List.append_assoc]

theorem singleton {c : Char} (hc : c ∉ cutting) : StaysWhole depth [c] := by
  intro current rest
  simp only [cutting, List.mem_cons, List.not_mem_nil, or_false, not_or] at hc
  obtain ⟨hslash, hopen, hclose, hsingle, hdouble⟩ := hc
  show segments depth none current (c :: rest) = _
  simp [segments, hslash, hopen, hclose, hsingle, hdouble]

/-- A text without characters that cut is not cut. -/
theorem of_forall (h : ∀ c ∈ cs, c ∉ cutting) : StaysWhole depth cs := by
  induction cs with
  | nil => exact nil
  | cons c cs ih =>
    rw [List.forall_mem_cons] at h
    exact (singleton h.1).append (ih h.2)

/-- Brackets count, so what is between them may be cut nowhere. -/
theorem bracketed (h : StaysWhole (depth + 1) cs) : StaysWhole depth ('[' :: (cs ++ [']'])) := by
  intro current rest
  have hopen : segments depth none current ('[' :: (cs ++ ']' :: rest))
      = segments (depth + 1) none (current ++ ['[']) (cs ++ ']' :: rest) := by
    rw [segments]; simp
  have hclose : segments (depth + 1) none (current ++ ['['] ++ cs) (']' :: rest)
      = segments depth none (current ++ ['['] ++ cs ++ [']']) rest := by
    rw [segments]; simp
  calc segments depth none current ('[' :: (cs ++ [']']) ++ rest)
      = segments depth none current ('[' :: (cs ++ ']' :: rest)) := by simp
    _ = segments depth none (current ++ ['['] ++ cs ++ [']']) rest := by rw [hopen, h, hclose]
    _ = segments depth none (current ++ '[' :: (cs ++ [']'])) rest := by simp

end StaysWhole

/-- Up to the closing quote everything goes to the current piece. -/
theorem segments_quote {quote : Char} {value : List Char} (h : quote ∉ value) (depth : Nat)
    (current rest : List Char) :
    segments depth (some quote) current (value ++ quote :: rest)
      = segments depth none (current ++ value ++ [quote]) rest := by
  induction value generalizing current with
  | nil => simp [segments]
  | cons c value ih =>
    rw [List.mem_cons, not_or] at h
    rw [List.cons_append, segments, if_neg (Ne.symm h.1), ih h.2]
    simp

/-- A value is quoted with a quote that it does not have, unless it has both. -/
theorem quoteFor_notMem {value : List Char} (h : ¬ ('\'' ∈ value ∧ '"' ∈ value)) :
    quoteFor value ∉ value := by
  unfold quoteFor
  split
  · rename_i hsingle
    exact fun hdouble => h ⟨hsingle, hdouble⟩
  · assumption

/-- Quoted values are not cut, whatever is in them. -/
theorem staysWhole_quoted {value : List Char} (h : ¬ ('\'' ∈ value ∧ '"' ∈ value)) (depth : Nat) :
    StaysWhole depth (quoted value) := by
  intro current rest
  have hquote : quoteFor value = '\'' ∨ quoteFor value = '"' := by
    unfold quoteFor
    split <;> simp
  have hopen : segments depth none current (quoteFor value :: (value ++ quoteFor value :: rest))
      = segments depth (some (quoteFor value)) (current ++ [quoteFor value])
          (value ++ quoteFor value :: rest) := by
    rw [segments, if_pos hquote]
  calc segments depth none current (quoted value ++ rest)
      = segments depth none current (quoteFor value :: (value ++ quoteFor value :: rest)) := by
        simp [quoted]
    _ = segments depth none (current ++ [quoteFor value] ++ value ++ [quoteFor value]) rest := by
        rw [hopen, segments_quote (quoteFor_notMem h)]
    _ = segments depth none (current ++ quoted value) rest := by simp [quoted]

/-- Texts of name characters are not cut. -/
theorem staysWhole_of_isNameChar {cs : List Char} (h : ∀ c ∈ cs, IsNameChar c) (depth : Nat) :
    StaysWhole depth cs := by
  refine .of_forall fun c hc hmem => (h c hc).notMem_structural ?_
  exact List.mem_append_left _ hmem

end Path

/-- Written tests are not cut. -/
theorem NodeTest.Writable.staysWhole {test : NodeTest} (h : test.Writable) (depth : Nat) :
    Path.StaysWhole depth test.write := by
  cases test with
  | named name => exact Path.staysWhole_of_isNameChar h.1.chars depth
  | anyElement => exact .of_forall (by decide)
  | anyNode => exact .of_forall (by decide)
  | anyText => exact .of_forall (by decide)

/-- Written predicates are not cut. -/
theorem Predicate.Writable.staysWhole {predicate : Predicate} (h : predicate.Writable) (depth : Nat) :
    Path.StaysWhole depth predicate.write := by
  have hat : Path.StaysWhole depth ['@'] := .of_forall (by decide)
  have hequals : Path.StaysWhole depth ['='] := .of_forall (by decide)
  cases predicate with
  | position n =>
    exact Path.staysWhole_of_isNameChar (fun _ => Path.isNameChar_of_mem_toDigits) depth
  | hasAttribute name => exact hat.append (Path.staysWhole_of_isNameChar h.chars depth)
  | attributeEquals name value =>
    exact hat.append ((Path.staysWhole_of_isNameChar h.1.chars depth).append
      (hequals.append (Path.staysWhole_quoted h.2 depth)))

/-- Written steps are not cut. -/
theorem Step.Writable.staysWhole {step : Step} (h : step.Writable) (depth : Nat) :
    Path.StaysWhole depth step.write := by
  have hpredicate := h.predicate
  unfold Step.write
  refine (h.test.staysWhole depth).append ?_
  cases hsome : step.predicate with
  | none => exact .nil
  | some predicate => exact ((hpredicate _ hsome).staysWhole (depth + 1)).bracketed

/-! ### Written steps, cut apart -/

/-- The empty piece that a separator of two slashes leaves. -/
def Axis.gap : Axis → List (List Char)
  | .child => []
  | .descendant => [[]]

namespace Path

/-- The pieces of steps that follow another one. -/
def pieces (steps : List Step) : List (List Char) :=
  steps.flatMap fun step => step.axis.gap ++ [step.write]

/-- A slash outside brackets and quotes ends a piece. -/
theorem segments_slash (current rest : List Char) :
    segments 0 none current ('/' :: rest) = (segments 0 none [] rest).map (current :: ·) := by
  rw [segments]
  simp

/-- The separator of an axis ends a piece and leaves the gap of the axis. -/
theorem segments_separator (axis : Axis) (current rest : List Char) :
    segments 0 none current (axis.separator ++ rest)
      = (segments 0 none [] rest).map fun more => current :: (axis.gap ++ more) := by
  cases axis with
  | child => exact segments_slash current rest
  | descendant =>
    show segments 0 none current ('/' :: '/' :: rest) = _
    rw [segments_slash, segments_slash, Option.map_map]
    rfl

/-- **Written steps are cut apart** where they were put together. -/
theorem segments_writeSteps {steps : List Step} (h : ∀ step ∈ steps, step.Writable)
    (current : List Char) :
    segments 0 none current (writeSteps steps) = some (current :: pieces steps) := by
  induction steps generalizing current with
  | nil => simp [writeSteps, pieces, segments]
  | cons step steps ih =>
    rw [List.forall_mem_cons] at h
    -- the written step stays in one piece
    have hwhole : segments 0 none [] (step.write ++ writeSteps steps)
        = some (step.write :: pieces steps) := by
      rw [h.1.staysWhole 0, List.nil_append, ih h.2]
    have htext : writeSteps (step :: steps)
        = step.axis.separator ++ (step.write ++ writeSteps steps) := by
      simp [writeSteps]
    rw [htext, segments_separator, hwhole, Option.map_some]
    simp [pieces]

/-- A path never ends in an empty piece. -/
theorem getLast?_pieces {steps : List Step} (h : ∀ step ∈ steps, step.Writable) {piece : List Char}
    (hpiece : piece ≠ []) (lead : List (List Char)) :
    (lead ++ piece :: pieces steps).getLast? ≠ some [] := by
  induction steps generalizing piece lead with
  | nil => simpa [pieces] using hpiece
  | cons step steps ih =>
    rw [List.forall_mem_cons] at h
    have hlast := ih h.2 h.1.solid.ne_nil (lead ++ piece :: step.axis.gap)
    simpa [pieces] using hlast

end Path

end InheritDoc
