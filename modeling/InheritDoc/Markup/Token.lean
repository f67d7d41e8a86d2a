import InheritDoc.Markup.Entity
import InheritDoc.Markup.Node
import InheritDoc.Text.Blank
import InheritDoc.Text.Cut

namespace InheritDoc.Markup

open Text (isBlank trim trimStart after? cutAt cutPast)

/-!
# Tokens of markup

A text is cut into tokens before elements are matched up.

* `ReadError` : why a text is not markup, with `ReadError.message`;
* `Token`     : a text, a start tag, an element without content, or a closing tag;
* `scanToken` : the token that a text starts with;
* `scan`      : all tokens, up to the first place that cannot be read.

While reading, a place in the text is given by the text that remains from there on.
-/

/-! ### Errors -/

/-- What the reader was in the middle of when the text ended. -/
inductive Unfinished where
  | comment
  | cdata
  | instruction
  | declaration
  | closingTag
  | element
  | startTag
  | attributeValue
  deriving DecidableEq, Repr

/-- How messages call what was unfinished. -/
def Unfinished.text : Unfinished → String
  | .comment => "comment"
  | .cdata => "CDATA section"
  | .instruction => "processing instruction"
  | .declaration => "declaration"
  | .closingTag => "closing tag"
  | .element => "element"
  | .startTag => "start tag"
  | .attributeValue => "attribute value"

/-- What is wrong at a place. -/
inductive Malformation where
  | unexpectedClosing (found : String)
  | expectedName
  | missingValue (key : String)
  | expectedQuote
  deriving DecidableEq, Repr

/-- The wording of a malformation. -/
def Malformation.text : Malformation → String
  | .unexpectedClosing found => "unexpected closing tag </" ++ found ++ ">"
  | .expectedName => "expected a name"
  | .missingValue key => "attribute '" ++ key ++ "' has no value"
  | .expectedQuote => "expected a quoted attribute value"

/-- Why a text cannot be read; `P` is the type of places. -/
inductive ReadError (P : Type) where
  | malformed (place : P) (what : Malformation)
  | unexpectedEnd (context : Unfinished)
  | mismatchedTag (place : P) (expected found : String)
  | noRoot
  deriving DecidableEq, Repr

/-- The same error with its place given in another way. -/
def ReadError.map {P Q : Type} (f : P → Q) : ReadError P → ReadError Q
  | .malformed place what => .malformed (f place) what
  | .unexpectedEnd context => .unexpectedEnd context
  | .mismatchedTag place expected found => .mismatchedTag (f place) expected found
  | .noRoot => .noRoot

/-- The message of an error whose place is a number of bytes. -/
def ReadError.message : ReadError Nat → String
  | .malformed offset what => "Malformed XML at byte " ++ toString offset ++ ": " ++ what.text
  | .unexpectedEnd context => "Unexpected end of input while reading " ++ context.text
  | .mismatchedTag offset expected found =>
    "Mismatched closing tag at byte " ++ toString offset ++ ": expected </" ++ expected ++
      ">, found </" ++ found ++ ">"
  | .noRoot => "Document has no root element"

/-! ### What a text starts with -/

/-- The forms of markup. -/
inductive Opening where
  | comment
  | cdata
  | instruction
  | declaration
  | closing
  | element
  | text
  deriving DecidableEq, Repr

/-- How each form of markup starts; the first that fits counts. -/
def openingMarks : List (Opening × List Char) :=
  [(.comment, ['<', '!', '-', '-']),
    (.cdata, ['<', '!', '[', 'C', 'D', 'A', 'T', 'A', '[']),
    (.instruction, ['<', '?']),
    (.declaration, ['<', '!']),
    (.closing, ['<', '/']),
    (.element, ['<'])]

/-- The form of markup that a text starts with, and what follows its mark. -/
def opening (cs : List Char) : Opening × List Char :=
  (openingMarks.findSome? fun (form, mark) => (after? mark cs).map fun rest => (form, rest)).getD
    (.text, cs)

/-! ### Tags -/

/-- An error met while reading. -/
abbrev Fault := ReadError (List Char)

/-- The characters that end a name. -/
def endsName (c : Char) : Bool :=
  isBlank c || c = '=' || c = '>' || c = '/' || c = '<' || c = '"' || c = '\''

/-- The name that a text starts with. -/
def readName (cs : List Char) : Except Fault (String × List Char) :=
  if (cs.takeWhile (!endsName ·)).isEmpty then .error (.malformed cs .expectedName)
  else .ok (String.ofList (cs.takeWhile (!endsName ·)), cs.dropWhile (!endsName ·))

/-- What stands before `mark`, which must occur. -/
def readPast (mark : List Char) (context : Unfinished) (cs : List Char) :
    Except Fault (List Char × List Char) :=
  match cutPast mark cs with
  | some (before, rest) => .ok (before, rest)
  | none => .error (.unexpectedEnd context)

/-- A value in quotes of either sort. -/
def readQuoted (cs : List Char) : Except Fault (String × List Char) :=
  match cs with
  | q :: body =>
    if q = '"' ∨ q = '\'' then
      match cutAt q body with
      | some (value, rest) => .ok (String.ofList (decodeEntities value), rest)
      | none => .error (.unexpectedEnd .attributeValue)
    else .error (.malformed cs .expectedQuote)
  | [] => .error (.malformed cs .expectedQuote)

/-- An attribute with its value. -/
def readAttribute (cs : List Char) : Except Fault ((String × String) × List Char) := do
  let (key, rest) ← readName cs
  match trimStart rest with
  | '=' :: body =>
    let (value, rest) ← readQuoted (trimStart body)
    return ((key, value), rest)
  | rest => throw (.malformed rest (.missingValue key))

/-- A name takes at least one character. -/
theorem length_readName {cs rest : List Char} {name : String}
    (h : readName cs = .ok (name, rest)) : rest.length < cs.length := by
  unfold readName at h
  split at h
  · simp at h
  · rename_i hne
    simp only [Except.ok.injEq, Prod.mk.injEq] at h
    have hlen := congrArg List.length
      (List.takeWhile_append_dropWhile (p := fun c => !endsName c) (l := cs))
    rw [List.length_append] at hlen
    have hpos : 0 < (cs.takeWhile fun c => !endsName c).length := by
      simpa [List.length_pos_iff] using hne
    rw [← h.2]
    omega

/-- A quoted value takes at least its quotes. -/
theorem length_readQuoted {cs rest : List Char} {value : String}
    (h : readQuoted cs = .ok (value, rest)) : rest.length < cs.length := by
  unfold readQuoted at h
  split at h
  · split at h
    · split at h
      · rename_i hcut
        have hlen := congrArg List.length (Text.eq_append_of_cutAt hcut)
        simp only [Except.ok.injEq, Prod.mk.injEq] at h
        simp only [List.length_append, List.length_cons] at hlen ⊢
        rw [← h.2]
        omega
      · simp at h
    · simp at h
  · simp at h

/-- An attribute takes at least its name. -/
theorem length_readAttribute {cs rest : List Char} {pair : String × String}
    (h : readAttribute cs = .ok (pair, rest)) : rest.length < cs.length := by
  unfold readAttribute at h
  cases hname : readName cs with
  | error e => simp [hname, bind, Except.bind] at h
  | ok named =>
    obtain ⟨key, rest₁⟩ := named
    simp only [hname, bind, Except.bind] at h
    have hlt := length_readName hname
    have hle := Text.length_trimStart_le rest₁
    split at h
    · rename_i body hbody
      cases hquoted : readQuoted (trimStart body) with
      | error e => simp [hquoted] at h
      | ok quoted =>
        obtain ⟨value, rest₂⟩ := quoted
        simp only [hquoted, pure, Except.pure, Except.ok.injEq, Prod.mk.injEq] at h
        have hq := length_readQuoted hquoted
        have hb := Text.length_trimStart_le body
        rw [hbody] at hle
        simp only [List.length_cons] at hle
        rw [← h.2]
        omega
    · simp [throw, throwThe, MonadExceptOf.throw] at h

/-- The attributes of a start tag up to its end, and whether the tag closes its element itself. -/
def readAttributes (cs : List Char) : Except Fault ((List (String × String) × Bool) × List Char) :=
  match _hcs : trimStart cs with
  | [] => .error (.unexpectedEnd .startTag)
  | '/' :: '>' :: rest => .ok (([], true), rest)
  | '>' :: rest => .ok (([], false), rest)
  | c :: body =>
    match _hread : readAttribute (c :: body) with
    | .error e => .error e
    | .ok (pair, rest) => do
      let ((attributes, closed), rest) ← readAttributes rest
      return ((pair :: attributes, closed), rest)
termination_by cs.length
decreasing_by
  have hlt := length_readAttribute _hread
  have hle := Text.length_trimStart_le cs
  rw [_hcs] at hle
  omega

/-! ### Tokens -/

/-- A token of markup.  A closing tag keeps the place where it stands. -/
inductive Token where
  | text (content : List Char)
  | start (tag : Tag)
  | single (tag : Tag)
  | closing (name : String) (place : List Char)
  deriving DecidableEq, Repr

/-- The start tag, or the element without content, that follows a left angle. -/
def readTag (cs : List Char) : Except Fault (Token × List Char) := do
  let (name, rest) ← readName cs
  let ((attributes, closed), rest) ← readAttributes rest
  let tag : Tag := ⟨name, attributes⟩
  return (if closed then .single tag else .start tag, rest)

/-- The token that a text starts with; none for comments, instructions and declarations, which
    carry no content. -/
def scanToken (cs : List Char) : Except Fault (Option Token × List Char) :=
  match opening cs with
  | (.comment, body) => do
    let (_, rest) ← readPast ['-', '-', '>'] .comment body
    return (none, rest)
  | (.cdata, body) => do
    let (data, rest) ← readPast [']', ']', '>'] .cdata body
    return (some (.text data), rest)
  | (.instruction, body) => do
    let (_, rest) ← readPast ['?', '>'] .instruction body
    return (none, rest)
  | (.declaration, body) => do
    let (_, rest) ← readPast ['>'] .declaration body
    return (none, rest)
  | (.closing, body) => do
    let (name, rest) ← readPast ['>'] .closingTag body
    return (some (.closing (String.ofList (trim name)) cs), rest)
  | (.element, body) => do
    let (token, rest) ← readTag body
    return (some token, rest)
  | (.text, body) =>
    .ok (some (.text (decodeEntities (body.takeWhile (· != '<')))), body.dropWhile (· != '<'))

/-! ### The loop -/

/-- A text that starts with markup is followed by less than itself; any other one is a text as a
    whole. -/
theorem opening_cases (cs : List Char) :
    (opening cs = (.text, cs) ∧ cs.head? ≠ some '<') ∨
      ((opening cs).1 ≠ .text ∧ (opening cs).2.length < cs.length) := by
  unfold opening
  cases hfind : openingMarks.findSome? fun (form, mark) =>
      (after? mark cs).map fun rest => (form, rest) with
  | none =>
    refine Or.inl ⟨rfl, ?_⟩
    have hlast := List.findSome?_eq_none_iff.1 hfind (.element, ['<']) (by simp [openingMarks])
    cases cs with
    | nil => simp
    | cons c cs =>
      simp only [after?, List.isPrefixOf, Bool.and_true, beq_iff_eq, Option.map_eq_none_iff] at hlast
      split at hlast
      · simp at hlast
      · rename_i hne
        simpa using fun h => hne h.symm
  | some found =>
    right
    obtain ⟨⟨form, mark⟩, hmem, heq⟩ := List.exists_of_findSome?_eq_some hfind
    obtain ⟨rest, hafter, rfl⟩ := Option.map_eq_some_iff.1 heq
    have hlen := congrArg List.length (Text.eq_append_of_after? hafter)
    have hmark : form ≠ .text ∧ 0 < mark.length := by
      simp only [openingMarks, List.mem_cons, Prod.mk.injEq, List.not_mem_nil, or_false] at hmem
      rcases hmem with h | h | h | h | h | h <;> simp [h.1, h.2]
    simp only [List.length_append] at hlen
    refine ⟨hmark.1, ?_⟩
    simp only [Option.getD_some]
    omega

/-- Reading past a mark gives nothing back. -/
theorem length_readPast {mark cs before rest : List Char} {context : Unfinished}
    (h : readPast mark context cs = .ok (before, rest)) : rest.length ≤ cs.length := by
  unfold readPast at h
  split at h
  · rename_i hcut
    simp only [Except.ok.injEq, Prod.mk.injEq] at h
    have hlen := congrArg List.length (Text.eq_append_of_cutPast hcut)
    simp only [List.length_append] at hlen
    rw [← h.2]
    omega
  · simp at h

/-- Reading attributes gives nothing back. -/
theorem length_readAttributes {cs rest : List Char} {result : List (String × String) × Bool}
    (h : readAttributes cs = .ok (result, rest)) : rest.length ≤ cs.length := by
  fun_induction readAttributes cs generalizing result rest with
  | case1 => simp at h
  | case2 cs rest' hcs =>
    have hle := Text.length_trimStart_le cs
    simp only [Except.ok.injEq, Prod.mk.injEq] at h
    simp only [hcs, List.length_cons] at hle
    rw [← h.2]
    omega
  | case3 cs rest' hcs =>
    have hle := Text.length_trimStart_le cs
    simp only [Except.ok.injEq, Prod.mk.injEq] at h
    simp only [hcs, List.length_cons] at hle
    rw [← h.2]
    omega
  | case4 => simp at h
  | case5 cs c body _ _ hcs pair rest' hread ih =>
    have hle := Text.length_trimStart_le cs
    rw [hcs] at hle
    have hlt := length_readAttribute hread
    cases hmore : readAttributes rest' with
    | error e => simp [hmore, bind, Except.bind] at h
    | ok more =>
      obtain ⟨⟨attributes, closed⟩, rest''⟩ := more
      have hrec := ih hmore
      simp only [hmore, bind, Except.bind, pure, Except.pure, Except.ok.injEq,
        Prod.mk.injEq] at h
      rw [← h.2]
      omega

/-- A tag takes at least its name. -/
theorem length_readTag {cs rest : List Char} {token : Token}
    (h : readTag cs = .ok (token, rest)) : rest.length < cs.length := by
  unfold readTag at h
  cases hname : readName cs with
  | error e => simp [hname, bind, Except.bind] at h
  | ok named =>
    obtain ⟨name, rest₁⟩ := named
    cases hattrs : readAttributes rest₁ with
    | error e => simp [hname, hattrs, bind, Except.bind] at h
    | ok result =>
      obtain ⟨⟨attributes, closed⟩, rest₂⟩ := result
      simp only [hname, hattrs, bind, Except.bind, pure, Except.pure, Except.ok.injEq,
        Prod.mk.injEq] at h
      have hlt := length_readName hname
      have hle := length_readAttributes hattrs
      rw [← h.2]
      omega

/-- Every token but that of the empty text takes at least one character. -/
theorem length_scanToken {c : Char} {cs rest : List Char} {token : Option Token}
    (h : scanToken (c :: cs) = .ok (token, rest)) : rest.length < (c :: cs).length := by
  rcases opening_cases (c :: cs) with ⟨hopen, hhead⟩ | ⟨hform, hlt⟩
  · have hc : (c != '<') = true := by simpa using hhead
    simp only [scanToken, hopen, Except.ok.injEq, Prod.mk.injEq] at h
    rw [← h.2, List.dropWhile_cons, if_pos hc]
    have hle := (List.dropWhile_suffix (fun x => x != '<') (l := cs)).length_le
    simp only [List.length_cons]
    omega
  · unfold scanToken at h
    split at h
    all_goals rename_i body hopen
    all_goals simp only [hopen] at hform hlt
    case h_7 => exact absurd rfl hform
    case h_6 =>
      cases hread : readTag body with
      | error e => simp [hread, bind, Except.bind] at h
      | ok result =>
        obtain ⟨token', rest'⟩ := result
        simp only [hread, bind, Except.bind, pure, Except.pure, Except.ok.injEq,
          Prod.mk.injEq] at h
        have := length_readTag hread
        rw [← h.2]
        omega
    all_goals
      revert h
      generalize hread : readPast _ _ body = result
      intro h
      cases result with
      | error e => simp [bind, Except.bind] at h
      | ok result =>
        obtain ⟨before, rest'⟩ := result
        simp only [bind, Except.bind, pure, Except.pure, Except.ok.injEq, Prod.mk.injEq] at h
        have := length_readPast hread
        rw [← h.2]
        omega

/-- The tokens of a text, and what is wrong with the first place that cannot be read. -/
def scan : List Char → List Token × Option Fault
  | [] => ([], none)
  | c :: cs =>
    match _hscan : scanToken (c :: cs) with
    | .error fault => ([], some fault)
    | .ok (token, rest) =>
      let (tokens, fault) := scan rest
      (token.toList ++ tokens, fault)
termination_by cs => cs.length
decreasing_by exact length_scanToken _hscan

end InheritDoc.Markup
