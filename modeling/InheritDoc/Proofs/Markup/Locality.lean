import InheritDoc.Proofs.Markup.RoundTrip
import InheritDoc.Proofs.Text.Cut

namespace InheritDoc.Markup

open Text (isBlank trim trimStart)

/-!
# Reading does not look ahead

Once something has been read, it would have been read in the same way with any other text behind it.
Only a text that stands between markup goes on until the next markup.

* `Takes`            : what a reader takes of a text, whatever follows;
* `takes_readAttributes`, `takes_readTag`, `takes_readPast` : readers that succeed take something;
* `opening_local`, `readPast_local` : so does markup with an end mark of its own;
* `scanToken_local`  : so does the scanner, up to the places that it notes down;
* `Scans`            : the tokens from the start of a text to some place in it;
* `Scans.replace`, `Scans.resume_replace` : they stay the same if the text is another one from there
  on, and so does what is read before;
* `exists_stop`      : **reading goes through tokens to the place where its outcome is decided.**
-/

/-! ### Readers -/

/-- The reader takes `used` and gives `value` for it, whatever text follows. -/
def Takes {α : Type} (read : List Char → Except Fault (α × List Char)) (used : List Char)
    (value : α) : Prop :=
  ∀ rest, read (used ++ rest) = .ok (value, rest)

/-- A text is read up to the first occurrence of the mark. -/
theorem readPast_eq_ok {mark cs before rest : List Char} {context : Unfinished} :
    readPast mark context cs = .ok (before, rest) ↔ Text.cutPast mark cs = some (before, rest) := by
  rw [readPast]
  rcases Text.cutPast mark cs with _ | ⟨before', rest'⟩ <;> simp

/-- Reading up to a mark takes the text and the mark, whatever follows. -/
theorem takes_readPast {mark cs before rest : List Char} {context : Unfinished}
    (h : readPast mark context cs = .ok (before, rest)) :
    cs = before ++ mark ++ rest ∧ Takes (readPast mark context) (before ++ mark) before := by
  have hcut := readPast_eq_ok.mp h
  exact ⟨Text.eq_append_of_cutPast hcut, fun rest' =>
    readPast_eq_ok.mpr (Text.cutPast_local hcut rest')⟩

/-- Reading a value takes the value and its quotes, whatever follows. -/
theorem takes_readQuoted {cs rest : List Char} {value : String}
    (h : readQuoted cs = .ok (value, rest)) :
    ∃ q used, isBlank q = false ∧ cs = q :: used ++ rest ∧ Takes readQuoted (q :: used) value := by
  cases cs with
  | nil => cases h
  | cons q body =>
    by_cases hq : q = '"' ∨ q = '\''
    · rw [readQuoted, if_pos hq] at h
      cases hcut : Text.cutAt q body with
      | none => simp [hcut] at h
      | some cut =>
        obtain ⟨inside, rest'⟩ := cut
        simp only [hcut, Except.ok.injEq, Prod.mk.injEq] at h
        obtain ⟨rfl, rfl⟩ := h
        have hblank : isBlank q = false := by rcases hq with rfl | rfl <;> decide
        refine ⟨q, inside ++ [q], hblank, ?_, fun more => ?_⟩
        · simp [Text.eq_append_of_cutAt hcut]
        · have htext : q :: (inside ++ [q]) ++ more = q :: (inside ++ q :: more) := by simp
          rw [htext, readQuoted, if_pos hq, Text.cutAt_local hcut]
    · rw [readQuoted, if_neg hq] at h
      cases h

/-- What a text starts with does not depend on what follows its first character. -/
theorem head?_append_cons (before : List Char) (c : Char) (rest rest' : List Char) :
    (before ++ c :: rest).head? = (before ++ c :: rest').head? := by
  cases before <;> rfl

/-- Reading an attribute takes it, whatever follows. -/
theorem takes_readAttribute {cs rest : List Char} {pair : String × String}
    (h : readAttribute cs = .ok (pair, rest)) :
    ∃ c used, endsName c = false ∧ cs = c :: used ++ rest ∧
      Takes readAttribute (c :: used) pair := by
  obtain ⟨⟨key, rest₁⟩, hname, hread⟩ := bind_eq_ok.mp h
  dsimp only at hread
  obtain ⟨hkey, rfl, hends⟩ := readName_eq_ok.mp hname
  split at hread
  · rename_i body hbody
    obtain ⟨⟨value, rest₂⟩, hquoted, heq⟩ := bind_pure_eq_ok.mp hread
    cases heq
    obtain ⟨q, used, hq, htrim, htakes⟩ := takes_readQuoted hquoted
    -- the key, blanks, the sign, blanks and the value
    obtain ⟨blanks₁, rfl, -, hlocal₁⟩ := Text.trimStart_local hbody
    obtain ⟨blanks₂, rfl, -, hlocal₂⟩ := Text.trimStart_local htrim
    obtain ⟨c, name, hcs, hc⟩ := hkey.exists_cons
    refine ⟨c, name ++ blanks₁ ++ '=' :: (blanks₂ ++ q :: used), hc, by simp [hcs], fun more => ?_⟩
    have htext : c :: (name ++ blanks₁ ++ '=' :: (blanks₂ ++ q :: used)) ++ more
        = key.toList ++ (blanks₁ ++ '=' :: (blanks₂ ++ q :: (used ++ more))) := by
      simp [hcs]
    have hkey' : readName (key.toList ++ (blanks₁ ++ '=' :: (blanks₂ ++ q :: (used ++ more))))
        = .ok (key, blanks₁ ++ '=' :: (blanks₂ ++ q :: (used ++ more))) := by
      refine readName_eq_ok.mpr ⟨hkey, rfl, fun d hd => hends d ?_⟩
      rwa [head?_append_cons blanks₁ '=' _ (blanks₂ ++ q :: (used ++ more))]
    have hvalue : readQuoted (q :: (used ++ more)) = .ok (value, more) := htakes more
    rw [htext, readAttribute, hkey']
    simp only [bind, Except.bind, hlocal₁, hlocal₂, hvalue]
    rfl
  · cases hread

/-- The attributes of a tag are read up to its end, which is part of what is taken. -/
theorem takes_readAttributes {cs rest : List Char} {result : List (String × String) × Bool}
    (h : readAttributes cs = .ok (result, rest)) :
    ∃ used, cs = used ++ rest ∧ Takes readAttributes used result := by
  fun_induction readAttributes cs generalizing result rest with
  | case1 => cases h
  | case2 cs rest' hcs =>
    cases h
    obtain ⟨blanks, rfl, -, hlocal⟩ := Text.trimStart_local hcs
    refine ⟨blanks ++ ['/', '>'], by simp, fun more => readAttributes_single ?_⟩
    simpa using hlocal ('>' :: more)
  | case3 cs rest' hcs =>
    cases h
    obtain ⟨blanks, rfl, -, hlocal⟩ := Text.trimStart_local hcs
    refine ⟨blanks ++ ['>'], by simp, fun more => readAttributes_start ?_⟩
    simpa using hlocal more
  | case4 => cases h
  | case5 cs c body _ _ hcs pair rest' hread ih =>
    obtain ⟨⟨⟨attributes, closed⟩, rest''⟩, hmore, heq⟩ := bind_pure_eq_ok.mp h
    cases heq
    -- blanks, one attribute, and the others up to the end of the tag
    obtain ⟨blanks, rfl, -, hlocal⟩ := Text.trimStart_local hcs
    obtain ⟨d, first, hd, htext, hfirst⟩ := takes_readAttribute hread
    obtain ⟨others, rfl, hothers⟩ := ih hmore
    cases htext
    refine ⟨blanks ++ c :: (first ++ others), by simp, fun more => ?_⟩
    have htrim : trimStart (blanks ++ c :: (first ++ others) ++ more)
        = c :: (first ++ (others ++ more)) := by
      simpa using hlocal (first ++ (others ++ more))
    rw [readAttributes_cons htrim hd (hfirst (others ++ more)), hothers more]
    rfl

/-- Reading a tag takes it, whatever follows. -/
theorem takes_readTag {cs rest : List Char} {token : Token}
    (h : readTag cs = .ok (token, rest)) :
    ∃ c used, endsName c = false ∧ cs = c :: used ++ rest ∧ Takes readTag (c :: used) token := by
  obtain ⟨⟨name, rest₁⟩, hname, h⟩ := bind_eq_ok.mp h
  obtain ⟨⟨⟨attributes, closed⟩, rest₂⟩, hattributes, heq⟩ := bind_pure_eq_ok.mp h
  cases heq
  obtain ⟨hisName, rfl, hends⟩ := readName_eq_ok.mp hname
  obtain ⟨used, rfl, htakes⟩ := takes_readAttributes hattributes
  obtain ⟨c, cs, hcs, hc⟩ := hisName.exists_cons
  cases used with
  | nil =>
    -- the end of the tag is part of what is taken
    have hnil := htakes []
    rw [List.append_nil, readAttributes] at hnil
    simp [trimStart] at hnil
  | cons d used =>
    refine ⟨c, cs ++ d :: used, hc, by simp [hcs], fun more => ?_⟩
    have htext : c :: (cs ++ d :: used) ++ more = name.toList ++ (d :: used ++ more) := by
      simp [hcs]
    have hread : readName (name.toList ++ (d :: used ++ more)) = .ok (name, d :: used ++ more) :=
      readName_eq_ok.mpr ⟨hisName, rfl, hends⟩
    rw [htext, readTag, hread]
    simp only [bind, Except.bind, htakes more]
    rfl

/-! ### What a text starts with -/

/-- The characters that markup of a form starts with; none for a text. -/
def Opening.mark (form : Opening) : List Char :=
  (openingMarks.lookup form).getD []

/-- Each form has one mark in the table. -/
theorem Opening.mark_of_mem : ∀ entry ∈ openingMarks, entry.1.mark = entry.2 := by decide

/-- What a text starts with is followed by the rest of it. -/
theorem eq_append_of_opening {cs body : List Char} {form : Opening} (h : opening cs = (form, body)) :
    cs = form.mark ++ body := by
  unfold opening at h
  generalize hfind : openingMarks.findSome? _ = found at h
  cases found with
  | none =>
    cases h
    rfl
  | some found =>
    obtain ⟨entry, hentry, hafter⟩ := List.exists_of_findSome?_eq_some hfind
    obtain ⟨rest, hrest, rfl⟩ := Option.map_eq_some_iff.mp hafter
    cases h
    rw [Opening.mark_of_mem entry hentry]
    exact Text.eq_append_of_after? hrest

/-- A comment is told by its mark. -/
theorem opening_comment (cs : List Char) :
    opening ('<' :: '!' :: '-' :: '-' :: cs) = (.comment, cs) := by
  simp [opening_eq]

/-- A section of raw text is told by its mark. -/
theorem opening_cdata (cs : List Char) :
    opening ('<' :: '!' :: '[' :: 'C' :: 'D' :: 'A' :: 'T' :: 'A' :: '[' :: cs) = (.cdata, cs) := by
  simp [opening_eq]

/-- An instruction is told by its mark. -/
theorem opening_instruction (cs : List Char) :
    opening ('<' :: '?' :: cs) = (.instruction, cs) := by
  simp [opening_eq]

/-- A declaration starts neither like a comment nor like a section of character data. -/
theorem opening_declaration_iff {cs : List Char} :
    opening ('<' :: '!' :: cs) = (.declaration, cs) ↔
      ¬ ['-', '-'] <+: cs ∧ ¬ ['[', 'C', 'D', 'A', 'T', 'A', '['] <+: cs := by
  constructor
  · intro h
    constructor
    · rintro ⟨rest, rfl⟩
      simp [opening_comment] at h
    · rintro ⟨rest, rfl⟩
      simp [opening_cdata] at h
  · rintro ⟨hcomment, hcdata⟩
    simp [opening_eq, hcomment, hcdata]

/-- The form of markup is decided before its end. -/
theorem opening_local {form : Opening} {before rest : List Char} (htext : form ≠ .text)
    (helement : form ≠ .element)
    (h : opening (form.mark ++ (before ++ '>' :: rest)) = (form, before ++ '>' :: rest))
    (rest' : List Char) :
    opening (form.mark ++ (before ++ '>' :: rest')) = (form, before ++ '>' :: rest') := by
  cases form with
  | comment => exact opening_comment _
  | cdata => exact opening_cdata _
  | instruction => exact opening_instruction _
  | closing => exact opening_closing _
  | declaration =>
    -- the bracket that ends the declaration also decides that no longer mark starts it
    obtain ⟨hcomment, hcdata⟩ := opening_declaration_iff.mp h
    have hdecided : ∀ mark : List Char, '>' ∉ mark → mark <+: before ++ '>' :: rest' →
        mark <+: before ++ '>' :: rest := fun mark hmark hprefix =>
      (Text.prefix_of_notMem hmark hprefix).trans (List.prefix_append _ _)
    exact opening_declaration_iff.mpr ⟨fun hprefix => hcomment (hdecided _ (by decide) hprefix),
      fun hprefix => hcdata (hdecided _ (by decide) hprefix)⟩
  | element => exact absurd rfl helement
  | text => exact absurd rfl htext

/-- Markup with an end mark of its own is read up to there, whatever follows. -/
theorem readPast_local {cs body finish before rest : List Char} {form : Opening}
    {context : Unfinished} (htext : form ≠ .text) (helement : form ≠ .element)
    (hfinish : finish.getLast? = some '>') (hopen : opening cs = (form, body))
    (hread : readPast finish context body = .ok (before, rest)) :
    ∃ used, used ≠ [] ∧ cs = used ++ rest ∧ ∀ rest', ∃ body',
      opening (used ++ rest') = (form, body') ∧
        readPast finish context body' = .ok (before, rest') := by
  obtain ⟨init, rfl⟩ := List.getLast?_eq_some_iff.mp hfinish
  obtain ⟨rfl, htakes⟩ := takes_readPast hread
  have hcs := eq_append_of_opening hopen
  have hshape : ∀ more, before ++ (init ++ ['>']) ++ more = before ++ init ++ '>' :: more := by simp
  refine ⟨form.mark ++ (before ++ (init ++ ['>'])), by simp, by simp [hcs], fun rest' => ?_⟩
  refine ⟨before ++ (init ++ ['>']) ++ rest', ?_, htakes rest'⟩
  rw [hcs, hshape] at hopen
  rw [List.append_assoc, hshape]
  exact opening_local htext helement hopen rest'

/-! ### Tokens -/

/-- The token as it is read at another place. -/
def Token.movedTo (place : List Char) : Token → Token
  | .closing name _ => .closing name place
  | token => token

/-- `rest'` may stand in the place of `rest` without being taken for the end of a text before it: it
    is empty, or it starts with markup or like `rest`. -/
def MayReplace (rest rest' : List Char) : Prop :=
  ∀ c ∈ rest'.head?, c = '<' ∨ c ∈ rest.head?

/-- A text behind another one starts like that one. -/
theorem MayReplace.append {rest rest' : List Char} (h : MayReplace rest rest') (used : List Char) :
    MayReplace (used ++ rest) (used ++ rest') := by
  cases used with
  | nil => exact h
  | cons c used => exact fun d hd => .inr hd

/-- **A token is read in the same way, whatever follows it.** -/
theorem scanToken_local {cs rest : List Char} {token : Option Token} (hcs : cs ≠ [])
    (h : scanToken cs = .ok (token, rest)) :
    ∃ used, used ≠ [] ∧ cs = used ++ rest ∧ ∀ rest', MayReplace rest rest' →
      scanToken (used ++ rest') = .ok (token.map (·.movedTo (used ++ rest')), rest') := by
  unfold scanToken at h
  split at h
  case h_6 body hopen =>
    obtain ⟨rfl, hbang, hquestion⟩ := eq_of_opening_element hopen
    obtain ⟨⟨token', _⟩, hread, heq⟩ := bind_pure_eq_ok.mp h
    cases heq
    obtain ⟨c, used, hc, rfl, htakes⟩ := takes_readTag hread
    refine ⟨'<' :: c :: used, by simp, by simp, fun rest' _ => ?_⟩
    have hslash : c ≠ '/' := by
      rintro rfl
      cases hc
    have hopen' : opening ('<' :: (c :: used ++ rest')) = (.element, c :: used ++ rest') :=
      opening_element hbang hquestion (by simpa using hslash)
    have hmoved : token'.movedTo ('<' :: (c :: used ++ rest')) = token' := by
      obtain ⟨tag, rfl | rfl, -⟩ := readTag_cases hread
      · rfl
      · rfl
    rw [List.cons_append, scanToken, hopen']
    simp only [htakes rest', Option.map_some, hmoved]
    rfl
  case h_7 body hopen =>
    cases h
    obtain ⟨htext, hhead⟩ | ⟨hnot, -⟩ := opening_cases cs
    · obtain rfl : body = cs := congrArg Prod.snd (hopen.symm.trans htext)
      -- the text does not start with markup
      have hne : body.takeWhile (· != '<') ≠ [] := by
        obtain ⟨c, cs, rfl⟩ := List.exists_cons_of_ne_nil hcs
        simpa using hhead
      refine ⟨body.takeWhile (· != '<'), hne, List.takeWhile_append_dropWhile.symm,
        fun rest' hrest' => ?_⟩
      refine scanToken_text hne (fun hmem => ?_) fun c hc => ?_
      · simpa using List.mem_takeWhile_imp hmem
      · rcases hrest' c hc with hmarkup | hsame
        · exact hmarkup
        · have hstop := List.head?_dropWhile_not (· != '<') body
          rw [Option.mem_def.mp hsame] at hstop
          simpa using hstop
    · simp [hopen] at hnot
  -- the other forms have an end mark
  all_goals
    rename_i body hopen
    obtain ⟨⟨before, tail⟩, hread, heq⟩ := bind_pure_eq_ok.mp h
    cases heq
    obtain ⟨used, hne, rfl, hlocal⟩ := readPast_local (by decide) (by decide) rfl hopen hread
    refine ⟨used, hne, rfl, fun rest' _ => ?_⟩
    obtain ⟨body', hopen', hread'⟩ := hlocal rest'
    simp only [scanToken, hopen', hread']
    rfl

/-! ### Runs of tokens -/

/-- The tokens agree but for the places where they stand. -/
def Token.Alike (token token' : Token) : Prop :=
  ∃ place, token' = token.movedTo place

/-- The scanner reads `tokens` from the start of a text and comes to the place `rest` in it. -/
inductive Scans : List Char → List Token → List Char → Prop
  | done {cs : List Char} : Scans cs [] cs
  | token {cs rest rest' : List Char} {token : Option Token} {tokens : List Token} (hcs : cs ≠ [])
      (hscan : scanToken cs = .ok (token, rest)) (hrest : Scans rest tokens rest') :
      Scans cs (token.toList ++ tokens) rest'

namespace Scans

variable {cs rest : List Char} {tokens : List Token}

/-- **What was scanned would have been scanned with another text behind it**, up to the places of the
    tokens. -/
theorem replace (h : Scans cs tokens rest) :
    ∃ used, cs = used ++ rest ∧ ∀ rest', MayReplace rest rest' →
      ∃ tokens', Scans (used ++ rest') tokens' rest' ∧ List.Forall₂ Token.Alike tokens tokens' := by
  induction h with
  | done => exact ⟨[], rfl, fun rest' _ => ⟨[], .done, .nil⟩⟩
  | @token cs _ rest token tokens hcs hscan _ ih =>
    -- the first token sees what the others use up, and what may be put in place of the rest
    obtain ⟨used₂, rfl, hmore⟩ := ih
    obtain ⟨used₁, hne, rfl, hlocal⟩ := scanToken_local hcs hscan
    refine ⟨used₁ ++ used₂, by simp, fun rest' hrest' => ?_⟩
    obtain ⟨tokens', hscans, halike⟩ := hmore rest' hrest'
    have hfirst := hlocal (used₂ ++ rest') (hrest'.append used₂)
    rw [List.append_assoc]
    refine ⟨_, .token (by simp [hne]) hfirst hscans, ?_⟩
    cases token with
    | none => exact halike
    | some token => exact .cons ⟨_, rfl⟩ halike

/-- Only tags that can be written are read. -/
theorem writable (h : Scans cs tokens rest) :
    ∀ token ∈ tokens, ∀ tag ∈ token.tag?, tag.Writable := by
  induction h with
  | done => simp
  | @token _ _ _ token _ _ hscan _ ih =>
    intro token' hmem
    rcases List.mem_append.mp hmem with hfirst | hmore
    · rw [Option.mem_toList.mp hfirst] at hscan
      exact writable_of_scanToken hscan
    · exact ih token' hmore

end Scans

/-! ### Reading on -/

/-- A closing tag is added exactly if it closes the innermost open element. -/
theorem Builder.step_closing_eq_ok {b b' : Builder} {name : String} {place : List Char} :
    b.step (.closing name place) = .ok b' ↔ ∃ tag before outer, b.opened = (tag, before) :: outer ∧
      tag.name = name ∧ b' = ⟨.element tag b.nodes.reverse :: before, outer⟩ := by
  obtain ⟨nodes, opened⟩ := b
  cases opened with
  | nil => simp [Builder.step]
  | cons frame outer =>
    obtain ⟨tag, before⟩ := frame
    by_cases hname : tag.name = name
    · simp [Builder.step, hname, eq_comm]
    · simp [Builder.step, hname]

/-- Only closing tags are misplaced: if no element is open, or the innermost open one has another
    name. -/
theorem Builder.step_eq_error {b : Builder} {token : Token} {fault : Fault} :
    b.step token = .error fault ↔ ∃ name place, token = .closing name place ∧
      (b.opened = [] ∧ fault = .malformed place (.unexpectedClosing name) ∨
        ∃ tag before outer, b.opened = (tag, before) :: outer ∧ tag.name ≠ name ∧
          fault = .mismatchedTag place tag.name name) := by
  constructor
  · intro h
    cases token with
    | closing name place =>
      refine ⟨name, place, rfl, ?_⟩
      obtain ⟨nodes, opened⟩ := b
      cases opened with
      | nil =>
        cases h
        exact .inl ⟨rfl, rfl⟩
      | cons frame outer =>
        obtain ⟨tag, before⟩ := frame
        by_cases hname : tag.name = name
        · -- a closing tag of the right name is no error
          simp [Builder.step, hname] at h
        · simp only [Builder.step, if_neg hname] at h
          cases h
          exact .inr ⟨tag, before, outer, rfl, hname, rfl⟩
    | _ => cases h
  · rintro ⟨name, place, rfl, ⟨hopened, rfl⟩ | ⟨tag, before, outer, hopened, hname, rfl⟩⟩
    · simp [Builder.step, hopened]
    · simp [Builder.step, hopened, hname]

/-- Places have no say in whether a token can be added. -/
theorem Builder.step_alike {b b' : Builder} {token token' : Token} (h : token.Alike token')
    (hstep : b.step token = .ok b') : b.step token' = .ok b' := by
  obtain ⟨place, rfl⟩ := h
  cases token with
  | closing name _ => exact step_closing_eq_ok.mpr (step_closing_eq_ok.mp hstep)
  | _ => exact hstep

/-- Tokens that differ in their places only build the same. -/
theorem Builder.foldlM_alike {b b' : Builder} {tokens tokens' : List Token}
    (h : List.Forall₂ Token.Alike tokens tokens') (hfold : tokens.foldlM Builder.step b = .ok b') :
    tokens'.foldlM Builder.step b = .ok b' := by
  induction h generalizing b with
  | nil => exact hfold
  | cons hhead _ ih =>
    rw [List.foldlM_cons] at hfold ⊢
    obtain ⟨b₁, hstep, hrest⟩ := bind_eq_ok.mp hfold
    rw [Builder.step_alike hhead hstep]
    exact ih hrest

/-- What carries no content is passed over. -/
theorem resume_of_scanToken_none {b : Builder} {cs rest : List Char} (hcs : cs ≠ [])
    (h : scanToken cs = .ok (none, rest)) : resume b cs = resume b rest := by
  simp only [resume, scan_of_scanToken hcs h, Option.toList_none, List.nil_append]

/-- Where no token can be read, reading ends with the fault. -/
theorem resume_of_scanToken_error {b : Builder} {cs : List Char} {fault : Fault} (hcs : cs ≠ [])
    (h : scanToken cs = .error fault) : resume b cs = .error fault := by
  obtain ⟨c, cs, rfl⟩ := List.exists_cons_of_ne_nil hcs
  have hscan : scan (c :: cs) = ([], some fault) := by
    rw [scan]
    split
    · rename_i heq
      rw [h] at heq
      cases heq
      rfl
    · rename_i heq
      rw [h] at heq
      cases heq
  rw [resume, hscan]
  rfl

/-- Reading goes on behind what was scanned. -/
theorem Scans.resume {cs rest : List Char} {tokens : List Token} (h : Scans cs tokens rest)
    {b b' : Builder} (hfold : tokens.foldlM Builder.step b = .ok b') :
    resume b cs = Markup.resume b' rest := by
  induction h generalizing b with
  | done =>
    cases hfold
    rfl
  | @token _ _ _ token _ hcs hscan _ ih =>
    cases token with
    -- comments and the like give no token
    | none => rw [resume_of_scanToken_none hcs hscan, ih hfold]
    | some token =>
      rw [Option.toList_some, List.singleton_append, List.foldlM_cons] at hfold
      obtain ⟨b₁, hstep, hmore⟩ := bind_eq_ok.mp hfold
      rw [resume_of_scanToken hcs hscan, hstep]
      exact ih hmore

/-- **Reading comes to the same place with another text behind it.** -/
theorem Scans.resume_replace {cs rest : List Char} {tokens : List Token} (h : Scans cs tokens rest)
    {b b' : Builder} (hfold : tokens.foldlM Builder.step b = .ok b') :
    ∃ used, cs = used ++ rest ∧ ∀ rest', MayReplace rest rest' →
      Markup.resume b (used ++ rest') = Markup.resume b' rest' := by
  obtain ⟨used, hcs, hreplace⟩ := h.replace
  refine ⟨used, hcs, fun rest' hrest' => ?_⟩
  obtain ⟨tokens', hscans, halike⟩ := hreplace rest' hrest'
  exact hscans.resume (Builder.foldlM_alike halike hfold)

/-- Where reading comes to its outcome: at the end of the text, at a place that cannot be read, or at
    a token that cannot stand there. -/
inductive Stop (b : Builder) : List Char → Except Fault (List Node) → Prop
  | atEnd : Stop b [] b.finish
  | unreadable {cs : List Char} {fault : Fault} (hscan : scanToken cs = .error fault) :
      Stop b cs (.error fault)
  | misplaced {cs rest : List Char} {token : Token} {fault : Fault}
      (hscan : scanToken cs = .ok (some token, rest)) (hstep : b.step token = .error fault) :
      Stop b cs (.error fault)

/-- **Reading goes through tokens to the place where its outcome is decided.** -/
theorem exists_stop (b : Builder) (cs : List Char) :
    ∃ tokens rest b', Scans cs tokens rest ∧ tokens.foldlM Builder.step b = .ok b' ∧
      Stop b' rest (resume b cs) := by
  fun_induction scan cs generalizing b with
  | case1 =>
    rw [resume_nil]
    exact ⟨[], [], b, .done, rfl, .atEnd⟩
  | case2 c cs fault hscan =>
    rw [resume_of_scanToken_error (List.cons_ne_nil c cs) hscan]
    exact ⟨[], _, b, .done, rfl, .unreadable hscan⟩
  | case3 c cs token rest hscan _ _ _ ih =>
    have hcs := List.cons_ne_nil c cs
    cases token with
    | none =>
      obtain ⟨tokens, rest', b', hscans, hfold, hstop⟩ := ih b
      rw [resume_of_scanToken_none hcs hscan]
      exact ⟨tokens, rest', b', .token hcs hscan hscans, hfold, hstop⟩
    | some token =>
      rw [resume_of_scanToken hcs hscan]
      -- a token that can be read may still not fit
      cases hstep : b.step token with
      | error fault => exact ⟨[], _, b, .done, rfl, .misplaced hscan hstep⟩
      | ok b₁ =>
        obtain ⟨tokens, rest', b', hscans, hfold, hstop⟩ := ih b₁
        refine ⟨token :: tokens, rest', b', .token hcs hscan hscans, ?_, hstop⟩
        rw [List.foldlM_cons, hstep]
        exact hfold

/-- Reading may end where no element is open. -/
theorem Builder.finish_eq_ok {b : Builder} {nodes : List Node} :
    b.finish = .ok nodes ↔ b.opened = [] ∧ nodes = b.nodes.reverse := by
  obtain ⟨read, opened⟩ := b
  cases opened with
  | nil => simp [Builder.finish, eq_comm]
  | cons frame outer => simp [Builder.finish]

/-- A text is read exactly if its tokens leave no element open. -/
theorem resume_eq_ok {b : Builder} {cs : List Char} {nodes : List Node} :
    resume b cs = .ok nodes ↔ ∃ tokens read, Scans cs tokens [] ∧
      tokens.foldlM Builder.step b = .ok ⟨read, []⟩ ∧ nodes = read.reverse := by
  constructor
  · intro h
    obtain ⟨tokens, rest, ⟨read, opened⟩, hscans, hfold, hstop⟩ := exists_stop b cs
    generalize hresult : resume b cs = result at hstop
    cases hstop with
    | atEnd =>
      obtain ⟨hopened, hnodes⟩ := Builder.finish_eq_ok.mp (hresult.symm.trans h)
      dsimp only at hopened hnodes
      exact ⟨tokens, read, hscans, hopened ▸ hfold, hnodes⟩
    | unreadable => cases hresult.symm.trans h
    | misplaced => cases hresult.symm.trans h
  · rintro ⟨tokens, read, hscans, hfold, rfl⟩
    rw [hscans.resume hfold, resume_nil]
    rfl

/-- A string is read exactly if its characters are. -/
theorem parseFragment_eq_ok {s : String} {nodes : List Node} :
    parseFragment s = .ok nodes ↔ readNodes s.toList = .ok nodes := by
  rw [parseFragment]
  cases readNodes s.toList <;> simp [Except.mapError]

end InheritDoc.Markup
