import InheritDoc.Proofs.Markup.Locality
import InheritDoc.Proofs.Markup.Normalization

namespace InheritDoc.Markup

open Text (trimStart trimStart_suffix)

/-!
# Where errors point

The place of an error is a number of bytes.  It lies between two characters of the text, and an error
about a closing tag points at that tag: the text before it could be read, but for what is still open.

* `Lexical`         : faults in the middle of a token;
* `readAttributes_error`, `readTag_error`, `scanToken_error` : readers fail at a place in their text;
* `StartsWithClosing`, `scanToken_closing_eq` : closing tags as they are read;
* `Breaks`, `exists_break` : where and why a text cannot be read any further;
* `parseFragment_error_place` : **errors point at the right place.**
-/

/-! ### Faults of readers -/

/-- A fault in the middle of a token: the text ends, or something other than a closing tag is wrong at
    a place in it. -/
inductive Lexical (cs : List Char) : Fault → Prop
  | unexpectedEnd {context : Unfinished} : Lexical cs (.unexpectedEnd context)
  | malformed {place : List Char} {what : Malformation} (hplace : place <:+ cs)
      (hwhat : ∀ found, what ≠ .unexpectedClosing found) : Lexical cs (.malformed place what)

/-- A place in the rest of a text is a place in the text. -/
theorem Lexical.mono {cs rest : List Char} {fault : Fault} (h : Lexical rest fault)
    (hrest : rest <:+ cs) : Lexical cs fault := by
  cases h with
  | unexpectedEnd => exact .unexpectedEnd
  | malformed hplace hwhat => exact .malformed (hplace.trans hrest) hwhat

/-- A missing mark is a lexical fault. -/
theorem readPast_error {mark cs : List Char} {context : Unfinished} {fault : Fault}
    (h : readPast mark context cs = .error fault) : Lexical cs fault := by
  unfold readPast at h
  split at h
  · cases h
  · cases h
    exact .unexpectedEnd

/-- A missing name is a lexical fault. -/
theorem readName_error {cs : List Char} {fault : Fault} (h : readName cs = .error fault) :
    Lexical cs fault := by
  unfold readName at h
  split at h
  · cases h
    exact .malformed (List.suffix_refl cs) (by simp)
  · cases h

/-- What follows a name is the rest of the text. -/
theorem readName_suffix {cs rest : List Char} {name : String} (h : readName cs = .ok (name, rest)) :
    rest <:+ cs :=
  ⟨name.toList, (readName_eq_ok.mp h).2.1.symm⟩

/-- A value that is not quoted or not ended is a lexical fault. -/
theorem readQuoted_error {cs : List Char} {fault : Fault} (h : readQuoted cs = .error fault) :
    Lexical cs fault := by
  unfold readQuoted at h
  split at h
  · split at h
    · split at h
      · cases h
      · cases h
        exact .unexpectedEnd
    · cases h
      exact .malformed (List.suffix_refl _) (by simp)
  · cases h
    exact .malformed (List.suffix_refl _) (by simp)

/-- The faults of an attribute are lexical. -/
theorem readAttribute_error {cs : List Char} {fault : Fault} (h : readAttribute cs = .error fault) :
    Lexical cs fault := by
  rcases bind_eq_error.mp h with hname | ⟨⟨key, rest⟩, hname, h⟩
  · exact readName_error hname
  · have hrest : trimStart rest <:+ cs := (trimStart_suffix rest).trans (readName_suffix hname)
    dsimp only at h
    split at h
    · rename_i body hbody
      rw [hbody] at hrest
      refine (readQuoted_error (bind_pure_eq_error.mp h)).mono ?_
      exact ((trimStart_suffix body).trans (List.suffix_cons '=' body)).trans hrest
    · cases h
      exact .malformed hrest (by simp)

/-- Attributes are read up to the first that is wrong. -/
theorem readAttributes_error {cs : List Char} {fault : Fault}
    (h : readAttributes cs = .error fault) : Lexical cs fault := by
  fun_induction readAttributes cs with
  | case1 =>
    cases h
    exact .unexpectedEnd
  | case2 => cases h
  | case3 => cases h
  -- the next attribute has the fault
  | case4 cs c body _ _ hcs fault' hread =>
    cases h
    exact (readAttribute_error hread).mono (hcs ▸ trimStart_suffix cs)
  -- the fault is in what follows the next attribute
  | case5 cs c body _ _ hcs pair rest hread ih =>
    obtain ⟨d, used, -, htext, -⟩ := takes_readAttribute hread
    have hrest : rest <:+ cs := by
      refine List.IsSuffix.trans ⟨d :: used, htext.symm⟩ ?_
      exact hcs ▸ trimStart_suffix cs
    exact (ih (bind_pure_eq_error.mp h)).mono hrest

/-- The faults of a tag are lexical. -/
theorem readTag_error {cs : List Char} {fault : Fault} (h : readTag cs = .error fault) :
    Lexical cs fault := by
  rcases bind_eq_error.mp h with hname | ⟨⟨name, rest⟩, hname, h⟩
  · exact readName_error hname
  · exact (readAttributes_error (bind_pure_eq_error.mp h)).mono (readName_suffix hname)

/-- What cannot be read is wrong at a place in it. -/
theorem scanToken_error {cs : List Char} {fault : Fault} (h : scanToken cs = .error fault) :
    Lexical cs fault := by
  have hbody : ∀ form body, opening cs = (form, body) → body <:+ cs := fun form body hopen =>
    ⟨form.mark, (eq_append_of_opening hopen).symm⟩
  unfold scanToken at h
  split at h
  case h_6 body hopen =>
    exact (readTag_error (bind_pure_eq_error.mp h)).mono (hbody _ _ hopen)
  case h_7 => cases h
  all_goals
    rename_i body hopen
    exact (readPast_error (bind_pure_eq_error.mp h)).mono (hbody _ _ hopen)

/-! ### Closing tags -/

/-- The string starts with a closing tag, whose name is `name` but for blanks around it. -/
def StartsWithClosing (name text : String) : Prop :=
  ∃ written rest, text = "</" ++ written ++ ">" ++ rest ∧ '>' ∉ written.toList ∧
    Text.trimString written = name

/-- A closing tag is read where it stands. -/
theorem scanToken_closing_eq {cs place rest : List Char} {name : String}
    (h : scanToken cs = .ok (some (.closing name place), rest)) :
    place = cs ∧ StartsWithClosing name (String.ofList cs) := by
  unfold scanToken at h
  split at h
  case h_5 body hopen =>
    obtain ⟨⟨written, tail⟩, hread, heq⟩ := bind_pure_eq_ok.mp h
    cases heq
    have hcut := readPast_eq_ok.mp hread
    -- the text is the mark, the name up to the first bracket, and the rest
    have hcs : cs = '<' :: '/' :: (written ++ '>' :: tail) := by
      have hmark : Opening.closing.mark = ['<', '/'] := rfl
      rw [eq_append_of_opening hopen, Text.eq_append_of_cutPast hcut, hmark]
      simp
    refine ⟨rfl, String.ofList written, String.ofList tail, ?_, ?_, ?_⟩
    · apply String.toList_injective
      simp [hcs]
    · simpa using Text.notMem_of_cutPast hcut
    · rw [Text.trimString, String.toList_ofList]
  case h_6 body hopen =>
    obtain ⟨⟨token, _⟩, hread, heq⟩ := bind_pure_eq_ok.mp h
    cases heq
    obtain ⟨tag, htag | htag, -⟩ := readTag_cases hread
    · cases htag
    · cases htag
  case h_7 => cases h
  -- no other form of token closes anything
  all_goals
    obtain ⟨_, _, heq⟩ := bind_pure_eq_ok.mp h
    cases heq

/-! ### Where reading breaks off -/

/-- Why a text cannot be read any further than to `rest`, with what was read before. -/
inductive Breaks (b : Builder) (rest : List Char) : Fault → Prop
  | lexical {fault : Fault} (hfault : Lexical rest fault) : Breaks b rest fault
  | unexpected {name : String} (hclosing : StartsWithClosing name (String.ofList rest))
      (hopened : b.opened = []) : Breaks b rest (.malformed rest (.unexpectedClosing name))
  | mismatched {name : String} {tag : Tag} {before : List Node} {outer : List (Tag × List Node)}
      (hclosing : StartsWithClosing name (String.ofList rest))
      (hopened : b.opened = (tag, before) :: outer) (hname : tag.name ≠ name) :
      Breaks b rest (.mismatchedTag rest tag.name name)

/-- **A text that cannot be read breaks off behind tokens that can.** -/
theorem exists_break {cs : List Char} {fault : Fault} (h : readNodes cs = .error fault) :
    ∃ tokens rest b, Scans cs tokens rest ∧ tokens.foldlM Builder.step {} = .ok b ∧
      Breaks b rest fault := by
  obtain ⟨tokens, rest, b, hscans, hfold, hstop⟩ := exists_stop {} cs
  rw [← readNodes_eq_resume, h] at hstop
  refine ⟨tokens, rest, b, hscans, hfold, ?_⟩
  -- reading stops at the end, at what is no token, or at a token that does not fit
  generalize hresult : (Except.error fault : Except Fault (List Node)) = result at hstop
  cases hstop with
  | atEnd =>
    unfold Builder.finish at hresult
    split at hresult
    · cases hresult
    · cases hresult
      exact .lexical .unexpectedEnd
  | unreadable hscan =>
    cases hresult
    exact .lexical (scanToken_error hscan)
  | misplaced hscan hstep =>
    cases hresult
    obtain ⟨name, place, rfl, hcases⟩ := Builder.step_eq_error.mp hstep
    obtain ⟨rfl, hclosing⟩ := scanToken_closing_eq hscan
    rcases hcases with ⟨hopened, rfl⟩ | ⟨tag, before, outer, hopened, hname, rfl⟩
    · exact .unexpected hclosing hopened
    · exact .mismatched hclosing hopened hname

/-- A fault is placed in the text where reading broke off. -/
theorem Breaks.place_suffix {b : Builder} {rest place : List Char} {what : Malformation}
    (h : Breaks b rest (.malformed place what)) : place <:+ rest := by
  cases h with
  | lexical hfault =>
    cases hfault with
    | malformed hplace _ => exact hplace
  | unexpected => exact List.suffix_refl _

/-- A place that is pointed at is a place in the text. -/
theorem suffix_of_malformed {cs place : List Char} {what : Malformation}
    (h : readNodes cs = .error (.malformed place what)) : place <:+ cs := by
  obtain ⟨tokens, rest, b, hscans, -, hbreaks⟩ := exists_break h
  obtain ⟨used, rfl, -⟩ := hscans.replace
  exact hbreaks.place_suffix.trans (List.suffix_append used rest)

/-- The text before a closing tag that nothing is open for can be read. -/
theorem readNodes_before_unexpected {cs place : List Char} {found : String}
    (h : readNodes cs = .error (.malformed place (.unexpectedClosing found))) :
    ∃ used, cs = used ++ place ∧ StartsWithClosing found (String.ofList place) ∧
      ∃ nodes, readNodes used = .ok nodes := by
  obtain ⟨tokens, rest, ⟨read, opened⟩, hscans, hfold, hbreaks⟩ := exists_break h
  cases hbreaks with
  | lexical hfault =>
    cases hfault with
    | malformed _ hwhat => exact absurd rfl (hwhat found)
  | unexpected hclosing hopened =>
    cases hopened
    -- what was read before the fault is read in the same way if nothing follows
    obtain ⟨used, rfl, hreplace⟩ := hscans.resume_replace hfold
    have hread := hreplace [] (by simp [MayReplace])
    rw [List.append_nil, resume_nil] at hread
    exact ⟨used, rfl, hclosing, read.reverse, hread⟩

/-- With the closing tag of the innermost open element the text before another one can be read, but
    for the elements further out. -/
theorem readNodes_before_mismatched {cs place : List Char} {expected found : String}
    (h : readNodes cs = .error (.mismatchedTag place expected found)) :
    ∃ used, cs = used ++ place ∧ StartsWithClosing found (String.ofList place) ∧ expected ≠ found ∧
      ((∃ nodes, readNodes (used ++ '<' :: '/' :: (expected.toList ++ ['>'])) = .ok nodes) ∨
        readNodes (used ++ '<' :: '/' :: (expected.toList ++ ['>']))
          = .error (.unexpectedEnd .element)) := by
  obtain ⟨tokens, rest, b, hscans, hfold, hbreaks⟩ := exists_break h
  cases hbreaks with
  | lexical hfault => cases hfault
  | @mismatched _ tag before outer hclosing hopened hname =>
    obtain ⟨used, rfl, hreplace⟩ := hscans.resume_replace hfold
    have hnormal : b.Normal := Builder.Normal.foldlM hscans.writable ⟨.nil, by simp⟩ hfold
    have htag : tag.Writable := (hnormal.opened (tag, before) (by simp [hopened])).1
    refine ⟨used, rfl, hclosing, hname, ?_⟩
    generalize hclosed : '<' :: '/' :: (tag.name.toList ++ ['>']) = closed
    have hmarkup : MayReplace place closed := by simp [MayReplace, ← hclosed]
    -- the closing tag leaves the elements further out open, if there are any
    have hread : readNodes (used ++ closed)
        = Builder.finish ⟨.element tag b.nodes.reverse :: before, outer⟩ := by
      have hstep : ∀ place, b.step (.closing tag.name place)
          = .ok ⟨.element tag b.nodes.reverse :: before, outer⟩ := fun place =>
        Builder.step_closing_eq_ok.mpr ⟨tag, before, outer, hopened, rfl, rfl⟩
      rw [readNodes_eq_resume, hreplace closed hmarkup, ← hclosed,
        resume_of_scanToken (by simp) (scanToken_closing htag.name []), hstep]
      exact resume_nil _
    rw [hread]
    cases outer with
    | nil => exact .inl ⟨_, rfl⟩
    | cons frame outer => exact .inr rfl

/-! ### Bytes -/

theorem byteSize_append (cs ds : List Char) : byteSize (cs ++ ds) = byteSize cs + byteSize ds := by
  induction cs with
  | nil => simp [byteSize]
  | cons c cs ih => simp only [List.cons_append, byteSize, ih, Nat.add_assoc]

/-- The size in bytes is that of the text as a string. -/
theorem byteSize_eq (cs : List Char) : byteSize cs = (String.ofList cs).utf8ByteSize := by
  induction cs with
  | nil => rfl
  | cons c cs ih =>
    rw [byteSize, String.ofList_cons, String.utf8ByteSize_append, String.utf8ByteSize_singleton, ih]

/-- The text is `before` and `after`, with `offset` bytes in `before`. -/
structure CutAtByte (text : String) (offset : Nat) (before after : String) : Prop where
  text_eq : text = before ++ after
  size_eq : before.utf8ByteSize = offset

/-- Such a place lies in the text, between two characters. -/
theorem CutAtByte.isValid {text before after : String} {offset : Nat}
    (h : CutAtByte text offset before after) :
    offset ≤ text.utf8ByteSize ∧ String.Pos.Raw.IsValid text ⟨offset⟩ := by
  obtain ⟨rfl, rfl⟩ := h
  constructor
  · rw [String.utf8ByteSize_append]
    omega
  · exact String.Pos.Raw.isValid_iff_exists_append.mpr ⟨before, after, rfl, rfl⟩

/-- The number of bytes before a place is where the text is cut. -/
theorem cutAtByte_of_append {text : String} {used place : List Char}
    (h : text.toList = used ++ place) :
    CutAtByte text (byteSize text.toList - byteSize place) (String.ofList used)
      (String.ofList place) := by
  constructor
  · rw [← String.ofList_append, ← h, String.ofList_toList]
  · rw [h, byteSize_append, Nat.add_sub_cancel, byteSize_eq]

/-! ### Strings -/

/-- An error of a string is one of its characters, with its place counted in bytes. -/
theorem parseFragment_eq_error {text : String} {e : ReadError Nat}
    (h : parseFragment text = .error e) :
    ∃ fault, readNodes text.toList = .error fault ∧
      e = fault.map fun place => byteSize text.toList - byteSize place := by
  rw [parseFragment] at h
  cases hread : readNodes text.toList with
  | error fault =>
    rw [hread] at h
    cases h
    exact ⟨fault, rfl, rfl⟩
  | ok nodes =>
    rw [hread] at h
    cases h

/-- An error in a string whose place is not known is the same as that in its characters. -/
theorem parseFragment_of_unexpectedEnd {text : String} {context : Unfinished}
    (h : readNodes text.toList = .error (.unexpectedEnd context)) :
    parseFragment text = .error (.unexpectedEnd context) := by
  rw [parseFragment, h]
  rfl

/-- **Errors point at the right place**, in the text and between two characters.

    A closing tag that nothing is open for stands there, and the text before it can be read.  So does
    one that is not that of the innermost open element: with the closing tag of this element instead,
    the text before it can be read, but for the elements further out. -/
theorem parseFragment_error_place {text : String} {e : ReadError Nat}
    (h : parseFragment text = .error e) :
    (∀ offset what, e = .malformed offset what →
      (offset ≤ text.utf8ByteSize ∧ String.Pos.Raw.IsValid text ⟨offset⟩) ∧
      ∀ found, what = .unexpectedClosing found →
        ∃ before after, CutAtByte text offset before after ∧ StartsWithClosing found after ∧
          ∃ nodes, parseFragment before = .ok nodes) ∧
    (∀ offset expected found, e = .mismatchedTag offset expected found →
      (offset ≤ text.utf8ByteSize ∧ String.Pos.Raw.IsValid text ⟨offset⟩) ∧
      ∃ before after, CutAtByte text offset before after ∧ StartsWithClosing found after ∧
        found ≠ expected ∧
        ((∃ nodes, parseFragment (before ++ "</" ++ expected ++ ">") = .ok nodes) ∨
          parseFragment (before ++ "</" ++ expected ++ ">") = .error (.unexpectedEnd .element))) := by
  obtain ⟨fault, hread, rfl⟩ := parseFragment_eq_error h
  constructor
  · intro offset what he
    cases fault with
    | malformed place what' =>
      cases he
      constructor
      · -- the place is what is left of the text, and the offset the size of what is not
        obtain ⟨used, hused⟩ := suffix_of_malformed hread
        exact (cutAtByte_of_append hused.symm).isValid
      · rintro found rfl
        obtain ⟨used, hused, hclosing, nodes, hnodes⟩ := readNodes_before_unexpected hread
        exact ⟨_, _, cutAtByte_of_append hused, hclosing, nodes,
          parseFragment_eq_ok.mpr (by rwa [String.toList_ofList])⟩
    | _ => cases he
  · intro offset expected found he
    cases fault with
    | mismatchedTag place expected' found' =>
      cases he
      obtain ⟨used, hused, hclosing, hname, hresult⟩ := readNodes_before_mismatched hread
      -- the tag that was expected may be put in at the offset
      have hcut := cutAtByte_of_append hused
      refine ⟨hcut.isValid, _, _, hcut, hclosing, hname.symm, ?_⟩
      have htext : (String.ofList used ++ "</" ++ expected ++ ">").toList
          = used ++ '<' :: '/' :: (expected.toList ++ ['>']) := by
        simp
      rw [← htext] at hresult
      rcases hresult with ⟨nodes, hnodes⟩ | hend
      · exact .inl ⟨nodes, parseFragment_eq_ok.mpr hnodes⟩
      · exact .inr (parseFragment_of_unexpectedEnd hend)
    | _ => cases he

/-- Characters of several bytes stand before the closing tag that does not fit, and it is the inner
    element that it should close. -/
theorem parseFragment_error_place_mismatched :
    parseFragment "é<a>ü<b>€</ a ></a>" = .error (.mismatchedTag 13 "b" "a") ∧
      String.Pos.Raw.IsValid "é<a>ü<b>€</ a ></a>" ⟨13⟩ ∧
      ∃ before after, CutAtByte "é<a>ü<b>€</ a ></a>" 13 before after ∧ StartsWithClosing "a" after ∧
        "a" ≠ "b" ∧
        ((∃ nodes, parseFragment (before ++ "</" ++ "b" ++ ">") = .ok nodes) ∨
          parseFragment (before ++ "</" ++ "b" ++ ">") = .error (.unexpectedEnd .element)) := by
  have h : parseFragment "é<a>ü<b>€</ a ></a>" = .error (.mismatchedTag 13 "b" "a") := by
    decide +kernel
  have hplace := (parseFragment_error_place h).2 13 "b" "a" rfl
  exact ⟨h, hplace.1.2, hplace.2⟩

end InheritDoc.Markup
