import InheritDoc.Markup.Token
import InheritDoc.Markup.Writer
import InheritDoc.Proofs.Markup.Escape
import InheritDoc.Proofs.Outcome
import InheritDoc.Proofs.Text.Cut
import Mathlib.Data.List.TakeWhile
import Mathlib.Tactic.SplitIfs

namespace InheritDoc.Markup

open Text (isBlank trim trimStart trimStart_of_head cutAt_append)

/-!
# Tags as they are written and read

* `IsName`, `Tag.Writable` : the names that tags can be written with;
* `readAttributes_writeAttributes`, `readTag_write`, `scanToken_tag` : tags with such names are read
  back;
* `isName_of_readAttributes`, `writable_of_scan` : only such names are read.
-/

/-! ### Names -/

/-- A name that can be written in a tag. -/
structure IsName (name : String) : Prop where
  nonempty : name ≠ ""
  chars : ∀ c ∈ name.toList, isBlank c = false ∧ c ∉ ['=', '>', '/', '<', '"', '\'']

/-- A tag whose names can be written.  A name after the left angle must not be taken for the start of
    a declaration or of an instruction. -/
structure Tag.Writable (tag : Tag) : Prop where
  name : IsName tag.name
  not_declaration : tag.name.toList.head? ≠ some '!'
  not_instruction : tag.name.toList.head? ≠ some '?'
  attributes : ∀ pair ∈ tag.attributes, IsName pair.1

instance (name : String) : Decidable (IsName name) :=
  decidable_of_iff (name ≠ "" ∧ ∀ c ∈ name.toList, isBlank c = false ∧
    c ∉ ['=', '>', '/', '<', '"', '\'']) ⟨fun h => ⟨h.1, h.2⟩, fun h => ⟨h.nonempty, h.chars⟩⟩

instance (tag : Tag) : Decidable tag.Writable :=
  decidable_of_iff (IsName tag.name ∧ tag.name.toList.head? ≠ some '!' ∧
    tag.name.toList.head? ≠ some '?' ∧ ∀ pair ∈ tag.attributes, IsName pair.1)
    ⟨fun h => ⟨h.1, h.2.1, h.2.2.1, h.2.2.2⟩,
      fun h => ⟨h.name, h.not_declaration, h.not_instruction, h.attributes⟩⟩

/-- The characters that may stand in a name. -/
theorem endsName_eq_false_iff {c : Char} :
    endsName c = false ↔ isBlank c = false ∧ c ∉ ['=', '>', '/', '<', '"', '\''] := by
  simp [endsName, and_assoc]

/-- No character of a name ends it. -/
theorem IsName.endsName {name : String} (h : IsName name) {c : Char} (hc : c ∈ name.toList) :
    endsName c = false :=
  endsName_eq_false_iff.mpr (h.chars c hc)

/-- A name has a first character, which does not end it. -/
theorem IsName.exists_cons {name : String} (h : IsName name) :
    ∃ c cs, name.toList = c :: cs ∧ Markup.endsName c = false := by
  obtain ⟨c, cs, hname⟩ := List.exists_cons_of_ne_nil (l := name.toList) (by simpa using h.nonempty)
  exact ⟨c, cs, hname, h.endsName (by simp [hname])⟩

/-- A name is read up to the first character that ends it. -/
theorem readName_eq_ok {cs rest : List Char} {name : String} :
    readName cs = .ok (name, rest) ↔
      IsName name ∧ cs = name.toList ++ rest ∧ ∀ c ∈ rest.head?, endsName c = true := by
  constructor
  · intro h
    unfold readName at h
    split at h
    · cases h
    · rename_i hne
      cases h
      refine ⟨⟨by simpa using hne, fun c hc => endsName_eq_false_iff.mp ?_⟩, ?_, fun c hc => ?_⟩
      · rw [String.toList_ofList] at hc
        simpa using List.mem_takeWhile_imp hc
      · rw [String.toList_ofList, List.takeWhile_append_dropWhile]
      · -- the name ends where a character ends it
        have hstop := List.head?_dropWhile_not (!endsName ·) cs
        rw [Option.mem_def.mp hc] at hstop
        simpa using hstop
  · rintro ⟨hname, rfl, hrest⟩
    have hspan : (name.toList ++ rest).span (!endsName ·) = (name.toList, rest) :=
      Text.span_append (fun c hc => by simp [hname.endsName hc]) (fun c hc => by simp [hrest c hc])
    rw [List.span_eq_takeWhile_dropWhile, Prod.mk.injEq] at hspan
    rw [readName, hspan.1, hspan.2, if_neg (by simpa using hname.nonempty), String.ofList_toList]

/-! ### Attributes -/

/-- A written attribute value is read back. -/
theorem readQuoted_escape (value : String) (rest : List Char) :
    readQuoted ('"' :: (escape true value.toList ++ '"' :: rest)) = .ok (value, rest) := by
  rw [readQuoted, if_pos (.inl rfl), cutAt_append (quote_notMem_escape _)]
  simp only [decodeEntities_escape, String.ofList_toList]

/-- A written attribute is read back. -/
theorem readAttribute_write {key : String} (hkey : IsName key) (value : String) (rest : List Char) :
    readAttribute (key.toList ++ '=' :: '"' :: (escape true value.toList ++ '"' :: rest))
      = .ok ((key, value), rest) := by
  have hname : readName (key.toList ++ '=' :: '"' :: (escape true value.toList ++ '"' :: rest))
      = .ok (key, '=' :: '"' :: (escape true value.toList ++ '"' :: rest)) :=
    readName_eq_ok.mpr ⟨hkey, rfl, by simp [endsName]⟩
  simp [readAttribute, hname, readQuoted_escape, trimStart, isBlank, bind, Except.bind, pure,
    Except.pure]

/-- The key of an attribute that is read is a name. -/
theorem isName_of_readAttribute {cs rest : List Char} {pair : String × String}
    (h : readAttribute cs = .ok (pair, rest)) : IsName pair.1 := by
  obtain ⟨⟨key, rest₁⟩, hname, h⟩ := bind_eq_ok.mp h
  dsimp only at h
  split at h
  · obtain ⟨⟨value, rest₂⟩, -, heq⟩ := bind_pure_eq_ok.mp h
    cases heq
    exact (readName_eq_ok.mp hname).1
  · cases h

/-- Unfolding lemma: where a tag does not end, an attribute is read. -/
theorem readAttributes_cons {cs body rest : List Char} {c : Char} {pair : String × String}
    (hcs : trimStart cs = c :: body) (hc : endsName c = false)
    (hread : readAttribute (c :: body) = .ok (pair, rest)) :
    readAttributes cs = (do
      let ((attributes, closed), rest) ← readAttributes rest
      return ((pair :: attributes, closed), rest)) := by
  rw [readAttributes]
  -- the text neither ends here nor does the tag, for both ends start with characters that end names
  split
  · rename_i heq
    rw [hcs] at heq
    cases heq
  · rename_i heq
    rw [hcs] at heq
    cases heq
    cases hc
  · rename_i heq
    rw [hcs] at heq
    cases heq
    cases hc
  · rename_i heq
    rw [hcs] at heq
    cases heq
    split
    · rename_i heq
      rw [hread] at heq
      cases heq
    · rename_i heq
      rw [hread] at heq
      cases heq
      rfl

/-- The attributes of a tag are read back, whatever the end of the tag is. -/
theorem readAttributes_writeAttributes {attributes : List (String × String)}
    (hattributes : ∀ pair ∈ attributes, IsName pair.1) {tail rest : List Char} {closed : Bool}
    (htail : readAttributes tail = .ok (([], closed), rest)) :
    readAttributes (writeAttributes attributes ++ tail) = .ok ((attributes, closed), rest) := by
  induction attributes with
  | nil => exact htail
  | cons pair attributes ih =>
    obtain ⟨key, value⟩ := pair
    rw [List.forall_mem_cons] at hattributes
    obtain ⟨c, cs, hkey, hc⟩ := hattributes.1.exists_cons
    have hread := readAttribute_write hattributes.1 value (writeAttributes attributes ++ tail)
    rw [hkey, List.cons_append] at hread
    -- the blank in front of the key is skipped
    have htrim : trimStart (writeAttributes ((key, value) :: attributes) ++ tail)
        = c :: (cs ++ '=' :: '"' :: (escape true value.toList ++ '"' ::
          (writeAttributes attributes ++ tail))) := by
      have hblank : isBlank c = false := (endsName_eq_false_iff.mp hc).1
      have hspace : isBlank ' ' = true := by decide
      simp [writeAttributes, hkey, trimStart, hblank, hspace]
    rw [readAttributes_cons htrim hc hread, ih hattributes.2]
    rfl

/-- The keys of all attributes that are read are names. -/
theorem isName_of_readAttributes {cs rest : List Char} {attributes : List (String × String)}
    {closed : Bool} (h : readAttributes cs = .ok ((attributes, closed), rest)) :
    ∀ pair ∈ attributes, IsName pair.1 := by
  fun_induction readAttributes cs generalizing attributes closed rest with
  | case1 => cases h
  | case2 => cases h; simp
  | case3 => cases h; simp
  | case4 => cases h
  | case5 cs c body _ _ _ pair rest' hread ih =>
    obtain ⟨⟨⟨more, closed'⟩, rest''⟩, hmore, heq⟩ := bind_pure_eq_ok.mp h
    cases heq
    exact List.forall_mem_cons.mpr ⟨isName_of_readAttribute hread, ih hmore⟩

/-! ### Tags -/

/-- A slash and a bracket end a tag that closes itself. -/
theorem readAttributes_single {cs rest : List Char} (hcs : trimStart cs = '/' :: '>' :: rest) :
    readAttributes cs = .ok (([], true), rest) := by
  rw [readAttributes]
  split <;> simp_all

/-- A bracket ends a start tag. -/
theorem readAttributes_start {cs rest : List Char} (hcs : trimStart cs = '>' :: rest) :
    readAttributes cs = .ok (([], false), rest) := by
  rw [readAttributes]
  split <;> simp_all

/-- The end of a tag also ends a name, as does an attribute before it. -/
theorem endsName_of_mem_head? {attributes : List (String × String)} {tail : List Char}
    (htail : ∀ c ∈ tail.head?, endsName c = true) {c : Char}
    (hc : c ∈ (writeAttributes attributes ++ tail).head?) : endsName c = true := by
  cases attributes with
  | nil => exact htail c hc
  | cons pair attributes =>
    obtain rfl : ' ' = c := by simpa [writeAttributes] using hc
    decide

/-- A tag is read back, whatever the end of the tag is. -/
theorem readTag_write {tag : Tag} (htag : tag.Writable) {tail rest : List Char} {closed : Bool}
    (hends : ∀ c ∈ tail.head?, endsName c = true)
    (htail : readAttributes tail = .ok (([], closed), rest)) :
    readTag (tag.name.toList ++ (writeAttributes tag.attributes ++ tail))
      = .ok (if closed then .single tag else .start tag, rest) := by
  have hname : readName (tag.name.toList ++ (writeAttributes tag.attributes ++ tail))
      = .ok (tag.name, writeAttributes tag.attributes ++ tail) :=
    readName_eq_ok.mpr ⟨htag.name, rfl, fun _ => endsName_of_mem_head? hends⟩
  have hattributes := readAttributes_writeAttributes htag.attributes htail
  rw [readTag, hname]
  simp only [bind, Except.bind, hattributes]
  rfl

/-- The names of a tag that is read can be written, but for the first character of the element's. -/
theorem readTag_cases {cs rest : List Char} {token : Token} (h : readTag cs = .ok (token, rest)) :
    ∃ tag : Tag, (token = .single tag ∨ token = .start tag) ∧ IsName tag.name ∧
      tag.name.toList.head? = cs.head? ∧ ∀ pair ∈ tag.attributes, IsName pair.1 := by
  obtain ⟨⟨name, rest₁⟩, hname, h⟩ := bind_eq_ok.mp h
  obtain ⟨⟨⟨attributes, closed⟩, rest₂⟩, hattributes, heq⟩ := bind_pure_eq_ok.mp h
  cases heq
  obtain ⟨hisName, rfl, -⟩ := readName_eq_ok.mp hname
  refine ⟨⟨name, attributes⟩, ?_, hisName, ?_, isName_of_readAttributes hattributes⟩
  · cases closed <;> simp
  · obtain ⟨c, cs, hcs, -⟩ := hisName.exists_cons
    simp [hcs]

/-! ### What a text starts with -/

/-- Searching a table entry by entry, with a default. -/
theorem getD_findSome?_cons {α β : Type} (f : α → Option β) (a : α) (as : List α) (b : β) :
    ((a :: as).findSome? f).getD b = (f a).getD ((as.findSome? f).getD b) := by
  rw [List.findSome?_cons]
  cases f a <;> rfl

/-- One entry of a table of marks. -/
theorem getD_map_after? {α : Type} (mark cs : List Char) (f : List Char → α) (a : α) :
    ((Text.after? mark cs).map f).getD a = if mark <+: cs then f (cs.drop mark.length) else a := by
  by_cases h : mark <+: cs
  · simp [Text.after?, h]
  · simp [Text.after?, h]

/-- The marks are tried in order. -/
theorem opening_eq (cs : List Char) : opening cs =
    if ['<', '!', '-', '-'] <+: cs then (.comment, cs.drop 4)
    else if ['<', '!', '[', 'C', 'D', 'A', 'T', 'A', '['] <+: cs then (.cdata, cs.drop 9)
    else if ['<', '?'] <+: cs then (.instruction, cs.drop 2)
    else if ['<', '!'] <+: cs then (.declaration, cs.drop 2)
    else if ['<', '/'] <+: cs then (.closing, cs.drop 2)
    else if ['<'] <+: cs then (.element, cs.drop 1)
    else (.text, cs) := by
  simp only [opening, openingMarks, getD_findSome?_cons, getD_map_after?]
  rfl

/-- What does not start with a bracket is text. -/
theorem opening_text {cs : List Char} (h : cs.head? ≠ some '<') : opening cs = (.text, cs) := by
  cases cs with
  | nil => rfl
  | cons c cs =>
    have hc : '<' ≠ c := by simpa using Ne.symm h
    simp [opening_eq, hc]

/-- A bracket with none of the marks after it opens an element. -/
theorem opening_element {cs : List Char} (hbang : cs.head? ≠ some '!')
    (hquestion : cs.head? ≠ some '?') (hslash : cs.head? ≠ some '/') :
    opening ('<' :: cs) = (.element, cs) := by
  cases cs with
  | nil => rfl
  | cons c cs =>
    simp only [List.head?_cons, ne_eq, Option.some.injEq] at hbang hquestion hslash
    simp [opening_eq, Ne.symm hbang, Ne.symm hquestion, Ne.symm hslash]

/-- A closing tag is told by its mark. -/
theorem opening_closing (cs : List Char) : opening ('<' :: '/' :: cs) = (.closing, cs) := by
  simp [opening_eq]

/-- Where an element starts there is neither a declaration nor an instruction. -/
theorem eq_of_opening_element {cs body : List Char} (h : opening cs = (.element, body)) :
    cs = '<' :: body ∧ body.head? ≠ some '!' ∧ body.head? ≠ some '?' := by
  rw [opening_eq] at h
  split_ifs at h with hcomment hcdata hinstruction hdeclaration hclosing helement
  all_goals cases h
  -- the marks of declarations and instructions were tried before that of elements
  obtain ⟨body, rfl⟩ := helement
  refine ⟨rfl, fun hbang => ?_, fun hquestion => ?_⟩
  · obtain ⟨rest, rfl⟩ := List.head?_eq_some_iff.mp hbang
    exact hdeclaration (by simp)
  · obtain ⟨rest, rfl⟩ := List.head?_eq_some_iff.mp hquestion
    exact hinstruction (by simp)

/-! ### Tokens -/

/-- A text is read up to the next markup. -/
theorem scanToken_text {content rest : List Char} (hne : content ≠ []) (hcontent : '<' ∉ content)
    (hrest : ∀ c ∈ rest.head?, c = '<') :
    scanToken (content ++ rest) = .ok (some (.text (decodeEntities content)), rest) := by
  have hspan : (content ++ rest).span (· != '<') = (content, rest) :=
    Text.span_append (fun c hc => by simpa using ne_of_mem_of_not_mem hc hcontent)
      (fun c hc => by simp [hrest c hc])
  rw [List.span_eq_takeWhile_dropWhile, Prod.mk.injEq] at hspan
  have hopen : opening (content ++ rest) = (.text, content ++ rest) := by
    refine opening_text fun h => hcontent ?_
    rw [List.head?_append_of_ne_nil _ hne] at h
    exact List.mem_of_mem_head? h
  simp only [scanToken, hopen, hspan.1, hspan.2]

/-- An escaped text is read back up to the markup that follows it. -/
theorem scanToken_escape {cs rest : List Char} (hcs : cs ≠ [])
    (hrest : ∀ c ∈ rest.head?, c = '<') :
    scanToken (escape false cs ++ rest) = .ok (some (.text cs), rest) := by
  rw [scanToken_text (mt escape_eq_nil_iff.mp hcs) (lt_notMem_escape false cs) hrest,
    decodeEntities_escape]

/-- A written closing tag is scanned as it was written. -/
theorem scanToken_closing {name : String} (hname : IsName name) (rest : List Char) :
    scanToken ('<' :: '/' :: (name.toList ++ '>' :: rest))
      = .ok (some (.closing name ('<' :: '/' :: (name.toList ++ '>' :: rest))), rest) := by
  have hnot : '>' ∉ name.toList := fun h => absurd (hname.endsName h) (by decide)
  have htrim : trim name.toList = name.toList :=
    Text.trim_of_forall fun c hc => (hname.chars c hc).1
  simp only [scanToken, opening_closing, readPast, Text.cutPast_append hnot, htrim,
    String.ofList_toList, bind, Except.bind, pure, Except.pure]

/-- A tag is read back after its left angle, whatever the end of the tag is. -/
theorem scanToken_tag {tag : Tag} (htag : tag.Writable) {tail rest : List Char} {closed : Bool}
    (hends : ∀ c ∈ tail.head?, endsName c = true)
    (htail : readAttributes tail = .ok (([], closed), rest)) :
    scanToken ('<' :: (tag.name.toList ++ (writeAttributes tag.attributes ++ tail)))
      = .ok (some (if closed then .single tag else .start tag), rest) := by
  have hslash : tag.name.toList.head? ≠ some '/' := fun h =>
    absurd (htag.name.endsName (List.mem_of_mem_head? h)) (by decide)
  have hhead : (tag.name.toList ++ (writeAttributes tag.attributes ++ tail)).head?
      = tag.name.toList.head? :=
    List.head?_append_of_ne_nil _ (by simpa using htag.name.nonempty)
  have hopen : opening ('<' :: (tag.name.toList ++ (writeAttributes tag.attributes ++ tail)))
      = (.element, tag.name.toList ++ (writeAttributes tag.attributes ++ tail)) :=
    opening_element (hhead ▸ htag.not_declaration) (hhead ▸ htag.not_instruction) (hhead ▸ hslash)
  simp only [scanToken, hopen, readTag_write htag hends htail, bind, Except.bind, pure, Except.pure]

/-- A written tag that closes itself is scanned as it was written. -/
theorem scanToken_single {tag : Tag} (htag : tag.Writable) (rest : List Char) :
    scanToken ('<' :: (tag.name.toList ++ (writeAttributes tag.attributes ++
      ' ' :: '/' :: '>' :: rest))) = .ok (some (.single tag), rest) :=
  scanToken_tag htag (by simp [endsName, isBlank])
    (readAttributes_single (by simp [trimStart, isBlank]))

/-- A written start tag is scanned as it was written. -/
theorem scanToken_start {tag : Tag} (htag : tag.Writable) (rest : List Char) :
    scanToken ('<' :: (tag.name.toList ++ (writeAttributes tag.attributes ++ '>' :: rest)))
      = .ok (some (.start tag), rest) :=
  scanToken_tag htag (by simp [endsName]) (readAttributes_start (by simp [trimStart, isBlank]))

/-- The tag of a token that is an element or the start of one. -/
def Token.tag? : Token → Option Tag
  | .start tag => some tag
  | .single tag => some tag
  | _ => none

/-- Only tags that can be written are read. -/
theorem writable_of_scanToken {cs rest : List Char} {token : Token}
    (h : scanToken cs = .ok (some token, rest)) : ∀ tag ∈ token.tag?, tag.Writable := by
  unfold scanToken at h
  split at h
  -- of the rules only that of elements yields a tag
  case h_6 body hopen =>
    obtain ⟨⟨token', rest'⟩, hread, heq⟩ := bind_pure_eq_ok.mp h
    cases heq
    obtain ⟨tag, htoken, hname, hhead, hattributes⟩ := readTag_cases hread
    obtain ⟨-, hbang, hquestion⟩ := eq_of_opening_element hopen
    rw [← hhead] at hbang hquestion
    rcases htoken with rfl | rfl
    · rintro _ ⟨⟩
      exact ⟨hname, hbang, hquestion, hattributes⟩
    · rintro _ ⟨⟩
      exact ⟨hname, hbang, hquestion, hattributes⟩
  case h_7 => cases h; rintro _ ⟨⟩
  all_goals
    obtain ⟨⟨before, rest'⟩, -, heq⟩ := bind_pure_eq_ok.mp h
    cases heq
  all_goals rintro _ ⟨⟩

/-- The tags that are scanned can be written. -/
theorem writable_of_scan {cs : List Char} {token : Token} (h : token ∈ (scan cs).1) :
    ∀ tag ∈ token.tag?, tag.Writable := by
  fun_induction scan cs with
  | case1 => exact absurd h List.not_mem_nil
  | case2 => exact absurd h List.not_mem_nil
  | case3 c cs token' rest hscan tokens fault hrest ih =>
    rw [hrest] at ih
    rcases List.mem_append.mp h with h | h
    · rw [Option.mem_toList] at h
      cases h
      exact writable_of_scanToken hscan
    · exact ih h

end InheritDoc.Markup
