import InheritDoc.Proofs.Id.Path
import InheritDoc.Proofs.Text.Blank

namespace InheritDoc

/-!
# Codes of references are unambiguous

A code is one text made of parts that use the same punctuation.  Each part can still be told from
what follows it, by the character that ends it.

* `Readable` : a text determines what it was written from and where it ends;
* `readable_separated`, `readable_bracketed` : the same for lists of such texts;
* `Part.WellFormed.readable`, `IsPath.readable` : parts and paths are readable.
-/

/-! ### Texts with a clear end -/

/-- The text is empty or goes on with one of the characters. -/
def Stops (stops rest : List Char) : Prop :=
  ∀ c ∈ rest.head?, c ∈ stops

theorem stops_nil (stops : List Char) : Stops stops [] := by
  simp [Stops]

theorem stops_cons {stops : List Char} {c : Char} (h : c ∈ stops) (rest : List Char) :
    Stops stops (c :: rest) := by
  simpa [Stops] using h

theorem Stops.mono {stops stops' rest : List Char} (h : Stops stops rest) (hsub : stops ⊆ stops') :
    Stops stops' rest :=
  fun c hc => hsub (h c hc)

/-- A text that stops at other characters does not go on with this one. -/
theorem Stops.ne_cons {stops rest : List Char} (h : Stops stops rest) {c : Char} (hc : c ∉ stops)
    (cs : List Char) : rest ≠ c :: cs := by
  rintro rfl
  exact hc (h c rfl)

/-- Where two texts start with a run of the same characters, the runs are the same. -/
theorem append_inj_of_run {p : Char → Bool} {stops run run' rest rest' : List Char}
    (hp : ∀ c ∈ stops, p c = false) (hrun : ∀ c ∈ run, p c = true) (hrun' : ∀ c ∈ run', p c = true)
    (hrest : Stops stops rest) (hrest' : Stops stops rest') (h : run ++ rest = run' ++ rest') :
    run = run' ∧ rest = rest' := by
  have hspan := Text.span_append hrun fun c hc => hp c (hrest c hc)
  rw [h, Text.span_append hrun' fun c hc => hp c (hrest' c hc)] at hspan
  simpa [eq_comm] using hspan

/-- Whatever is written after it, the text of `a` is that of no other good item, and its end is
    known.  What follows starts with one of the given characters. -/
def Readable {α : Type} (chars : α → List Char) (good : α → Prop) (stops : List Char) (a : α) :
    Prop :=
  ∀ b, good b → ∀ rest rest', Stops stops rest → Stops stops rest' →
    chars a ++ rest = chars b ++ rest' → a = b ∧ rest = rest'

section Lists

variable {α : Type} {chars : α → List Char} {good : α → Prop} {stops : List Char}

theorem Readable.mono {stops' : List Char} {a : α} (h : Readable chars good stops' a)
    (hsub : stops ⊆ stops') : Readable chars good stops a :=
  fun b hb rest rest' hrest hrest' => h b hb rest rest' (hrest.mono hsub) (hrest'.mono hsub)

/-- What stands after the first of several texts with separators. -/
def afterFirst (sep : Char) (texts : List (List Char)) (rest : List Char) : List Char :=
  if texts = [] then rest else sep :: ([sep].intercalate texts ++ rest)

/-- The first of several texts and what stands after it. -/
theorem intercalate_cons_append (sep : Char) (text : List Char) (texts : List (List Char))
    (rest : List Char) :
    [sep].intercalate (text :: texts) ++ rest = text ++ afterFirst sep texts rest := by
  cases texts <;> simp [afterFirst, List.intercalate_cons_cons]

/-- After the first text there is a separator, or the end of the list. -/
theorem Stops.afterFirst {rest : List Char} (h : Stops stops rest) (sep : Char)
    (texts : List (List Char)) : Stops (sep :: stops) (afterFirst sep texts rest) := by
  unfold InheritDoc.afterFirst
  split
  · exact h.mono (List.subset_cons_self _ _)
  · exact stops_cons List.mem_cons_self _

/-- **Separated texts are readable.**  A list of readable texts is readable, if the separator is not
    among the characters that end the list. -/
theorem readable_separated {sep : Char} (hsep : sep ∉ stops) {as : List α} (hne : as ≠ [])
    (has : ∀ a ∈ as, Readable chars good (sep :: stops) a) :
    Readable (fun as => [sep].intercalate (as.map chars)) (fun bs => bs ≠ [] ∧ ∀ b ∈ bs, good b)
      stops as := by
  induction as with
  | nil => exact absurd rfl hne
  | cons a as ih =>
    rintro bs ⟨hbs_ne, hbs⟩ rest rest' hrest hrest' h
    obtain ⟨b, bs, rfl⟩ := List.exists_cons_of_ne_nil hbs_ne
    rw [List.forall_mem_cons] at has hbs
    simp only [List.map_cons, intercalate_cons_append] at h
    obtain ⟨rfl, htail⟩ := has.1 b hbs.1 _ _ (hrest.afterFirst _ _) (hrest'.afterFirst _ _) h
    -- both lists go on, or none does
    cases as with
    | nil =>
      cases bs with
      | nil => exact ⟨rfl, htail⟩
      | cons _ _ => exact absurd htail (hrest.ne_cons hsep _)
    | cons next as =>
      cases bs with
      | nil => exact absurd htail.symm (hrest'.ne_cons hsep _)
      | cons next' bs =>
        have hitems := (List.cons.inj htail).2
        obtain ⟨hlists, hrests⟩ := ih (by simp) has.2 _ ⟨by simp, hbs.2⟩ _ _ hrest hrest' hitems
        exact ⟨by rw [hlists], hrests⟩

/-- A list in brackets starts with its bracket, unless it is empty. -/
theorem stops_bracketed {opening closing : Char} {rest : List Char} (h : Stops stops rest)
    (codes : List (List Char)) :
    Stops (opening :: stops) (bracketed opening closing codes ++ rest) := by
  unfold bracketed
  split
  · exact h.mono (List.subset_cons_self _ _)
  · exact stops_cons List.mem_cons_self _

/-- **Lists in brackets are readable.** -/
theorem readable_bracketed {opening closing : Char} (hopening : opening ∉ stops)
    (hclosing : closing ≠ ',') {as : List α}
    (has : ∀ a ∈ as, Readable chars good [',', closing] a) :
    Readable (fun as => bracketed opening closing (as.map chars)) (fun bs => ∀ b ∈ bs, good b)
      stops as := by
  intro bs hbs rest rest' hrest hrest' h
  cases as with
  | nil =>
    cases bs with
    | nil => exact ⟨rfl, h⟩
    | cons _ _ => exact absurd h (hrest.ne_cons hopening _)
  | cons a as =>
    cases bs with
    | nil => exact absurd h.symm (hrest'.ne_cons hopening _)
    | cons b bs =>
      -- inside the brackets nothing but a comma or the closing bracket ends an item
      have hlist := readable_separated (by simpa using hclosing.symm) (by simp) has (b :: bs)
        ⟨by simp, hbs⟩ (closing :: rest) (closing :: rest') (stops_cons (by simp) _)
        (stops_cons (by simp) _) (by simpa [bracketed] using h)
      exact ⟨hlist.1, (List.cons.inj hlist.2).2⟩

end Lists

/-! ### Parts and paths -/

/-- Marks start with a mark. -/
theorem IsMarks.stops {marks : List Char} (h : IsMarks marks) {stops rest : List Char}
    (hrest : Stops stops rest) : Stops ('*' :: '[' :: stops) (marks ++ rest) := by
  cases h with
  | nil => exact hrest.mono (by simp)
  | pointer _ => exact stops_cons (by simp) _
  | array _ _ => exact stops_cons (by simp) _

/-- Marks end where no further mark follows. -/
theorem IsMarks.append_inj {marks marks' : List Char} (h : IsMarks marks) (h' : IsMarks marks')
    {stops rest rest' : List Char} (hpointer : '*' ∉ stops) (harray : '[' ∉ stops)
    (hrest : Stops stops rest) (hrest' : Stops stops rest')
    (heq : marks ++ rest = marks' ++ rest') : marks = marks' ∧ rest = rest' := by
  induction h generalizing marks' with
  | nil =>
    cases h' with
    | nil => exact ⟨rfl, heq⟩
    | pointer _ => exact absurd heq (hrest.ne_cons hpointer _)
    | array _ _ => exact absurd heq (hrest.ne_cons harray _)
  | pointer _ ih =>
    cases h' with
    | nil => exact absurd heq.symm (hrest'.ne_cons hpointer _)
    | pointer h' =>
      obtain ⟨hmarks, hrests⟩ := ih h' (List.cons.inj heq).2
      exact ⟨by rw [hmarks], hrests⟩
    | array _ _ => simp at heq
  | array n _ ih =>
    cases h' with
    | nil => exact absurd heq.symm (hrest'.ne_cons harray _)
    | pointer _ => simp at heq
    | array n' h' =>
      -- the bracket ends the commas, so both arrays have the same rank
      rw [List.cons_append, List.cons_append, List.append_assoc, List.append_assoc] at heq
      obtain ⟨hcommas, hclosed⟩ := append_inj_of_run (p := (· == ',')) (by decide) (by simp)
        (by simp) (stops_cons (List.mem_singleton_self _) _)
        (stops_cons (List.mem_singleton_self _) _) (List.cons.inj heq).2
      obtain ⟨hmarks, hrests⟩ := ih h' (List.cons.inj hclosed).2
      exact ⟨by rw [hcommas, hmarks], hrests⟩

/-- Heads are made of word characters. -/
theorem Head.WellFormed.isWordChar {head : Head} (h : head.WellFormed) {c : Char}
    (hc : c ∈ head.chars) : isWordChar c = true := by
  cases head with
  | named text => exact h.2 c hc
  | parameter scope index =>
    rw [chars_parameter ⟨"", index, scope⟩] at hc
    exact TypeRef.spelledIn_placeholder (by decide) isWordChar_of_isDigit _ c hc

/-- Decimal numbers have no back-tick. -/
theorem tick_notMem_toString (n : Nat) : '`' ∉ (toString n).toList :=
  fun h => absurd (spelledIn_toString id n _ h) (by decide)

/-- Numbers with the same decimal digits are the same. -/
theorem toList_toString_inj {m n : Nat} (h : (toString m).toList = (toString n).toList) :
    m = n := by
  rw [Nat.toString_eq_ofList_toDigits, Nat.toString_eq_ofList_toDigits, String.toList_ofList,
    String.toList_ofList] at h
  rw [← Nat.ofDigitChars_ten_toDigits (n := m), h, Nat.ofDigitChars_ten_toDigits]

/-- Heads are written differently if they are different. -/
theorem Head.WellFormed.eq_of_chars_eq {head head' : Head} (h : head.WellFormed)
    (h' : head'.WellFormed) (hchars : head.chars = head'.chars) : head = head' := by
  -- a name starts with a simple character, a placeholder with a back-tick
  have hnames : ∀ {text scope index}, (Head.named text).WellFormed →
      (Head.named text).chars ≠ (Head.parameter scope index).chars := by
    rintro text scope index ⟨⟨c, cs, htext, hc⟩, -⟩ hchars
    rw [chars, htext] at hchars
    obtain rfl : c = '`' := by cases scope <;> exact (List.cons.inj hchars).1
    exact absurd hc (by decide)
  cases head with
  | named text =>
    cases head' with
    | named text' => exact congrArg Head.named (String.toList_inj.mp hchars)
    | parameter _ _ => exact absurd hchars (hnames h)
  | parameter scope index =>
    cases head' with
    | named _ => exact absurd hchars.symm (hnames h')
    | parameter scope' index' =>
      have hindex := tick_notMem_toString index.toNat
      have hindex' := tick_notMem_toString index'.toNat
      -- the scope is the number of back-ticks, and no index starts with one
      cases scope <;> cases scope' <;> simp only [chars, List.cons.injEq, true_and] at hchars
      · rw [UInt32.toNat_inj.mp (toList_toString_inj hchars)]
      · exact absurd (hchars ▸ List.mem_cons_self) hindex
      · exact absurd (hchars ▸ List.mem_cons_self) hindex'
      · rw [UInt32.toNat_inj.mp (toList_toString_inj hchars)]

/-- **Parts are readable.** -/
theorem Part.WellFormed.readable {part : Part} (h : part.WellFormed) :
    Readable Part.chars Part.WellFormed ['.', ',', '}', '@', ')'] part := by
  induction h with
  | @mk head arguments marks hhead hnonempty harguments hmarks ih =>
    rintro _ ⟨hhead', hnonempty', harguments', hmarks'⟩ rest rest' hrest hrest' h
    rw [Part.chars_mk, Part.chars_mk, List.append_assoc, List.append_assoc, List.append_assoc,
      List.append_assoc] at h
    have hmarkStops := hmarks.stops hrest
    have hmarkStops' := hmarks'.stops hrest'
    -- a head is the longest run of word characters, for a brace, a mark or a stop ends it
    obtain ⟨hheads, hafterHead⟩ := append_inj_of_run (by decide) (fun _ => hhead.isWordChar)
      (fun _ => hhead'.isWordChar) (stops_bracketed hmarkStops _) (stops_bracketed hmarkStops' _) h
    obtain rfl := hhead.eq_of_chars_eq hhead' hheads
    -- arguments are paths again, whose parts are readable by induction
    have hpaths : ∀ path ∈ arguments, Readable pathChars IsPath [',', '}'] path := by
      intro path hpath
      exact (readable_separated (by decide) (hnonempty path hpath) (ih path hpath)).mono (by simp)
    obtain ⟨rfl, hafterArguments⟩ := readable_bracketed (by decide) (by decide) hpaths _
      (fun path hpath => ⟨hnonempty' path hpath, harguments' path hpath⟩) _ _ hmarkStops hmarkStops'
      hafterHead
    obtain ⟨hmarksEq, hrests⟩ := hmarks.append_inj hmarks' (by decide) (by decide) hrest hrest'
      hafterArguments
    exact ⟨by rw [String.toList_inj.mp hmarksEq], hrests⟩

/-- **Paths are readable.** -/
theorem IsPath.readable {path : List Part} (h : IsPath path) :
    Readable pathChars IsPath [',', '}', '@', ')'] path :=
  readable_separated (by decide) h.1 fun part hpart => (h.2 part hpart).readable

end InheritDoc
