import InheritDoc.Proofs.Markup.Locality

namespace InheritDoc.Markup

/-!
# Texts side by side

Two texts that can be read can be read as one, with markup between them that carries no content.  The
nodes of the second follow those of the first.

* `Silent`            : comments, instructions and declarations;
* `joinTexts`         : nodes side by side, where texts that touch are one node;
* `Builder.Continues` : the same tokens read with and without other nodes before them;
* `Builder.Continues.step`, `Builder.Continues.foldlM` : one more token, and hence all tokens of a
  text, keep it so;
* `parseFragment_join` : **reading goes through markup without content.**
-/

/-! ### Markup without content -/

/-- Markup that carries no content: a comment, an instruction or a declaration. -/
inductive Silent : String → Prop
  | comment {content : String} (hend : ¬ "-->".toList <:+: content.toList) :
      Silent ("<!--" ++ content ++ "-->")
  | instruction {content : String} (hend : ¬ "?>".toList <:+: content.toList) :
      Silent ("<?" ++ content ++ "?>")
  | declaration {content : String} (hend : '>' ∉ content.toList)
      (hcomment : ¬ "--".toList <+: content.toList)
      (hcdata : ¬ "[CDATA[".toList <+: content.toList) : Silent ("<!" ++ content ++ ">")

/-- A text without the mark is read up to the mark. -/
theorem readPast_of_notOccurs {init cs : List Char} {last : Char} (hlast : last ∉ init)
    (h : ¬ init ++ [last] <:+: cs) (context : Unfinished) (rest : List Char) :
    readPast (init ++ [last]) context (cs ++ (init ++ [last] ++ rest)) = .ok (cs, rest) :=
  readPast_eq_ok.mpr (Text.cutPast_of_notOccurs hlast h rest)

namespace Silent

variable {s : String}

/-- Silent texts start with an angle bracket. -/
theorem head? (h : Silent s) (rest : List Char) : (s.toList ++ rest).head? = some '<' := by
  cases h <;> simp

/-- It is passed over. -/
theorem scanToken (h : Silent s) (rest : List Char) :
    scanToken (s.toList ++ rest) = .ok (none, rest) := by
  cases h with
  | @comment content hend =>
    have htext : ("<!--" ++ content ++ "-->").toList ++ rest
        = '<' :: '!' :: '-' :: '-' :: (content.toList ++ (['-', '-'] ++ ['>'] ++ rest)) := by simp
    have hread : readPast ['-', '-', '>'] .comment (content.toList ++ (['-', '-'] ++ ['>'] ++ rest))
        = .ok (content.toList, rest) :=
      @readPast_of_notOccurs ['-', '-'] _ '>' (by decide) hend _ rest
    simp only [htext, Markup.scanToken, opening_comment, hread]
    rfl
  | @instruction content hend =>
    have htext : ("<?" ++ content ++ "?>").toList ++ rest
        = '<' :: '?' :: (content.toList ++ (['?'] ++ ['>'] ++ rest)) := by simp
    have hread : readPast ['?', '>'] .instruction (content.toList ++ (['?'] ++ ['>'] ++ rest))
        = .ok (content.toList, rest) :=
      @readPast_of_notOccurs ['?'] _ '>' (by decide) hend _ rest
    simp only [htext, Markup.scanToken, opening_instruction, hread]
    rfl
  -- a declaration is what starts neither a comment nor a section of raw text
  | @declaration content hend hcomment hcdata =>
    have htext : ("<!" ++ content ++ ">").toList ++ rest
        = '<' :: '!' :: (content.toList ++ '>' :: rest) := by simp
    have hopen : opening ('<' :: '!' :: (content.toList ++ '>' :: rest))
        = (.declaration, content.toList ++ '>' :: rest) :=
      opening_declaration_iff.mpr
        ⟨fun hprefix => hcomment (Text.prefix_of_notMem (by decide) hprefix),
          fun hprefix => hcdata (Text.prefix_of_notMem (by decide) hprefix)⟩
    have hread : readPast ['>'] .declaration (content.toList ++ '>' :: rest)
        = .ok (content.toList, rest) :=
      readPast_eq_ok.mpr (Text.cutPast_append hend rest)
    simp only [htext, Markup.scanToken, hopen, hread]
    rfl

end Silent

/-! ### Nodes side by side -/

/-- The nodes of two texts side by side.  If the first ends and the second begins with a text, these
    are one node. -/
def joinTexts (xs ys : List Node) : List Node :=
  match xs.getLast?, ys.head? with
  | some (.text s), some (.text t) => xs.dropLast ++ .text (s ++ t) :: ys.tail
  | _, _ => xs ++ ys

theorem joinTexts_nil (xs : List Node) : joinTexts xs [] = xs := by
  simp [joinTexts]

/-- What follows the first node is no matter. -/
theorem joinTexts_append (xs ys zs : List Node) (hys : ys ≠ []) :
    joinTexts xs (ys ++ zs) = joinTexts xs ys ++ zs := by
  obtain ⟨y, ys, rfl⟩ := List.exists_cons_of_ne_nil hys
  unfold joinTexts
  simp only [List.cons_append, List.head?_cons, List.tail_cons]
  split <;> simp

/-- The same nodes, newest first as they are while reading. -/
def stack : List Node → List Node → List Node
  | [], earlier => earlier
  | [.text t], .text s :: earlier => .text (s ++ t) :: earlier
  | node :: nodes, earlier => node :: stack nodes earlier

/-- Stacking nodes backwards is joining them forwards. -/
theorem reverse_stack (nodes earlier : List Node) :
    (stack nodes earlier).reverse = joinTexts earlier.reverse nodes.reverse := by
  fun_induction stack nodes earlier with
  | case1 earlier => simp [joinTexts_nil]
  | case2 t s earlier => simp [joinTexts]
  | case3 node nodes earlier hnot ih =>
    rw [List.reverse_cons, List.reverse_cons, ih]
    cases nodes with
    | nil =>
      have hjoin : joinTexts earlier.reverse [node] = earlier.reverse ++ [node] := by
        unfold joinTexts
        split
        · -- two texts meet, but then the stack would have joined them
          rename_i s t hlast hfirst
          rw [List.getLast?_reverse] at hlast
          obtain ⟨more, rfl⟩ := List.head?_eq_some_iff.mp hlast
          exact (hnot t s more rfl (Option.some.inj hfirst) rfl).elim
        · rfl
      rw [List.reverse_nil, List.nil_append, hjoin, joinTexts_nil]
    | cons next nodes => rw [joinTexts_append _ _ _ (by simp)]

/-- A text goes on after what was read before. -/
theorem stack_pushText (content : List Char) (nodes earlier : List Node) :
    stack (pushText content nodes) earlier = pushText content (stack nodes earlier) := by
  match nodes, earlier with
  | [], [] => rfl
  | [], .text s :: earlier => rfl
  | [], .element tag children :: earlier => rfl
  | [.text t], [] => rfl
  | [.text t], .text s :: earlier => simp [pushText, stack, String.append_assoc]
  | [.text t], .element tag children :: earlier => rfl
  | .text t :: next :: nodes, earlier => rfl
  | .element tag children :: nodes, earlier => simp [pushText, stack]

/-! ### Reading with nodes before -/

/-- The second builder has read the nodes `earlier`, newest first, and then what the first has read. -/
inductive Builder.Continues (earlier : List Node) : Builder → Builder → Prop
  | outside {nodes : List Node} : Continues earlier ⟨nodes, []⟩ ⟨stack nodes earlier, []⟩
  | inside {tag : Tag} {nodes before before' : List Node} {outer outer' : List (Tag × List Node)}
      (h : Continues earlier ⟨before, outer⟩ ⟨before', outer'⟩) :
      Continues earlier ⟨nodes, (tag, before) :: outer⟩ ⟨nodes, (tag, before') :: outer'⟩

namespace Builder.Continues

variable {earlier : List Node} {b b' c : Builder}

/-- An element that both builders complete keeps them in step. -/
theorem element (h : Continues earlier b c) (tag : Tag) (children : List Node) :
    Continues earlier { b with nodes := .element tag children :: b.nodes }
      { c with nodes := .element tag children :: c.nodes } := by
  cases h with
  | @outside nodes =>
    have hstack : stack (.element tag children :: nodes) earlier
        = .element tag children :: stack nodes earlier := by
      rw [stack]
      simp
    exact hstack ▸ .outside
  | inside h => exact .inside h

/-- One more token is added in the same way. -/
theorem step {token : Token} (h : Continues earlier b c) (hstep : b.step token = .ok b') :
    ∃ c', c.step token = .ok c' ∧ Continues earlier b' c' := by
  cases token with
  | text content =>
    cases hstep
    cases h with
    -- outside of all elements a text may be joined to an earlier one
    | outside => exact ⟨_, rfl, stack_pushText content _ earlier ▸ .outside⟩
    | inside h => exact ⟨_, rfl, .inside h⟩
  | single tag =>
    cases hstep
    exact ⟨_, rfl, h.element tag []⟩
  | start tag =>
    cases hstep
    exact ⟨_, rfl, .inside h⟩
  | closing name place =>
    obtain ⟨tag, before, outer, hopened, hname, rfl⟩ := step_closing_eq_ok.mp hstep
    cases h with
    -- outside of all elements there is nothing to close
    | outside => cases hopened
    | inside h =>
      cases hopened
      exact ⟨_, step_closing_eq_ok.mpr ⟨tag, _, _, rfl, hname, rfl⟩, h.element tag _⟩

/-- Hence so are all the tokens of a text. -/
theorem foldlM {tokens : List Token} (h : Continues earlier b c)
    (hfold : tokens.foldlM Builder.step b = .ok b') :
    ∃ c', tokens.foldlM Builder.step c = .ok c' ∧ Continues earlier b' c' := by
  induction tokens generalizing b c with
  | nil =>
    cases hfold
    exact ⟨c, rfl, h⟩
  | cons token tokens ih =>
    rw [List.foldlM_cons] at hfold
    obtain ⟨b₁, hstep, hmore⟩ := bind_eq_ok.mp hfold
    obtain ⟨c₁, hstep', h₁⟩ := h.step hstep
    obtain ⟨c', hmore', h'⟩ := ih h₁ hmore
    refine ⟨c', ?_, h'⟩
    rw [List.foldlM_cons, hstep']
    exact hmore'

/-- **What is read after other nodes follows them.** -/
theorem resume {cs : List Char} {nodes : List Node} (h : Continues earlier b c)
    (hread : resume b cs = .ok nodes) : Markup.resume c cs = .ok (joinTexts earlier.reverse nodes) := by
  obtain ⟨tokens, read, hscans, hfold, rfl⟩ := resume_eq_ok.mp hread
  obtain ⟨c', hfold', h'⟩ := h.foldlM hfold
  cases h' with
  | outside => exact resume_eq_ok.mpr ⟨tokens, _, hscans, hfold', (reverse_stack read earlier).symm⟩

end Builder.Continues

/-! ### Strings -/

/-- **Reading goes through markup without content.**  If two strings can be read, so can they side by
    side with such markup in between, and the nodes of the second follow those of the first. -/
theorem parseFragment_join {a b s : String} {xs ys : List Node} (ha : parseFragment a = .ok xs)
    (hb : parseFragment b = .ok ys) (hs : Silent s) :
    parseFragment (a ++ s ++ b) = .ok (joinTexts xs ys) := by
  rw [parseFragment_eq_ok, readNodes_eq_resume] at ha hb ⊢
  obtain ⟨tokens, read, hscans, hfold, rfl⟩ := resume_eq_ok.mp ha
  obtain ⟨used, hused, hreplace⟩ := hscans.resume_replace hfold
  -- nothing of the first string goes on into the markup behind it
  have hmarkup : MayReplace [] (s.toList ++ b.toList) := by
    intro c hc
    rw [hs.head?] at hc
    exact .inl (Option.mem_some.mp hc).symm
  calc resume {} (a ++ s ++ b).toList
      = resume {} (used ++ (s.toList ++ b.toList)) := by simp [hused]
    _ = resume ⟨read, []⟩ (s.toList ++ b.toList) := hreplace _ hmarkup
    _ = resume ⟨read, []⟩ b.toList :=
        resume_of_scanToken_none (List.ne_nil_of_mem (List.mem_of_head? (hs.head? b.toList)))
          (hs.scanToken b.toList)
    _ = .ok (joinTexts read.reverse ys) := Builder.Continues.resume .outside hb

/-- Two texts are one node, though a comment with dashes and an angle in it stands between them. -/
theorem parseFragment_join_comment :
    parseFragment "<p k='>'>x</p>one &"
        = .ok [.element ⟨"p", [("k", ">")]⟩ [.text "x"], .text "one &"] ∧
      parseFragment "lt;<q/>" = .ok [.text "lt;", .element ⟨"q", []⟩ []] ∧
      parseFragment ("<p k='>'>x</p>one &" ++ ("<!--" ++ "- a -- b> -" ++ "-->") ++ "lt;<q/>")
        = .ok [.element ⟨"p", [("k", ">")]⟩ [.text "x"], .text "one &lt;", .element ⟨"q", []⟩ []] := by
  have ha : parseFragment "<p k='>'>x</p>one &"
      = .ok [.element ⟨"p", [("k", ">")]⟩ [.text "x"], .text "one &"] := by decide +kernel
  have hb : parseFragment "lt;<q/>" = .ok [.text "lt;", .element ⟨"q", []⟩ []] := by decide +kernel
  have hs : Silent ("<!--" ++ "- a -- b> -" ++ "-->") := .comment (by decide)
  exact ⟨ha, hb, parseFragment_join ha hb hs⟩

end InheritDoc.Markup
