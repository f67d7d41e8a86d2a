import InheritDoc.Proofs.Markup.RoundTrip

namespace InheritDoc.Markup

/-!
# What is read is in normal form

Whatever mix of markup a text is made of, its nodes have names that can be written, and texts that
touch are one node.  So what was read can be written and read again, and only empty texts get lost,
which are read from empty sections of character data.

* `Builder.Normal`      : what was read so far is in normal form;
* `Builder.Normal.step` : one more token keeps it so;
* `Builder.Normal.foldlM` : hence so do all tokens of a text;
* `parseFragment_stable` : **what is read is in normal form, and stays the same when it is written
  and read again**, but for empty texts.
-/

/-! ### Adding nodes -/

section

variable {text : String → Prop} {nodes : List Node}

theorem NormalForm.nil : NormalForm text [] :=
  ⟨.nil, by simp⟩

/-- A node may stand before a forest in normal form, unless a text would follow a text. -/
theorem NormalForm.cons {node : Node} (hnode : node.Normal text) (h : NormalForm text nodes)
    (hnext : ∀ next ∈ nodes.head?, ¬ (node.isText = true ∧ next.isText = true)) :
    NormalForm text (node :: nodes) :=
  ⟨List.isChain_cons.mpr ⟨hnext, h.spaced⟩, List.forall_mem_cons.mpr ⟨hnode, h.nodes⟩⟩

/-- Normal forms do not depend on the direction of reading. -/
theorem NormalForm.reverse (h : NormalForm text nodes) : NormalForm text nodes.reverse := by
  refine ⟨List.isChain_reverse.mpr ?_, by simpa using h.nodes⟩
  exact List.IsChain.imp (fun _ _ hnot hboth => hnot hboth.symm) h.spaced

end

/-- A text is joined to a text before it, so that no two stand side by side. -/
theorem NormalForm.pushText {nodes : List Node} (h : NormalForm (fun _ => True) nodes)
    (content : List Char) : NormalForm (fun _ => True) (pushText content nodes) := by
  cases nodes with
  | nil => exact .cons (.text trivial) .nil (by simp)
  | cons newest before =>
    cases newest with
    | text previous =>
      refine .cons (.text trivial) h.tail fun next hnext => ?_
      simp [h.isText_next next hnext]
    | element tag children => exact .cons (.text trivial) h (by simp [Node.isText])

/-! ### Nodes from tokens -/

/-- The nodes read so far are in normal form, and so are those before each open element, whose tag
    can be written. -/
structure Builder.Normal (b : Builder) : Prop where
  nodes : NormalForm (fun _ => True) b.nodes
  opened : ∀ frame ∈ b.opened, frame.1.Writable ∧ NormalForm (fun _ => True) frame.2

namespace Builder.Normal

/-- One more token keeps the normal form. -/
theorem step {b b' : Builder} {token : Token} (hb : b.Normal)
    (htoken : ∀ tag ∈ token.tag?, tag.Writable) (h : b.step token = .ok b') : b'.Normal := by
  cases token with
  | text content =>
    cases h
    exact ⟨hb.nodes.pushText content, hb.opened⟩
  | single tag =>
    cases h
    have htag : tag.Writable := htoken tag rfl
    exact ⟨.cons (.element htag .nil (by simp)) hb.nodes (by simp [Node.isText]), hb.opened⟩
  | start tag =>
    cases h
    exact ⟨.nil, List.forall_mem_cons.mpr ⟨⟨htoken tag rfl, hb.nodes⟩, hb.opened⟩⟩
  | closing name place =>
    obtain ⟨nodes, opened⟩ := b
    cases opened with
    | nil => cases h
    | cons frame outer =>
      obtain ⟨tag, before⟩ := frame
      obtain ⟨⟨htag, hbefore⟩, houter⟩ := List.forall_mem_cons.mp hb.opened
      rw [Builder.step] at h
      dsimp only at h
      split at h
      · cases h
        -- what was read inside becomes the children, oldest first
        have hnodes := hb.nodes.reverse
        exact ⟨.cons (.element htag hnodes.spaced hnodes.nodes) hbefore (by simp [Node.isText]), houter⟩
      · cases h

/-- Hence so do all the tokens of a text. -/
theorem foldlM {tokens : List Token} (htokens : ∀ token ∈ tokens, ∀ tag ∈ token.tag?, tag.Writable)
    {b b' : Builder} (hb : b.Normal) (h : tokens.foldlM Builder.step b = .ok b') : b'.Normal := by
  induction tokens generalizing b with
  | nil =>
    cases h
    exact hb
  | cons token tokens ih =>
    rw [List.forall_mem_cons] at htokens
    rw [List.foldlM_cons] at h
    obtain ⟨b₁, hstep, hrest⟩ := bind_eq_ok.mp h
    exact ih htokens.2 (hb.step htokens.1 hstep) hrest

end Builder.Normal

/-! ### Texts -/

/-- Whatever is read is in normal form, apart from texts that may be empty. -/
theorem readNodes_normalForm {cs : List Char} {nodes : List Node} (h : readNodes cs = .ok nodes) :
    NormalForm (fun _ => True) nodes := by
  obtain ⟨b, hb, h⟩ := bind_eq_ok.mp h
  have hnormal : b.Normal := Builder.Normal.foldlM (fun _ => writable_of_scan) ⟨.nil, by simp⟩ hb
  split at h
  · cases h
  · unfold Builder.finish at h
    split at h
    · cases h
      exact hnormal.nodes.reverse
    · cases h

/-- **What is read is in normal form and stable.**  Writing the nodes of any text that can be read and
    reading them again gives the same nodes but for the empty texts, and hence exactly the same ones
    if there is no empty text. -/
theorem parseFragment_stable {s : String} {nodes : List Node} (h : parseFragment s = .ok nodes) :
    NormalForm (fun _ => True) nodes ∧ parseFragment (toXml nodes) = .ok (dropEmptyTexts nodes) ∧
      ((∀ content, Node.Occurs (.text content) nodes → content ≠ "") →
        dropEmptyTexts nodes = nodes) := by
  have hread : readNodes s.toList = .ok nodes := by
    cases hread : readNodes s.toList with
    | error fault => simp [parseFragment, hread, Except.mapError] at h
    | ok nodes' => simpa [parseFragment, hread, Except.mapError] using h
  have hnormal := readNodes_normalForm hread
  exact ⟨hnormal, parseFragment_toXml_of_normalForm hnormal, dropEmptyTexts_eq_self⟩

/-- A text that goes on after a comment and in a section of character data is one node.  An empty
    section is read as an empty text, which is lost. -/
theorem parseFragment_stable_sections :
    parseFragment "<?i?><a k='&lt;'>x<!-- c --><![CDATA[ &y]]></a ><b><![CDATA[]]></b>"
        = .ok [.element ⟨"a", [("k", "<")]⟩ [.text "x &y"], .element ⟨"b", []⟩ [.text ""]] ∧
      parseFragment "<a k=\"&lt;\">x &amp;y</a><b></b>"
        = .ok [.element ⟨"a", [("k", "<")]⟩ [.text "x &y"], .element ⟨"b", []⟩ []] := by
  have h : parseFragment "<?i?><a k='&lt;'>x<!-- c --><![CDATA[ &y]]></a ><b><![CDATA[]]></b>"
      = .ok [.element ⟨"a", [("k", "<")]⟩ [.text "x &y"], .element ⟨"b", []⟩ [.text ""]] := by
    decide +kernel
  have hwritten : toXml [.element ⟨"a", [("k", "<")]⟩ [.text "x &y"], .element ⟨"b", []⟩ [.text ""]]
      = "<a k=\"&lt;\">x &amp;y</a><b></b>" := by
    decide +kernel
  refine ⟨h, ?_⟩
  rw [← hwritten, (parseFragment_stable h).2.1]
  rfl

end InheritDoc.Markup
