import InheritDoc.Markup.Reader
import InheritDoc.Proofs.Markup.Forest
import InheritDoc.Proofs.Markup.Scanning
import Mathlib.Data.List.Chain

namespace InheritDoc.Markup

/-!
# Reading back what was written

* `NormalForm`        : forests with names that can be written and no two texts side by side;
* `dropEmptyTexts`    : a forest without its empty texts, which leave no trace when written;
* `resume`            : reading from the middle of a text on;
* `resume_writeAll`   : written nodes are read as if they were added to what was read before them;
* `parseFragment_toXml` : **a forest in normal form without empty texts is read back.**
-/

/-! ### Normal forms -/

/-- The node is a text. -/
def Node.isText : Node → Bool
  | .text _ => true
  | .element _ _ => false

/-- No two texts stand side by side. -/
def Spaced (nodes : List Node) : Prop :=
  nodes.IsChain fun node next => ¬ (node.isText = true ∧ next.isText = true)

/-- A node in normal form: its tags can be written, its texts are as `text` says, and no two texts
    stand side by side in it. -/
inductive Node.Normal (text : String → Prop) : Node → Prop
  | text {content : String} (hcontent : text content) : Normal text (.text content)
  | element {tag : Tag} {children : List Node} (htag : tag.Writable) (hspaced : Spaced children)
      (hchildren : ∀ child ∈ children, Normal text child) : Normal text (.element tag children)

/-- A forest in normal form, with texts as `text` says. -/
structure NormalForm (text : String → Prop) (nodes : List Node) : Prop where
  spaced : Spaced nodes
  nodes : ∀ node ∈ nodes, node.Normal text

section NormalForm

variable {text : String → Prop} {nodes : List Node}

/-- The later trees of a forest in normal form are in normal form. -/
theorem NormalForm.tail {node : Node} (h : NormalForm text (node :: nodes)) : NormalForm text nodes :=
  ⟨List.IsChain.tail h.spaced, fun node' hnode' => h.nodes node' (List.mem_cons_of_mem node hnode')⟩

/-- No text follows a text. -/
theorem NormalForm.isText_next {content : String} (h : NormalForm text (.text content :: nodes)) :
    ∀ next ∈ nodes.head?, next.isText = false := by
  intro next hnext
  have hspaced := (List.isChain_cons.mp h.spaced).1 next hnext
  simpa [Node.isText] using hspaced

/-- The first tag of a forest in normal form can be written, and the children are in normal form. -/
theorem NormalForm.element {tag : Tag} {children : List Node}
    (h : NormalForm text (.element tag children :: nodes)) :
    tag.Writable ∧ NormalForm text children := by
  cases h.nodes _ List.mem_cons_self with
  | element htag hspaced hchildren => exact ⟨htag, hspaced, hchildren⟩

/-- What occurs in a forest in normal form is in normal form itself. -/
theorem Node.Occurs.normal {node : Node} (hnode : node.Occurs nodes) (h : NormalForm text nodes) :
    node.Normal text := by
  induction hnode with
  | here hmem => exact h.nodes _ hmem
  | inside hmem _ ih =>
    cases h.nodes _ hmem with
    | element _ hspaced hchildren => exact ih ⟨hspaced, hchildren⟩

end NormalForm

/-! ### Empty texts -/

mutual

/-- A node without the empty texts in it; nothing for an empty text. -/
def dropEmptyTextsIn : Node → List Node
  | .text content => if content = "" then [] else [.text content]
  | .element tag children => [.element tag (dropEmptyTexts children)]

/-- A forest without its empty texts, at any depth. -/
def dropEmptyTexts : List Node → List Node
  | [] => []
  | node :: nodes => dropEmptyTextsIn node ++ dropEmptyTexts nodes

end

/-- Nothing is dropped where there is no empty text. -/
theorem dropEmptyTexts_eq_self {nodes : List Node}
    (h : ∀ content, Node.Occurs (.text content) nodes → content ≠ "") :
    dropEmptyTexts nodes = nodes := by
  induction nodes using Node.forest_induction with
  | nil => rfl
  | text content nodes ih =>
    have hcontent := h content (.here List.mem_cons_self)
    have hnodes := ih fun content' hoccurs => h content' hoccurs.cons
    simp [dropEmptyTexts, dropEmptyTextsIn, hcontent, hnodes]
  | element tag children nodes ihc ihn =>
    have hchildren := ihc fun content hoccurs => h content (.inside List.mem_cons_self hoccurs)
    have hnodes := ihn fun content hoccurs => h content hoccurs.cons
    simp [dropEmptyTexts, dropEmptyTextsIn, hchildren, hnodes]

/-! ### Reading on -/

/-- Read on with what was read before. -/
def resume (b : Builder) (cs : List Char) : Except Fault (List Node) := do
  let b ← (scan cs).1.foldlM Builder.step b
  match (scan cs).2 with
  | some fault => throw fault
  | none => b.finish

/-- Reading starts with nothing read and nothing open. -/
theorem readNodes_eq_resume (cs : List Char) : readNodes cs = resume {} cs := rfl

theorem resume_nil (b : Builder) : resume b [] = b.finish := by
  simp [resume, scan]

/-- Unfolding lemma: the tokens of a text are the one that it starts with, if any, and those of what
    follows. -/
theorem scan_of_scanToken {cs rest : List Char} {token : Option Token} (hcs : cs ≠ [])
    (h : scanToken cs = .ok (token, rest)) :
    scan cs = (token.toList ++ (scan rest).1, (scan rest).2) := by
  obtain ⟨c, cs, rfl⟩ := List.exists_cons_of_ne_nil hcs
  rw [scan]
  split
  · rename_i heq
    rw [h] at heq
    cases heq
  · rename_i heq
    rw [h] at heq
    cases heq
    rfl

/-- The first token is added to what was read before. -/
theorem resume_of_scanToken {b : Builder} {cs rest : List Char} {token : Token} (hcs : cs ≠ [])
    (h : scanToken cs = .ok (some token, rest)) : resume b cs = b.step token >>= (resume · rest) := by
  simp only [resume, scan_of_scanToken hcs h, Option.toList_some, List.singleton_append,
    List.foldlM_cons, bind_assoc]

/-! ### Written nodes -/

/-- How an element without children is written. -/
theorem write_single (tag : Tag) :
    Node.write (.element tag [])
      = '<' :: (tag.name.toList ++ (writeAttributes tag.attributes ++ [' ', '/', '>'])) := by
  simp [Node.write]

/-- How an element with children is written. -/
theorem write_element (tag : Tag) {children : List Node} (h : children ≠ []) :
    Node.write (.element tag children)
      = '<' :: (tag.name.toList ++ (writeAttributes tag.attributes ++ '>' ::
          (writeAll children ++ '<' :: '/' :: (tag.name.toList ++ ['>'])))) := by
  obtain ⟨child, more, rfl⟩ := List.exists_cons_of_ne_nil h
  simp [Node.write, writeAll]

/-- Markup follows where no text does. -/
theorem head?_writeAll {nodes : List Node} (hnodes : ∀ node ∈ nodes.head?, node.isText = false)
    {rest : List Char} (hrest : ∀ c ∈ rest.head?, c = '<') :
    ∀ c ∈ (writeAll nodes ++ rest).head?, c = '<' := by
  cases nodes with
  | nil => exact hrest
  | cons node nodes =>
    cases node with
    | text content => cases hnodes _ rfl
    | element tag children =>
      rw [writeAll, Node.write.eq_def]
      simp

/-- An element without children is read as one token. -/
theorem resume_single {tag : Tag} (htag : tag.Writable) (b : Builder) (rest : List Char) :
    resume b (Node.write (.element tag []) ++ rest)
      = resume { b with nodes := .element tag [] :: b.nodes } rest := by
  have htext : Node.write (.element tag []) ++ rest
      = '<' :: (tag.name.toList ++ (writeAttributes tag.attributes ++ ' ' :: '/' :: '>' :: rest)) := by
    simp [write_single]
  rw [htext, resume_of_scanToken (by simp) (scanToken_single htag rest)]
  rfl

/-- If children are read as they should, so is their element, with what was read before the element
    put aside in between. -/
theorem resume_element {tag : Tag} (htag : tag.Writable) {children children' : List Node}
    (hne : children ≠ []) (b : Builder) (rest : List Char)
    (hchildren : ∀ b : Builder, b.nodes = [] → ∀ rest : List Char, (∀ c ∈ rest.head?, c = '<') →
      resume b (writeAll children ++ rest) = resume { b with nodes := children'.reverse } rest) :
    resume b (Node.write (.element tag children) ++ rest)
      = resume { b with nodes := .element tag children' :: b.nodes } rest := by
  have htext : Node.write (.element tag children) ++ rest
      = '<' :: (tag.name.toList ++ (writeAttributes tag.attributes ++ '>' ::
          (writeAll children ++ '<' :: '/' :: (tag.name.toList ++ '>' :: rest)))) := by
    simp [write_element tag hne]
  -- the start tag opens the element, the children are read into it, and the closing tag completes
  -- it
  calc resume b (Node.write (.element tag children) ++ rest)
      = resume { nodes := [], opened := (tag, b.nodes) :: b.opened }
          (writeAll children ++ '<' :: '/' :: (tag.name.toList ++ '>' :: rest)) := by
        rw [htext, resume_of_scanToken (by simp) (scanToken_start htag _)]
        rfl
    _ = resume { nodes := children'.reverse, opened := (tag, b.nodes) :: b.opened }
          ('<' :: '/' :: (tag.name.toList ++ '>' :: rest)) := by
        rw [hchildren _ rfl _ (by simp)]
    _ = resume { b with nodes := .element tag children' :: b.nodes } rest := by
        rw [resume_of_scanToken (by simp) (scanToken_closing htag.name rest)]
        simp [Builder.step, bind, Except.bind]

/-- **Written nodes are read as if they were added to what was read before**, but for empty texts.
    A text must not touch a text that was read before, and what follows must not be text. -/
theorem resume_writeAll {text : String → Prop} {nodes : List Node} (h : NormalForm text nodes)
    (b : Builder) (hb : ∀ node ∈ nodes.head?, ∀ newest ∈ b.nodes.head?,
      ¬ (newest.isText = true ∧ node.isText = true))
    (rest : List Char) (hrest : ∀ c ∈ rest.head?, c = '<') :
    resume b (writeAll nodes ++ rest)
      = resume { b with nodes := (dropEmptyTexts nodes).reverse ++ b.nodes } rest := by
  induction nodes using Node.forest_induction generalizing b rest with
  | nil => rfl
  | text content nodes ih =>
    have hnext := h.isText_next
    by_cases hcontent : content = ""
    · -- nothing is written, and no text follows
      have hnodes := ih h.tail b (fun node hnode _ _ => by simp [hnext node hnode]) rest hrest
      simpa [hcontent, writeAll, Node.write, escape, dropEmptyTexts, dropEmptyTextsIn] using hnodes
    · have hscan : scanToken (escape false content.toList ++ (writeAll nodes ++ rest))
          = .ok (some (.text content.toList), writeAll nodes ++ rest) :=
        scanToken_escape (by simpa using hcontent) (head?_writeAll hnext hrest)
      have hpush : pushText content.toList b.nodes = .text content :: b.nodes := by
        have hb := hb _ rfl
        cases hnodes : b.nodes with
        | nil => simp [pushText]
        | cons newest before =>
          cases newest with
          | text previous => exact absurd ⟨rfl, rfl⟩ (hb (.text previous) (by simp [hnodes]))
          | element tag children => simp [pushText]
      have hne : escape false content.toList ++ (writeAll nodes ++ rest) ≠ [] :=
        List.append_ne_nil_of_left_ne_nil (mt escape_eq_nil_iff.mp (by simpa using hcontent)) _
      have hnodes := ih h.tail { b with nodes := .text content :: b.nodes }
        (fun node hnode _ _ => by simp [hnext node hnode]) rest hrest
      calc resume b (writeAll (.text content :: nodes) ++ rest)
          = resume { b with nodes := pushText content.toList b.nodes } (writeAll nodes ++ rest) := by
            rw [writeAll, Node.write, List.append_assoc, resume_of_scanToken hne hscan]
            rfl
        _ = resume { b with nodes := (dropEmptyTexts (.text content :: nodes)).reverse ++ b.nodes }
              rest := by
            rw [hpush, hnodes]
            simp [dropEmptyTexts, dropEmptyTextsIn, hcontent]
  | element tag children nodes ihc ihn =>
    obtain ⟨htag, hchildren⟩ := h.element
    have helement : resume b (Node.write (.element tag children) ++ (writeAll nodes ++ rest))
        = resume { b with nodes := .element tag (dropEmptyTexts children) :: b.nodes }
            (writeAll nodes ++ rest) := by
      by_cases hne : children = []
      · rw [hne]
        exact resume_single htag b _
      · refine resume_element htag hne b _ fun b' hb' rest' hrest' => ?_
        have hinside := ihc hchildren b' (by simp [hb']) rest' hrest'
        rwa [hb', List.append_nil] at hinside
    have hnodes := ihn h.tail { b with nodes := .element tag (dropEmptyTexts children) :: b.nodes }
      (by simp [Node.isText]) rest hrest
    rw [writeAll, List.append_assoc, helement, hnodes]
    simp [dropEmptyTexts, dropEmptyTextsIn]

/-- **A forest in normal form is read back without its empty texts.** -/
theorem parseFragment_toXml_of_normalForm {text : String → Prop} {nodes : List Node}
    (h : NormalForm text nodes) : parseFragment (toXml nodes) = .ok (dropEmptyTexts nodes) := by
  have hread : readNodes (writeAll nodes) = .ok (dropEmptyTexts nodes) := by
    have hresume := resume_writeAll h {} (by simp) [] (by simp)
    rw [List.append_nil, List.append_nil, resume_nil, ← readNodes_eq_resume] at hresume
    simpa [Builder.finish] using hresume
  simp only [parseFragment, toXml, String.toList_ofList, hread, Except.mapError]

/-- **Reading undoes writing.**  A forest in normal form without empty texts is read back. -/
theorem parseFragment_toXml {nodes : List Node} (h : NormalForm (· ≠ "") nodes) :
    parseFragment (toXml nodes) = .ok nodes := by
  rw [parseFragment_toXml_of_normalForm h, dropEmptyTexts_eq_self]
  intro content hoccurs
  cases hoccurs.normal h with
  | text hcontent => exact hcontent

/-- A forest with references, quotes and the end of a section of character data in its texts. -/
def sampleForest : List Node :=
  [.text "a &lt; ]]> b", .element ⟨"see", [("cref", "T:A\"&B'<"), ("x", "")]⟩ [],
    .element ⟨"para", []⟩ [.element ⟨"b", []⟩ [.text "&"], .text " <!-- "]]

/-- The sample is in normal form. -/
theorem sampleForest_normalForm : NormalForm (· ≠ "") sampleForest := by
  have hbold : Node.Normal (· ≠ "") (.element ⟨"b", []⟩ [.text "&"]) :=
    .element (by decide) (by simp [Spaced]) (List.forall_mem_singleton.mpr (.text (by decide)))
  have hpara : Node.Normal (· ≠ "")
      (.element ⟨"para", []⟩ [.element ⟨"b", []⟩ [.text "&"], .text " <!-- "]) :=
    .element (by decide) (by simp [Spaced, Node.isText])
      (List.forall_mem_cons.mpr ⟨hbold, List.forall_mem_singleton.mpr (.text (by decide))⟩)
  refine ⟨by simp [sampleForest, Spaced, Node.isText], ?_⟩
  simp only [sampleForest, List.forall_mem_cons]
  exact ⟨.text (by decide), .element (by decide) (by simp [Spaced]) (by simp), hpara, by simp⟩

/-- The sample is read as it was written. -/
theorem parseFragment_toXml_sampleForest :
    NormalForm (· ≠ "") sampleForest ∧ parseFragment (toXml sampleForest) = .ok sampleForest :=
  ⟨sampleForest_normalForm, parseFragment_toXml sampleForest_normalForm⟩

end InheritDoc.Markup
