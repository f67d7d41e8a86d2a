import InheritDoc.Markup.DocFile
import InheritDoc.Proofs.Markup.Normalization

namespace InheritDoc.Markup

/-!
# Written documentation files are read back

A documentation file is laid out with blanks between its elements.  Reading it gives back the name
of the assembly and the members, whatever their ids and their documentation are.

* `Laid`                   : elements with blank texts before, between and after them;
* `Laid.elementsNamed`     : blanks do not matter to what looks for elements;
* `DocFile.Written`        : the root element of a file for an assembly and its entries;
* `DocFile.Written.normal` : such a root is in normal form, so that it is read back as it is;
* `parse_written_docFile`  : **reading a written file gives its assembly and its entries.**
-/

/-! ### Elements with blanks between them -/

/-- The nodes are the elements with non-empty blank texts before, between and after them. -/
structure Laid (elements nodes : List Node) : Prop where
  dropBlanks : dropBlanks nodes = elements
  spaced : Spaced nodes
  nonempty : .text "" ∉ nodes

/-- Blank texts between elements are no elements. -/
theorem topElements_dropBlanks (nodes : List Node) :
    topElements (dropBlanks nodes) = topElements nodes := by
  induction nodes with
  | nil => rfl
  | cons node nodes ih =>
    cases node with
    | text content =>
      by_cases hblank : (Node.text content).isBlank
      · simpa [dropBlanks, topElements, hblank] using ih
      · simpa [dropBlanks, topElements, hblank] using ih
    | element tag children => simpa [dropBlanks, topElements, Node.isBlank] using ih

/-- An element is found by its name. -/
theorem elementsNamed_cons (name : String) (tag : Tag) (children nodes : List Node) :
    elementsNamed name (.element tag children :: nodes)
      = (if tag.name = name then [(tag, children)] else []) ++ elementsNamed name nodes := by
  by_cases hname : tag.name = name
  · simp [elementsNamed, topElements, hname]
  · simp [elementsNamed, topElements, hname]

namespace Laid

variable {elements nodes : List Node}

/-- Who looks for elements finds the same ones with and without blanks between them. -/
theorem elementsNamed (h : Laid elements nodes) (name : String) :
    elementsNamed name nodes = Markup.elementsNamed name elements := by
  rw [← h.dropBlanks, Markup.elementsNamed, Markup.elementsNamed, topElements_dropBlanks]

/-- Blanks between elements in normal form leave the normal form. -/
theorem normalForm (h : Laid elements nodes)
    (helements : ∀ element ∈ elements, element.Normal (· ≠ "")) : NormalForm (· ≠ "") nodes := by
  refine ⟨h.spaced, fun node hnode => ?_⟩
  by_cases hblank : node.isBlank
  · -- a blank is a text, and the empty text does not occur
    cases node with
    | text content => exact .text fun hempty => h.nonempty (hempty ▸ hnode)
    | element tag children => cases hblank
  · refine helements node ?_
    rw [← h.dropBlanks, Markup.dropBlanks, List.mem_filter]
    exact ⟨hnode, by simpa using hblank⟩

end Laid

/-! ### Files -/

namespace DocFile

/-- The element that names an assembly. -/
def nameElement (assembly : String) : Node :=
  .element ⟨"name", []⟩ [.text assembly]

/-- The element of an entry. -/
def memberElement (entry : DocEntry) : Node :=
  .element ⟨"member", [("name", entry.rawId)]⟩ entry.tree

/-- The node is the root of a documentation file for an assembly with these entries. -/
inductive Written (assembly : String) (entries : List DocEntry) : Node → Prop
  | doc {names members children : List Node} (hnames : Laid [nameElement assembly] names)
      (hmembers : Laid (entries.map memberElement) members)
      (hchildren : Laid [.element ⟨"assembly", []⟩ names, .element ⟨"members", []⟩ members]
        children) :
      Written assembly entries (.element ⟨"doc", []⟩ children)

/-- Every member has an entry, in the order of the members. -/
theorem filterMap_entryOf (entries : List DocEntry) :
    (elementsNamed "member" (entries.map memberElement)).filterMap entryOf
      = entries.map fun entry => { entry with tree := dropBlanks entry.tree } := by
  induction entries with
  | nil => rfl
  | cons entry entries ih =>
    have hentry : entryOf (⟨"member", [("name", entry.rawId)]⟩, entry.tree)
        = some ⟨entry.rawId, dropBlanks entry.tree⟩ := by
      simp [entryOf, Tag.attribute?]
    rw [List.map_cons, memberElement, elementsNamed_cons, if_pos rfl, List.singleton_append,
      List.filterMap_cons_some hentry, ih, List.map_cons]

/-- The name of the assembly is read from its element, without the blanks around it. -/
theorem assemblyName_nameElement (assembly : String) :
    assemblyName [nameElement assembly] = some (Text.trimString assembly) := by
  simp [assemblyName, nameElement, elementsNamed_cons, Node.textContents, Node.textContent]

namespace Written

variable {assembly : String} {entries : List DocEntry}

/-- What the children of the root say. -/
theorem ofRoot {tag : Tag} {children : List Node}
    (h : Written assembly entries (.element tag children)) :
    ofRoot children = ⟨some (Text.trimString assembly),
      entries.map fun entry => { entry with tree := dropBlanks entry.tree }⟩ := by
  cases h with
  | @doc names members children hnames hmembers hchildren =>
    -- the reader looks for elements by name, so the blanks between them do not matter
    have hassemblies : elementsNamed "assembly" children = [(⟨"assembly", []⟩, names)] := by
      rw [hchildren.elementsNamed, elementsNamed_cons, elementsNamed_cons]
      rfl
    have hmember : elementsNamed "members" children = [(⟨"members", []⟩, members)] := by
      rw [hchildren.elementsNamed, elementsNamed_cons, elementsNamed_cons]
      rfl
    have hname : assemblyName names = some (Text.trimString assembly) := by
      rw [← assemblyName_nameElement, assemblyName, assemblyName, hnames.elementsNamed]
    rw [DocFile.ofRoot, hassemblies, hmember]
    simp only [List.getLast?_singleton, Option.bind_some, List.flatMap_singleton, hname,
      hmembers.elementsNamed, filterMap_entryOf]

/-- The root is in normal form if the documentation of the entries is. -/
theorem normal {root : Node} (h : Written assembly entries root) (hassembly : assembly ≠ "")
    (hentries : ∀ entry ∈ entries, NormalForm (· ≠ "") entry.tree) : root.Normal (· ≠ "") := by
  cases h with
  | doc hnames hmembers hchildren =>
    have hname : (nameElement assembly).Normal (· ≠ "") :=
      .element (by decide) (by simp [Spaced]) (List.forall_mem_singleton.mpr (.text hassembly))
    -- from the inside out: the name, the members, the root
    have hnames := hnames.normalForm (List.forall_mem_singleton.mpr hname)
    have hmemberName : IsName "member" := by decide
    have hkeyName : IsName "name" := by decide
    have hmember (rawId : String) : Tag.Writable ⟨"member", [("name", rawId)]⟩ :=
      ⟨hmemberName, by simp, by simp, List.forall_mem_singleton.mpr hkeyName⟩
    have hmembers := hmembers.normalForm <| List.forall_mem_map.mpr fun entry hentry =>
      .element (hmember entry.rawId) (hentries entry hentry).spaced (hentries entry hentry).nodes
    have hchildren := hchildren.normalForm <| List.forall_mem_cons.mpr
      ⟨.element (by decide) hnames.spaced hnames.nodes, List.forall_mem_singleton.mpr
        (.element (by decide) hmembers.spaced hmembers.nodes)⟩
    exact .element (by decide) hchildren.spaced hchildren.nodes

end Written

end DocFile

/-- A document of one element in normal form is read back. -/
theorem parseDocument_toXml {tag : Tag} {children : List Node}
    (h : (Node.element tag children).Normal (· ≠ "")) :
    parseDocument (toXml [.element tag children]) = .ok (tag, children) := by
  have hform : NormalForm (· ≠ "") [.element tag children] :=
    .cons h .nil (by simp)
  have hempty : dropEmptyTexts [.element tag children] = [.element tag children] := by
    refine dropEmptyTexts_eq_self fun content hoccurs => ?_
    cases hoccurs.normal hform with
    | text hcontent => exact hcontent
  rw [parseDocument, parseFragment_toXml_of_normalForm hform, hempty]
  rfl

/-- **Reading a written file gives its assembly and its entries.**  None is lost, none comes twice or
    in another place, whatever their ids are and however blanks stand between the elements of the
    file.  Of their documentation just the blank texts at the top level are dropped. -/
theorem parse_written_docFile {assembly : String} (hassembly : assembly ≠ "")
    {entries : List DocEntry} (hentries : ∀ entry ∈ entries, NormalForm (· ≠ "") entry.tree)
    {root : Node} (h : DocFile.Written assembly entries root) :
    DocFile.parse (toXml [root]) = .ok {
      assembly := some (Text.trimString assembly)
      entries := entries.map fun entry => { entry with tree := dropBlanks entry.tree } } := by
  have hnormal := h.normal hassembly hentries
  cases root with
  | text content => cases h
  | element tag children =>
    rw [DocFile.parse, parseDocument_toXml hnormal, ← h.ofRoot]
    rfl

/-- Entries with ids and documentation that look like markup, two of them under one id. -/
def sampleMembers : List DocEntry :=
  [⟨"M:A<\"&'>\n", [.text "\n ", .element ⟨"summary", []⟩ [.text " "], .text "\t"]⟩, ⟨"", []⟩,
    ⟨"", [.text "</member>"]⟩]

/-- A documentation file with blanks between some of its elements. -/
def sampleDoc : Node :=
  .element ⟨"doc", []⟩ [.text "\n", .element ⟨"assembly", []⟩ [DocFile.nameElement " Shop\n"],
    .element ⟨"members", []⟩ (.text "\n  " :: sampleMembers.map DocFile.memberElement), .text " "]

/-- The name is trimmed, the blanks around the summary are dropped, and the one in it is kept. -/
theorem parse_written_docFile_sampleDoc :
    " Shop\n" ≠ "" ∧ (∀ entry ∈ sampleMembers, NormalForm (· ≠ "") entry.tree) ∧
    DocFile.Written " Shop\n" sampleMembers sampleDoc ∧
    DocFile.parse (toXml [sampleDoc]) = .ok ⟨some "Shop",
      [⟨"M:A<\"&'>\n", [.element ⟨"summary", []⟩ [.text " "]]⟩, ⟨"", []⟩,
        ⟨"", [.text "</member>"]⟩]⟩ := by
  have hsummary : Node.Normal (· ≠ "") (.element ⟨"summary", []⟩ [.text " "]) :=
    .element (by decide) (by simp [Spaced]) (List.forall_mem_singleton.mpr (.text (by decide)))
  have hentries : ∀ entry ∈ sampleMembers, NormalForm (· ≠ "") entry.tree := by
    simp only [sampleMembers, List.forall_mem_cons]
    refine ⟨?_, .nil, .cons (.text (by decide)) .nil (by simp), by simp⟩
    exact .cons (.text (by decide)) (.cons hsummary (.cons (.text (by decide)) .nil (by simp))
      (by simp [Node.isText])) (by simp [Node.isText])
  have hnames : Laid [DocFile.nameElement " Shop\n"] [DocFile.nameElement " Shop\n"] :=
    ⟨by decide, by simp [Spaced], by decide⟩
  have hmembers : Laid (sampleMembers.map DocFile.memberElement)
      (.text "\n  " :: sampleMembers.map DocFile.memberElement) :=
    ⟨by decide, by simp [Spaced, sampleMembers, DocFile.memberElement, Node.isText], by decide⟩
  have hwritten : DocFile.Written " Shop\n" sampleMembers sampleDoc :=
    .doc hnames hmembers ⟨by decide, by simp [Spaced, Node.isText], by decide⟩
  refine ⟨by decide, hentries, hwritten, ?_⟩
  rw [parse_written_docFile (by decide) hentries hwritten]
  decide +kernel

end InheritDoc.Markup
