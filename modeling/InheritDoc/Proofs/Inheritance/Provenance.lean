import InheritDoc.Proofs.Inheritance.History
import InheritDoc.Proofs.Path.Selection

namespace InheritDoc

open Markup (Tag Node allBlank)
open Markup.Node (Occurs)
open Relation (ReflTransGen)

/-!
# Where documentation comes from

Whatever stands in the finished documentation of an element was written, outside of markers, in the
documentation of an element that it leads to.  Cycles make no difference: an element on a cycle may
get less than it could, but nothing from elsewhere.

* `Markup.Node.label`, `ownLabels` : what a node says itself, and what a forest says outside of
  markers;
* `Replaced.traced`      : what occurs after a replacement was there before, or came with the new nodes;
* `Attachment.Supplies` : an element leads to one that says something outside of markers;
* `History.supplies`    : everything in a history is supplied;
* `resolveAll_provenance` : **hence so is everything in the finished documentation**, and it is blank
  where nothing but markers and blank texts can be reached.
-/

/-! ### Labels -/

/-- What a node says itself, apart from its children. -/
inductive Markup.Label where
  | text (content : String)
  | tag (tag : Tag)
  deriving DecidableEq, Repr

open Markup (Label)

/-- The content of a text, or the tag of an element. -/
def Markup.Node.label : Node → Label
  | .text content => .text content
  | .element tag _ => .tag tag

mutual

/-- What a node says outside of markers, in document order. -/
def ownLabelsIn : Node → List Label
  | .text content => [.text content]
  | .element tag children => if tag.isMarker then [] else .tag tag :: ownLabels children

/-- What a forest says outside of markers, in document order. -/
def ownLabels : List Node → List Label
  | [] => []
  | node :: nodes => ownLabelsIn node ++ ownLabels nodes

end

/-! ### Replacements -/

/-- What occurs in the portion of a marker occurs in the tree it is taken from. -/
theorem occurs_of_portion {sections : List Tag} {marker : Tag} {tree : List Node} {node : Node}
    (h : Occurs node (portion sections marker tree)) : Occurs node tree := by
  unfold portion at h
  split at h
  · split at h
    · exact h.of_forall fun _ hpart => Path.occurs_of_mem_select hpart
    · exact absurd h Occurs.not_nil
  · split at h
    · exact h
    · exact h.of_forall fun _ hpart => Path.occurs_of_mem_select hpart

/-- Where a node comes from that occurs after a replacement: its label was there before, outside of
    markers, or it occurs in the new nodes for an outermost marker. -/
def Traced (new : List Tag → Tag → List Node → Prop) (nodes : List Node) (node : Node) : Prop :=
  node.label ∈ ownLabels nodes ∨ ∃ sections, ∃ marker ∈ outermostMarkers nodes, ∃ out,
    new sections marker out ∧ Occurs node out

/-- What is traced to the later nodes of a forest is traced to the forest. -/
theorem Traced.cons {new : List Tag → Tag → List Node → Prop} {nodes : List Node} {node : Node}
    (h : Traced new nodes node) (first : Node) : Traced new (first :: nodes) node := by
  rcases h with h | ⟨sections, marker, hmarker, hout⟩
  · exact .inl (List.mem_append_right _ h)
  · exact .inr ⟨sections, marker, List.mem_append_right _ hmarker, hout⟩

/-- What is traced to the children of an element is traced to the element. -/
theorem Traced.inside {new : List Tag → Tag → List Node → Prop} {tag : Tag} {children : List Node}
    {node : Node} (htag : tag.isMarker = false) (h : Traced new children node) (nodes : List Node) :
    Traced new (.element tag children :: nodes) node := by
  rcases h with h | ⟨sections, marker, hmarker, hout⟩
  · exact .inl (by simp [ownLabels, ownLabelsIn, htag, h])
  · exact .inr ⟨sections, marker, by simp [outermostMarkers, outermostMarkersIn, htag, hmarker], hout⟩

/-- Everything that occurs after a replacement can be traced back. -/
theorem Replaced.traced {new : List Tag → Tag → List Node → Prop} {sections : List Tag}
    {nodes nodes' : List Node} (h : Replaced new sections nodes nodes') {node : Node}
    (hnode : Occurs node nodes') : Traced new nodes node := by
  -- induction on the replacement: only a marker brings in nodes that were not there
  induction h with
  | nil => exact absurd hnode Occurs.not_nil
  | text _ ih =>
    rcases Occurs.cons_iff.mp hnode with rfl | hnode | hnode
    · exact .inl (by simp [ownLabels, ownLabelsIn, Node.label])
    · exact absurd hnode Occurs.not_nil
    · exact (ih hnode).cons _
  | marker htag hout _ ih =>
    rcases Occurs.append_iff.mp hnode with hnode | hnode
    · exact .inr ⟨_, _, by simp [outermostMarkers, outermostMarkersIn, htag], _, hout, hnode⟩
    · exact (ih hnode).cons _
  | element htag _ _ ihc ihn =>
    rcases Occurs.cons_iff.mp hnode with rfl | hnode | hnode
    · exact .inl (by simp [ownLabels, ownLabelsIn, htag, Node.label])
    · exact (ihc hnode).inside htag _
    · exact (ihn hnode).cons _

/-! ### Histories -/

variable {a : Attachment} {o : Options}

/-- The element `id` leads to one whose documentation says `label` outside of markers. -/
def Attachment.Supplies (a : Attachment) (o : Options) (id : String) (label : Label) : Prop :=
  ∃ c e, ReflTransGen (a.DependsOn o) id c ∧ a.catalog.lookup c = some e ∧
    label ∈ ownLabels (a.effectiveDoc o e)

/-- What a dependency leads to, the element leads to. -/
theorem Attachment.Supplies.of_dependsOn {id c : String} {label : Label} (hc : a.DependsOn o id c)
    (h : a.Supplies o c label) : a.Supplies o id label := by
  obtain ⟨c', e, hreach, he, hlabel⟩ := h
  exact ⟨c', e, .head hc hreach, he, hlabel⟩

/-- Everything in a history is supplied by what an element leads to. -/
theorem History.supplies {docs : List (String × List Node)} (h : History a o docs) :
    ∀ id tree, docs.lookup id = some tree → ∀ node, Occurs node tree → a.Supplies o id node.label := by
  refine h.forall_lookup fun {older id e tree} _ hpast he htree node hnode => ?_
  obtain rfl := Catalog.id_of_lookup he
  rcases htree.traced hnode with hlabel | ⟨sections, marker, hmarker, out, hout, hnode⟩
  · exact ⟨e.id, e, .refl, he, hlabel⟩
  · cases hout with
    | dropped _ => exact absurd hnode Occurs.not_nil
    | nothing _ _ => exact absurd hnode Occurs.not_nil
    | @taken earlier later c tree' _ hcandidates _ hc _ =>
      -- the node comes from an older tree, whose element is a dependency
      have hcandidate : c ∈ (a.catalog.candidates e marker).filter (· ≠ e.id) := by
        rw [hcandidates]
        simp
      have holder := hpast c tree' hc node (occurs_of_portion hnode)
      exact holder.of_dependsOn (dependsOn_of_candidate he hmarker hcandidate)

/-- A node that adds nothing of its own: a blank text or a marker. -/
def Markup.Node.isIdle : Node → Bool
  | .text content => (Node.text content).isBlank
  | .element tag _ => tag.isMarker

/-- Only blank texts are said outside of markers by idle nodes. -/
theorem isBlank_of_label_mem {nodes : List Node} (h : ∀ node ∈ nodes, node.isIdle = true)
    {node : Node} (hnode : node.label ∈ ownLabels nodes) : node.isBlank = true := by
  induction nodes with
  | nil => exact absurd hnode List.not_mem_nil
  | cons first nodes ih =>
    rw [List.forall_mem_cons] at h
    rcases List.mem_append.mp hnode with hnode | hnode
    · -- a text is its own label, and markers have none
      cases first with
      | text content =>
        cases node with
        | text content' =>
          obtain rfl : content' = content := by simpa [ownLabelsIn, Node.label] using hnode
          exact h.1
        | element tag children => simp [ownLabelsIn, Node.label] at hnode
      | element tag children =>
        have htag : tag.isMarker = true := h.1
        simp [ownLabelsIn, htag] at hnode
    · exact ih h.2 hnode

/-! ### The finished documentation -/

/-- **Nothing is invented.**  The content of every text and the tag of every element in the finished
    documentation of an element was written outside of markers in what the element itself, or an
    element it leads to, starts from.  If these are nothing but markers at the top level and blank
    texts, then the finished documentation is blank. -/
theorem resolveAll_provenance (a : Attachment) (o : Options) {id : String}
    (hid : id ∈ a.catalog.ids) :
    ∃ tree, (a.resolveAll o).lookup id = some tree ∧
      (∀ node, Occurs node tree → ∃ c e, ReflTransGen (a.DependsOn o) id c ∧
        a.catalog.lookup c = some e ∧ node.label ∈ ownLabels (a.effectiveDoc o e)) ∧
      ((∀ c e, ReflTransGen (a.DependsOn o) id c → a.catalog.lookup c = some e →
          ∀ node ∈ a.effectiveDoc o e, node.isIdle = true) →
        allBlank tree = true) := by
  obtain ⟨e, he⟩ := Catalog.mem_ids_iff.mp hid
  obtain ⟨tree, htree⟩ := exists_lookup_resolveAll (o := o) he
  have hsupplies := (resolveAll_history a o).supplies id tree htree
  refine ⟨tree, htree, hsupplies, fun hidle => ?_⟩
  rw [allBlank, List.all_eq_true]
  intro node hnode
  obtain ⟨c, e', hreach, he', hlabel⟩ := hsupplies node (.here hnode)
  exact isBlank_of_label_mem (hidle c e' hreach he') hlabel

/-- A circle and a curve that inherit from each other and say nothing themselves. -/
def sampleRing : Attachment where
  catalog := { entries := [sampleClass "Circle" ["Curve"], sampleClass "Curve" ["Circle"]] }
  docs := [("Circle", [.text " ", .element ⟨Markup.markerName, []⟩ []]),
    ("Curve", [.element ⟨Markup.markerName, []⟩ []])]

/-- In the sample every tree consists of markers and blanks. -/
theorem sampleRing_idle {c : String} {e : Entry} (he : sampleRing.catalog.lookup c = some e) :
    ∀ node ∈ sampleRing.effectiveDoc {} e, node.isIdle = true := by
  have hmem := Catalog.mem_of_lookup he
  simp only [sampleRing, List.mem_cons, List.not_mem_nil, or_false] at hmem
  rcases hmem with rfl | rfl
  · decide
  · decide

/-- What the circle inherits past the cycle it is on was written somewhere, and where nothing is
    written on a cycle there is nothing in the end. -/
theorem resolveAll_provenance_circle :
    ("Circle" ∈ sampleAttachment.catalog.ids ∧
      (sampleAttachment.resolveAll {}).lookup "Circle"
        = some [.element ⟨"summary", []⟩ [.text "A shape."]] ∧
      ∀ node, Occurs node [.element ⟨"summary", []⟩ [.text "A shape."]] → ∃ c e,
        ReflTransGen (sampleAttachment.DependsOn {}) "Circle" c ∧
        sampleAttachment.catalog.lookup c = some e ∧
        node.label ∈ ownLabels (sampleAttachment.effectiveDoc {} e)) ∧
    ("Circle" ∈ sampleRing.catalog.ids ∧
      ∃ tree, (sampleRing.resolveAll {}).lookup "Circle" = some tree ∧ allBlank tree = true) := by
  have hid : "Circle" ∈ sampleAttachment.catalog.ids := Catalog.mem_ids_iff.mpr ⟨_, rfl⟩
  have hring : "Circle" ∈ sampleRing.catalog.ids := Catalog.mem_ids_iff.mpr ⟨_, rfl⟩
  obtain ⟨tree, htree, hlabels, -⟩ := resolveAll_provenance sampleAttachment {} hid
  obtain rfl := Option.some.inj (sample_lookup_circle.symm.trans htree)
  obtain ⟨blank, hblank, -, hidle⟩ := resolveAll_provenance sampleRing {} hring
  exact ⟨⟨hid, sample_lookup_circle, hlabels⟩, hring, blank, hblank,
    hidle fun _ _ _ he => sampleRing_idle he⟩

end InheritDoc
