import InheritDoc.Proofs.Inheritance.Calls

namespace InheritDoc

open Markup (Tag Node)

/-!
# References that are not followed

Markers that name an element by a `cref` attribute may be left out of resolution.  They might then
as well not be there: neither the result of a call nor the state that it leaves behind tells the two
apart, though fewer elements have a marker at all.

* `dropCrefs`             : a forest without its outermost markers that carry a reference;
* `Attachment.dropCrefs`  : an attachment with such forests;
* `expandNodes_dropCrefs` : an expansion that replaces these markers by nothing expands what is left;
* `resolve_dropCrefs`     : hence calls agree, from any state;
* `resolveAll_eq_dropCrefs` : **hence not to follow references is to delete them.**
-/

/-! ### Dropping references -/

/-- The element carries a reference. -/
def Markup.Tag.hasCref (tag : Tag) : Bool :=
  (tag.attribute? "cref").isSome

mutual

/-- What is left of a node without the outermost markers that carry a reference. -/
def dropCrefsIn : Node → List Node
  | .text content => [.text content]
  | .element tag children =>
    if tag.isMarker then if tag.hasCref then [] else [.element tag children]
    else [.element tag (dropCrefs children)]

/-- A forest without the outermost markers that carry a reference, at any depth.  What stands inside
    another marker is left alone. -/
def dropCrefs : List Node → List Node
  | [] => []
  | node :: nodes => dropCrefsIn node ++ dropCrefs nodes

end

/-- The same elements, with the same of them documented, but without the outermost markers that
    carry a reference. -/
def Attachment.dropCrefs (a : Attachment) : Attachment :=
  { a with docs := a.docs.map fun (id, tree) => (id, InheritDoc.dropCrefs tree) }

/-- Unfolding lemma: a text stays. -/
@[simp] theorem dropCrefs_text (content : String) (nodes : List Node) :
    dropCrefs (.text content :: nodes) = .text content :: dropCrefs nodes := by
  simp [dropCrefs, dropCrefsIn]

/-- Unfolding lemma: a marker with a reference goes. -/
theorem dropCrefs_reference {tag : Tag} (htag : tag.isMarker = true) (hcref : tag.hasCref = true)
    (children nodes : List Node) :
    dropCrefs (.element tag children :: nodes) = dropCrefs nodes := by
  simp [dropCrefs, dropCrefsIn, htag, hcref]

/-- Unfolding lemma: any other marker stays as it is. -/
theorem dropCrefs_marker {tag : Tag} (htag : tag.isMarker = true) (hcref : tag.hasCref = false)
    (children nodes : List Node) :
    dropCrefs (.element tag children :: nodes) = .element tag children :: dropCrefs nodes := by
  simp [dropCrefs, dropCrefsIn, htag, hcref]

/-- Unfolding lemma: references are dropped inside of any other element. -/
theorem dropCrefs_element {tag : Tag} (htag : tag.isMarker = false) (children nodes : List Node) :
    dropCrefs (.element tag children :: nodes)
      = .element tag (dropCrefs children) :: dropCrefs nodes := by
  simp [dropCrefs, dropCrefsIn, htag]

/-! ### What is attached -/

/-- The same elements are documented. -/
theorem Attachment.rawDoc_dropCrefs (a : Attachment) (id : String) :
    a.dropCrefs.rawDoc id = (a.rawDoc id).map InheritDoc.dropCrefs := by
  show (a.docs.map fun (id, tree) => (id, InheritDoc.dropCrefs tree)).lookup id = _
  rw [rawDoc]
  induction a.docs with
  | nil => rfl
  | cons doc docs ih =>
    rw [List.map_cons, List.lookup_cons, List.lookup_cons, ih]
    cases id == doc.1 with
    | true => rfl
    | false => rfl

/-- What an element starts from loses its references, too: a lone marker for an inherited member
    has none. -/
theorem Attachment.effectiveDoc_dropCrefs (a : Attachment) {o o' : Options}
    (ho : o'.inheritUndocumented = o.inheritUndocumented) (e : Entry) :
    a.dropCrefs.effectiveDoc o' e = InheritDoc.dropCrefs (a.effectiveDoc o e) := by
  unfold effectiveDoc
  rw [rawDoc_dropCrefs, ho]
  cases a.rawDoc e.id with
  | some tree => rfl
  | none =>
    have hmarker : (⟨Markup.markerName, []⟩ : Tag).isMarker = true := by simp [Tag.isMarker]
    by_cases h : (o.inheritUndocumented && e.isInherited) = true
    · simp only [Option.map_none, h, ↓reduceIte]
      rw [dropCrefs_marker hmarker (by simp [Tag.hasCref, Tag.attribute?]), InheritDoc.dropCrefs]
    · simp [h, InheritDoc.dropCrefs]

/-! ### Expansion -/

/-- An expansion that replaces the references by nothing, and other markers as another expansion
    does, is that other expansion of what is left without the references. -/
theorem expandNodes_dropCrefs {σ : Type} {replace replace' : List Tag → Tag → σ → List Node × σ}
    (hreference : ∀ sections tag s, tag.hasCref = true → replace sections tag s = ([], s))
    (hother : ∀ sections tag s, tag.hasCref = false →
      replace sections tag s = replace' sections tag s)
    (sections : List Tag) (nodes : List Node) (s : σ) :
    expandNodes replace sections nodes s = expandNodes replace' sections (dropCrefs nodes) s := by
  induction nodes using Node.forest_induction generalizing sections s with
  | nil => simp [dropCrefs, expandNodes]
  | text content nodes ih =>
    rw [dropCrefs_text, expandNodes_text, expandNodes_text, ih]
  | element tag children nodes ihc ihn =>
    by_cases htag : tag.isMarker = true
    · rw [expandNodes_marker htag]
      by_cases hcref : tag.hasCref = true
      · -- nothing is put in its place, and the state is passed on as it is
        rw [dropCrefs_reference htag hcref, hreference sections tag s hcref, List.nil_append, ihn]
      · rw [Bool.not_eq_true] at hcref
        rw [dropCrefs_marker htag hcref, expandNodes_marker htag, hother sections tag s hcref, ihn]
    · rw [Bool.not_eq_true] at htag
      rw [dropCrefs_element htag, expandNodes_element htag, expandNodes_element htag, ihc, ihn]

/-- A marker with a reference is dropped if references are not followed. -/
theorem plan_of_hasCref (c : Catalog) (o : Options) (e : Entry) (sections : List Tag) {marker : Tag}
    (h : marker.hasCref = true) :
    plan c { o with followCrefs := false } e sections marker = none := by
  have hcref : (marker.attribute? "cref").isSome = true := h
  simp [plan, hcref]

/-- Whether references are followed does not matter to any other marker. -/
theorem plan_congr (c : Catalog) {o o' : Options} (e : Entry) (sections : List Tag) {marker : Tag}
    (h : marker.hasCref = false) : plan c o e sections marker = plan c o' e sections marker := by
  have hcref : (marker.attribute? "cref").isSome = false := h
  simp only [plan, hcref, Bool.false_and]

/-! ### Calls -/

/-- Where all calls agree, so does the expansion of an element. -/
theorem expansion_dropCrefs {a : Attachment} {o : Options} {n : Nat}
    (hcalls : resolve a { o with followCrefs := false } n
      = resolve a.dropCrefs { o with followCrefs := true } n) (e : Entry) (p : Progress) :
    expansion a { o with followCrefs := false } n e p
      = expansion a.dropCrefs { o with followCrefs := true } n e p := by
  rw [expansion, expansion, a.effectiveDoc_dropCrefs rfl]
  refine expandNodes_dropCrefs (fun sections tag q htag => ?_) (fun sections tag q htag => ?_) [] _ _
  · rw [replacement, plan_of_hasCref a.catalog o e sections htag, substitute]
  · rw [replacement, replacement, hcalls]
    exact congrArg (substitute _ · q) (plan_congr a.catalog e sections htag)

/-- **Calls agree.**  From any state, a call that does not follow references yields what a call yields
    that finds none to follow, and leaves the same state behind. -/
theorem resolve_dropCrefs (a : Attachment) (o : Options) (n : Nat) (id : String) (p : Progress) :
    resolve a { o with followCrefs := false } n id p
      = resolve a.dropCrefs { o with followCrefs := true } n id p := by
  induction n generalizing id p with
  | zero => rfl
  | succ n ih =>
    cases hfinished : p.finished.lookup id with
    | some tree => simp only [resolve, hfinished]
    | none =>
      by_cases hactive : id ∈ p.active
      · simp only [resolve, hfinished, hactive, ↓reduceIte]
      · have hcatalog : a.dropCrefs.catalog.lookup id = a.catalog.lookup id := rfl
        cases he : a.catalog.lookup id with
        | none => simp only [resolve, hfinished, hactive, ↓reduceIte, hcatalog, he]
        | some e =>
          -- an element whose markers all carry references is entered and left for nothing
          have hcalls : resolve a { o with followCrefs := false } n
              = resolve a.dropCrefs { o with followCrefs := true } n := by
            funext c q
            exact ih c q
          rw [resolve_of_new hfinished hactive he, resolve_of_new hfinished hactive (hcatalog.trans he),
            expansion_dropCrefs hcalls]

/-! ### Runs -/

/-- Runs over any list of elements agree, from any state. -/
theorem resolveEach_dropCrefs (a : Attachment) (o : Options) (ids : List String) (p : Progress) :
    resolveEach a { o with followCrefs := false } ids p
      = resolveEach a.dropCrefs { o with followCrefs := true } ids p := by
  have hsize : a.dropCrefs.catalog.entries.length = a.catalog.entries.length := rfl
  unfold resolveEach
  induction ids generalizing p with
  | nil => rw [List.foldl_nil, List.foldl_nil]
  | cons id ids ih =>
    rw [List.foldl_cons, List.foldl_cons, hsize, resolve_dropCrefs]
    exact ih _

/-- **Not to follow references is to delete them.**  The documentation of all elements, expanded
    without following references, is the documentation that is expanded when all outermost markers
    with a reference are deleted beforehand. -/
theorem resolveAll_eq_dropCrefs (a : Attachment) (o : Options) :
    a.resolveAll { o with followCrefs := false }
      = a.dropCrefs.resolveAll { o with followCrefs := true } := by
  have hids : a.dropCrefs.catalog.ids = a.catalog.ids := rfl
  rw [Attachment.resolveAll, Attachment.resolveAll, hids, resolveEach_dropCrefs]

end InheritDoc
