import InheritDoc.Proofs.Inheritance.Calls

namespace InheritDoc

open Markup (Tag Node allBlank)
open Relation (TransGen)

/-!
# The history of a run

Documentation is written once and never changed, newest first, so what is written is also the order
in which it was written.  A marker can only have inherited what was written before.

* `History`               : every piece of documentation obeys the inheritance rule with respect to
  what is older than it;
* `resolve_history`       : a call adds to a history, if every active element leads to the one that
  is called for and the counter is large enough;
* `resolveEach_spec`      : so does a run over any list of elements, and it covers them;
* `resolveAll_inheritance` : hence the finished documentation obeys the inheritance rule.
-/

variable {a : Attachment} {o : Options}

/-- Written documentation, newest first, in which everything obeys the inheritance rule with respect
    to what is older. -/
inductive History (a : Attachment) (o : Options) : List (String × List Node) → Prop
  | nil : History a o []
  | cons {older : List (String × List Node)} {id : String} {e : Entry} {tree : List Node}
      (holder : History a o older) (hid : older.lookup id = none)
      (he : a.catalog.lookup id = some e)
      (htree : Replaced (Inherits a o older e) [] (a.effectiveDoc o e) tree) :
      History a o ((id, tree) :: older)

/-- A state in the midst of a run: the given elements are active and a history is written. -/
structure Underway (a : Attachment) (o : Options) (active : List String) (p : Progress) : Prop where
  active_eq : p.active = active
  history : History a o p.finished

/-! ### From answers to the rule -/

/-- A blank answer of a dependency is a reason to pass it over.  If it was blank because the
    dependency is active, then that one leads back here. -/
theorem Answered.passedOver {active : List String} {docs : List (String × List Node)} {id c : String}
    {tree : List Node} (h : Answered a (id :: active) docs c tree) (hblank : allBlank tree = true)
    (hactive : ∀ x ∈ active, TransGen (a.DependsOn o) x id) (hc : a.DependsOn o id c) :
    PassedOver a o docs id c := by
  cases h with
  | written h => exact .blank h hblank
  | active h =>
    have hmem : c ∈ active := (List.mem_cons.mp h).resolve_left hc.ne
    exact .cyclic ⟨.single hc, hactive c hmem⟩
  | unknown h => exact .unknown h

/-- An answer that is not blank has been written. -/
theorem Answered.lookup_eq_some {active : List String} {docs : List (String × List Node)} {c : String}
    {tree : List Node} (h : Answered a active docs c tree) (htree : allBlank tree = false) :
    docs.lookup c = some tree := by
  cases h with
  | written h => exact h
  | active h => exact absurd htree (by simp [allBlank])
  | unknown h => exact absurd htree (by simp [allBlank])

/-- While nothing is active, the answer for a known element has been written. -/
theorem Answered.lookup_of_known {docs : List (String × List Node)} {id : String} {e : Entry}
    {tree : List Node} (h : Answered a [] docs id tree) (he : a.catalog.lookup id = some e) :
    docs.lookup id = some tree := by
  cases h with
  | written h => exact h
  | active h => exact absurd h List.not_mem_nil
  | unknown h => rw [he] at h; exact absurd h (Option.some_ne_none e)

/-! ### One call -/

/-- Every call with counter `n` adds to a history, if the counter is large enough and every active
    element leads to the one that is called for. -/
def CallsKeepHistory (a : Attachment) (o : Options) (n : Nat) : Prop :=
  ∀ (id : String) (p : Progress), a.pending p.active < n →
    (∀ x ∈ p.active, TransGen (a.DependsOn o) x id) → History a o p.finished →
    History a o (resolve a o n id p).2.finished

section Expansion

variable {n : Nat} {e : Entry} {active : List String} (hcall : CallsKeepHistory a o (n + 1))
  (he : a.catalog.lookup e.id = some e) (hn : a.pending (e.id :: active) < n + 1)
  (hactive : ∀ x ∈ active, TransGen (a.DependsOn o) x e.id)

include hcall hn hactive

/-- A call for a dependency, made while an element is being expanded. -/
theorem resolve_dependency {c : String} (hc : a.DependsOn o e.id c) (p : Progress)
    (hp : Underway a o (e.id :: active) p) :
    Keeps (Underway a o (e.id :: active)) Progress.Extends
      (fun p => Answered a (e.id :: active) p.finished c) p (resolve a o (n + 1) c p) := by
  have hextends := resolve_extends a o (n + 1) c p
  -- every active element led to `e`, and `e` depends on `c`
  have hpath : ∀ x ∈ p.active, TransGen (a.DependsOn o) x c := by
    intro x hx
    rw [hp.active_eq, List.mem_cons] at hx
    rcases hx with rfl | hx
    · exact .single hc
    · exact .tail (hactive x hx) hc
  have hhistory := hcall c p (by rw [hp.active_eq]; exact hn) hpath hp.history
  refine ⟨⟨hextends.active.trans hp.active_eq, hhistory⟩, hextends, ?_⟩
  rw [← hp.active_eq]
  exact resolve_answered a o n c p

include he

/-- The replacement of an outermost marker obeys the inheritance rule. -/
theorem replacement_inherits (sections : List Tag) (marker : Tag)
    (hmarker : marker ∈ outermostMarkers (a.effectiveDoc o e)) (p : Progress)
    (hp : Underway a o (e.id :: active) p) :
    Keeps (Underway a o (e.id :: active)) Progress.Extends
      (fun p => Inherits a o p.finished e sections marker) p
      (replacement a o (n + 1) e sections marker p) := by
  unfold replacement
  obtain ⟨hdropped, hplan⟩ | ⟨hdropped, pl, hplan, hcandidates, htake⟩ :=
    plan_cases a.catalog o e sections marker
  · rw [hplan]
    exact ⟨hp, .refl p, .dropped hdropped⟩
  · rw [hplan]
    -- the candidates of a marker are dependencies, so the induction hypothesis answers for each of
    -- them
    have hdep : ∀ c ∈ pl.candidates, a.DependsOn o e.id c :=
      fun c hc => dependsOn_of_candidate he hmarker (hcandidates ▸ hc)
    have hcandidate := fun c hc p => resolve_dependency hcall hn hactive (hdep c hc) p
    have hpick := substitute_picks .refl .trans hcandidate (fun _ _ _ _ => Answered.mono) p hp
    refine ⟨hpick.inv, hpick.later, ?_⟩
    obtain ⟨pick, hpick', hout⟩ := hpick.result
    rw [hout]
    -- a candidate with a blank answer is passed over, finished or on the way back to itself
    have hpassed : ∀ c ∈ pl.candidates, ∀ docs, (∃ tree, Answered a (e.id :: active) docs c tree ∧
        allBlank tree = true) → PassedOver a o docs e.id c := by
      rintro c hc docs ⟨tree, htree, hblank⟩
      exact htree.passedOver hblank hactive (hdep c hc)
    cases pick with
    | none =>
      exact .nothing hdropped fun c hc => hpassed c (hcandidates ▸ hc) _ (hpick' c (hcandidates ▸ hc))
    | some tree =>
      obtain ⟨earlier, c, later, hsplit, hearlier, hc, htree⟩ := hpick'
      rw [Option.map_some, Option.getD_some, htake]
      refine .taken hdropped (hcandidates ▸ hsplit) (fun c' hc' => ?_) (hc.lookup_eq_some htree) htree
      exact hpassed c' (hsplit ▸ List.mem_append_left _ hc') _ (hearlier c' hc')

end Expansion

/-- The expansion of an element adds to a history and obeys the inheritance rule with respect to
    it. -/
theorem expansion_inherits {n : Nat} {e : Entry} {p : Progress} (hcall : CallsKeepHistory a o n)
    (he : a.catalog.lookup e.id = some e) (hid : e.id ∉ p.active) (hn : a.pending p.active < n + 1)
    (hactive : ∀ x ∈ p.active, TransGen (a.DependsOn o) x e.id) (hp : History a o p.finished) :
    History a o (expansion a o n e p).2.finished ∧
      Replaced (Inherits a o (expansion a o n e p).2.finished e) [] (a.effectiveDoc o e)
        (expansion a o n e p).1 := by
  have hpending := a.pending_cons_lt he hid
  -- the counter has not run out, so calls for the dependencies are answered
  obtain ⟨m, rfl⟩ : ∃ m, n = m + 1 := ⟨n - 1, by omega⟩
  have hstep := replacement_inherits hcall he (by omega : a.pending (e.id :: p.active) < m + 1) hactive
  have hkeeps := expandNodes_replaced .refl .trans [] hstep
    (fun _ _ _ _ _ hlater => Inherits.mono hlater.lookup) (p.enter e.id) ⟨rfl, hp⟩
  exact ⟨hkeeps.inv.history, hkeeps.result⟩

/-- **Every call adds to a history**, if the counter is large enough and every active element leads
    to the one that is called for. -/
theorem resolve_history (a : Attachment) (o : Options) (n : Nat) : CallsKeepHistory a o n := by
  induction n with
  | zero => exact fun id p hn => absurd hn (Nat.not_lt_zero _)
  | succ n ih =>
    intro id p hn hactive hp
    obtain ⟨tree, -, h⟩ | ⟨-, h⟩ | ⟨e, hfinished, hid, he, h⟩ := resolve_cases a o n id p
    · rw [h]; exact hp
    · rw [h]; exact hp
    · rw [h]
      obtain rfl := Catalog.id_of_lookup he
      obtain ⟨hhistory, htree⟩ := expansion_inherits ih he hid hn hactive hp
      -- the element was active during its expansion, so it is still unwritten
      have hextends := expandNodes_extends (resolve_extends a o n) e [] (a.effectiveDoc o e)
        (p.enter e.id)
      have hunwritten := (hextends.lookup_active List.mem_cons_self).trans hfinished
      exact .cons hhistory hunwritten he htree

/-! ### A whole run -/

/-- A run begins with nothing written and nothing active. -/
theorem underway_start (a : Attachment) (o : Options) : Underway a o [] {} :=
  ⟨rfl, .nil⟩

/-- **A run over any list of elements** adds to a history, keeps what was written before, and ends
    with documentation for every known element of the list. -/
theorem resolveEach_spec (ids : List String) {p : Progress} (hp : Underway a o [] p) :
    Underway a o [] (resolveEach a o ids p) ∧ p.Extends (resolveEach a o ids p) ∧
      ∀ id ∈ ids, ∀ e, a.catalog.lookup id = some e →
        ∃ tree, (resolveEach a o ids p).finished.lookup id = some tree := by
  induction ids generalizing p with
  | nil => exact ⟨hp, .refl p, fun id hid => absurd hid List.not_mem_nil⟩
  | cons id ids ih =>
    have hextends := resolve_extends a o (a.catalog.entries.length + 1) id p
    have hanswer := resolve_answered a o a.catalog.entries.length id p
    -- between the calls of a run nothing is active, so that there is no chain to check
    have hhistory := resolve_history a o _ id p (a.pending_lt p.active)
      (by rw [hp.active_eq]; exact fun x hx => absurd hx List.not_mem_nil) hp.history
    have hstep : Underway a o [] (resolve a o (a.catalog.entries.length + 1) id p).2 :=
      ⟨hextends.active.trans hp.active_eq, hhistory⟩
    obtain ⟨hunderway, hrest, hcovered⟩ := ih hstep
    refine ⟨hunderway, hextends.trans hrest, List.forall_mem_cons.mpr ⟨fun e he => ?_, hcovered⟩⟩
    rw [hp.active_eq] at hanswer
    exact ⟨_, hrest.lookup (hanswer.lookup_of_known he)⟩

/-- The finished documentation of all elements is a history. -/
theorem resolveAll_history (a : Attachment) (o : Options) : History a o (a.resolveAll o) :=
  (resolveEach_spec a.catalog.ids (underway_start a o)).1.history

/-- Every known element has finished documentation. -/
theorem exists_lookup_resolveAll {id : String} {e : Entry} (he : a.catalog.lookup id = some e) :
    ∃ tree, (a.resolveAll o).lookup id = some tree :=
  (resolveEach_spec a.catalog.ids (underway_start a o)).2.2 id (Catalog.mem_ids_iff.mpr ⟨e, he⟩) e he

/-- What is written for one more element leaves the other documentation as it is. -/
theorem lookup_cons_of_lookup {older : List (String × List Node)} {id x : String}
    {tree tree' : List Node} (hid : older.lookup id = none) (hx : older.lookup x = some tree') :
    ((id, tree) :: older).lookup x = some tree' := by
  have hne : x ≠ id := by
    rintro rfl
    rw [hid] at hx
    exact Option.some_ne_none tree' hx.symm
  rw [List.lookup_cons, beq_false_of_ne hne, hx]

/-- **Induction over a history.**  What holds of every piece of documentation if it holds of all that
    is older holds of the whole history.  What is older is also found in the whole. -/
theorem History.forall_lookup {docs : List (String × List Node)} (h : History a o docs)
    {P : String → List Node → Prop}
    (hstep : ∀ {older id e tree}, (∀ {y t}, older.lookup y = some t → docs.lookup y = some t) →
      (∀ y t, older.lookup y = some t → P y t) → a.catalog.lookup id = some e →
      Replaced (Inherits a o older e) [] (a.effectiveDoc o e) tree → P id tree) :
    ∀ id tree, docs.lookup id = some tree → P id tree := by
  induction h with
  | nil => intro id tree hid; exact absurd hid (by simp)
  | @cons older x e tree' _ hx he htree' ih =>
    intro id tree hid
    have hgrow : ∀ {y t}, older.lookup y = some t → ((x, tree') :: older).lookup y = some t :=
      fun hy => lookup_cons_of_lookup hx hy
    -- what is found in a part of `older` is found in the whole, by way of `older`
    have hpast : ∀ y t, older.lookup y = some t → P y t :=
      ih fun hgrow' hpast' => hstep (fun hy => hgrow (hgrow' hy)) hpast'
    rw [List.lookup_cons] at hid
    cases hxid : id == x with
    | true =>
      rw [hxid] at hid
      obtain rfl := eq_of_beq hxid
      obtain rfl := Option.some.inj hid
      exact hstep hgrow hpast he htree'
    | false =>
      rw [hxid] at hid
      exact hpast id tree hid

/-! ### The finished documentation -/

/-- **The finished documentation obeys the inheritance rule.**  The documentation of every known
    element is what the element starts from, with every outermost marker replaced in place by what
    it inherits from the finished documentation. -/
theorem resolveAll_inheritance (a : Attachment) (o : Options) {id : String} {e : Entry}
    (he : a.catalog.lookup id = some e) :
    ∃ tree, (a.resolveAll o).lookup id = some tree ∧
      Replaced (Inherits a o (a.resolveAll o) e) [] (a.effectiveDoc o e) tree := by
  obtain ⟨tree, htree⟩ := exists_lookup_resolveAll he
  have hrule : ∀ id tree, (a.resolveAll o).lookup id = some tree →
      ∃ e, a.catalog.lookup id = some e ∧
        Replaced (Inherits a o (a.resolveAll o) e) [] (a.effectiveDoc o e) tree :=
    (resolveAll_history a o).forall_lookup fun hgrow _ he hreplaced =>
      ⟨_, he, hreplaced.mono fun _ _ _ hout => hout.mono hgrow⟩
  obtain ⟨e', he', hreplaced⟩ := hrule id tree htree
  obtain rfl := Option.some.inj (he.symm.trans he')
  exact ⟨tree, htree, hreplaced⟩

/-- A class at the top level, as an entry with the given bases. -/
def sampleClass (name : String) (bases : List String) : Entry :=
  { id := name, descriptor := .classDecl "" name, bases }

/-- A circle inherits from an unknown type, from a curve that inherits from the circle, and from a
    shape; a square inherits from the shape, which alone inherits from nothing. -/
def sampleAttachment : Attachment where
  catalog := { entries := [sampleClass "Circle" ["Missing", "Curve", "Shape"],
    sampleClass "Curve" ["Circle"], sampleClass "Shape" [], sampleClass "Square" ["Shape"]] }
  docs := [("Circle", [.element ⟨Markup.markerName, []⟩ []]),
    ("Curve", [.element ⟨Markup.markerName, []⟩ []]),
    ("Shape", [.element ⟨"summary", []⟩ [.text "A shape."]]),
    ("Square", [.element ⟨"summary", []⟩ [.element ⟨Markup.markerName, []⟩ [], .text " Even."]])]

/-- The finished documentation of the sample.  The elements are taken in the order of their ids, and
    each is put in front of what was finished before it. -/
theorem sample_resolveAll :
    sampleAttachment.resolveAll {}
      = [("Square", [.element ⟨"summary", []⟩ [.text "A shape.", .text " Even."]]),
        ("Circle", [.element ⟨"summary", []⟩ [.text "A shape."]]),
        ("Shape", [.element ⟨"summary", []⟩ [.text "A shape."]]),
        ("Curve", [])] := by
  have hids : sampleAttachment.catalog.ids = ["Circle", "Curve", "Shape", "Square"] := by
    rw [Catalog.ids, List.mergeSort_of_pairwise]
    · rfl
    · decide +kernel
  rw [Attachment.resolveAll, hids]
  decide +kernel

/-- The circle says what the shape says, the first of its bases that is documented. -/
theorem sample_lookup_circle :
    (sampleAttachment.resolveAll {}).lookup "Circle"
      = some [.element ⟨"summary", []⟩ [.text "A shape."]] := by
  rw [sample_resolveAll]
  rfl

/-- The circle passes over the unknown type and the curve, and takes the documentation of the
    shape. -/
theorem resolveAll_inheritance_circle :
    sampleAttachment.catalog.lookup "Circle"
        = some (sampleClass "Circle" ["Missing", "Curve", "Shape"]) ∧
      (sampleAttachment.resolveAll {}).lookup "Circle"
        = some [.element ⟨"summary", []⟩ [.text "A shape."]] ∧
      Replaced (Inherits sampleAttachment {} (sampleAttachment.resolveAll {})
        (sampleClass "Circle" ["Missing", "Curve", "Shape"])) []
        [.element ⟨Markup.markerName, []⟩ []] [.element ⟨"summary", []⟩ [.text "A shape."]] := by
  have hlookup : sampleAttachment.catalog.lookup "Circle"
      = some (sampleClass "Circle" ["Missing", "Curve", "Shape"]) := rfl
  obtain ⟨tree, htree, hreplaced⟩ := resolveAll_inheritance sampleAttachment {} hlookup
  obtain rfl := Option.some.inj (sample_lookup_circle.symm.trans htree)
  exact ⟨hlookup, sample_lookup_circle, hreplaced⟩

end InheritDoc
