import InheritDoc.Proofs.Inheritance.Recursion

namespace InheritDoc

open Markup (Tag Node allBlank)

/-!
# Away from cycles nothing needs to be noted

The recursion that notes nothing can go on forever on a cycle.  Away from cycles it ends, and memory
and the order of a run are of no consequence, whatever is written for elements on cycles elsewhere.

* `Inherits.yields_none`        : away from cycles the inheritance rule leaves no choice, and the
  plain recursion makes the same;
* `History.yields_none`         : hence every history holds there what the plain recursion gives;
* `resolution_away_from_cycles` : so does every run, over any order of the elements.
-/

variable {a : Attachment} {o : Options}

/-! ### The plain recursion for one element -/

/-- The plain recursion gives nothing for an unknown element. -/
theorem yields_none_of_unknown {id : String} (h : a.catalog.lookup id = none) :
    Yields .none a o (.element id) () [] () :=
  .unknown rfl h

/-- The plain recursion for a known element is the one for its nodes. -/
theorem yields_none_of_known {id : String} {e : Entry} {tree : List Node}
    (he : a.catalog.lookup id = some e)
    (hmarked : Yields .none a o (.nodes e [] (a.effectiveDoc o e)) () tree ())
    (hunmarked : Node.anyMarker (a.effectiveDoc o e) = false → tree = a.effectiveDoc o e) :
    Yields .none a o (.element id) () tree () := by
  cases hmarker : Node.anyMarker (a.effectiveDoc o e) with
  | true => exact .marked rfl he hmarker hmarked
  | false =>
    rw [hunmarked hmarker]
    exact .unmarked rfl he hmarker

/-- Candidates with blank documentation are skipped. -/
theorem yields_none_append {earlier ids : List String} {selection : Option Path} {out : List Node}
    (h : ∀ c ∈ earlier, ∃ tree, Yields .none a o (.element c) () tree () ∧ allBlank tree = true)
    (hout : Yields .none a o (.marker (some ⟨ids, selection⟩)) () out ()) :
    Yields .none a o (.marker (some ⟨earlier ++ ids, selection⟩)) () out () := by
  induction earlier with
  | nil => exact hout
  | cons c earlier ih =>
    obtain ⟨⟨tree, htree, hblank⟩, hearlier⟩ := List.forall_mem_cons.mp h
    exact .skipped htree hblank (ih hearlier)

/-! ### The rule leaves no choice -/

section

variable {docs : List (String × List Node)}
  (hdocs : ∀ c tree, docs.lookup c = some tree → a.AwayFromCycles o c →
    Yields .none a o (.element c) () tree ())

include hdocs

/-- A dependency that is passed over is blank for the plain recursion, too. -/
theorem PassedOver.yields_none {id c : String} (h : PassedOver a o docs id c)
    (hid : a.AwayFromCycles o id) (hc : a.DependsOn o id c) :
    ∃ tree, Yields .none a o (.element c) () tree () ∧ allBlank tree = true := by
  cases h with
  | unknown h => exact ⟨[], yields_none_of_unknown h, rfl⟩
  | blank h hblank => exact ⟨_, hdocs c _ h (Attachment.awayFromCycles_iff.mp hid c hc), hblank⟩
  | cyclic h =>
    -- the only reason that depends on the order of a run does not arise here
    exact absurd h hid.not_sharesCycle

/-- What an outermost marker inherits away from cycles is what the plain recursion replaces it
    by. -/
theorem Inherits.yields_none {e : Entry} {sections : List Tag} {marker : Tag}
    {out : List Node} (h : Inherits a o docs e sections marker out)
    (he : a.catalog.lookup e.id = some e) (hid : a.AwayFromCycles o e.id)
    (hmarker : marker ∈ outermostMarkers (a.effectiveDoc o e)) :
    Yields .none a o (.marker (plan a.catalog o e sections marker)) () out () := by
  have hdep : ∀ c ∈ (a.catalog.candidates e marker).filter (· ≠ e.id), a.DependsOn o e.id c :=
    fun c hc => dependsOn_of_candidate he hmarker hc
  obtain ⟨hdropped, hplan⟩ | ⟨hdropped, ⟨ids, selection⟩, hplan, rfl, htake⟩ :=
    plan_cases a.catalog o e sections marker
  · rw [hplan]
    cases h with
    | dropped _ => exact .dropped
    | taken h => exact absurd hdropped h
    | nothing _ _ => exact .dropped
  · rw [hplan]
    cases h with
    | dropped h => exact absurd h hdropped
    | @taken earlier later c tree _ hcandidates hearlier hc htree =>
      -- the plain recursion skips the earlier candidates as well and stops at the same one
      rw [hcandidates] at hdep htake ⊢
      have hblank := fun c' hc' => (hearlier c' hc').yields_none hdocs hid
        (hdep c' (List.mem_append_left _ hc'))
      have hfound := hdocs c tree hc (Attachment.awayFromCycles_iff.mp hid c (hdep c (by simp)))
      rw [← htake]
      exact yields_none_append hblank (.taken hfound htree)
    | nothing _ hall =>
      have hblank := fun c hc => (hall c hc).yields_none hdocs hid (hdep c hc)
      rw [← List.append_nil (List.filter _ _)]
      exact yields_none_append hblank .exhausted

end

/-! ### The plain recursion for forests -/

/-- If the plain recursion replaces every outermost marker by what stands in its place, then it
    yields the whole forest. -/
theorem Replaced.yields_none {new : List Tag → Tag → List Node → Prop} {e : Entry}
    {sections : List Tag} {nodes nodes' : List Node} (h : Replaced new sections nodes nodes')
    (hnew : ∀ sections, ∀ tag ∈ outermostMarkers nodes, ∀ out, new sections tag out →
      Yields .none a o (.marker (plan a.catalog o e sections tag)) () out ()) :
    Yields .none a o (.nodes e sections nodes) () nodes' () := by
  induction h with
  | nil => exact .nil
  | text _ ih => exact .text (ih hnew)
  | marker htag hout _ ih =>
    have hrest := ih fun sections tag' htag' =>
      hnew sections tag' (by simp [outermostMarkers, htag'])
    have hout' := hnew _ _ (by simp [outermostMarkers, outermostMarkersIn, htag]) _ hout
    exact .marker htag hout' hrest
  | element htag _ _ ihc ihn =>
    -- the outermost markers of an element that is no marker are those of its children
    have hinner := ihc fun sections tag' htag' =>
      hnew sections tag' (by simp [outermostMarkers, outermostMarkersIn, htag, htag'])
    have hrest := ihn fun sections tag' htag' =>
      hnew sections tag' (by simp [outermostMarkers, htag'])
    exact .element htag hinner hrest

/-! ### Histories and runs -/

/-- Away from cycles a history holds what the plain recursion gives. -/
theorem History.yields_none {docs : List (String × List Node)} (h : History a o docs) :
    ∀ id tree, docs.lookup id = some tree → a.AwayFromCycles o id →
      Yields .none a o (.element id) () tree () := by
  refine h.forall_lookup fun {older id e tree} _ hpast he htree hid => ?_
  obtain rfl := Catalog.id_of_lookup he
  refine yields_none_of_known he ?_ htree.eq_of_anyMarker_eq_false
  exact htree.yields_none fun sections marker hmarker out hout =>
    hout.yields_none hpast he hid hmarker

/-- **Memory and order are of no consequence away from cycles.**  For an element from which no cycle
    can be reached, the recursion that notes nothing ends, and the one tree it yields is what a run
    over the elements finishes, in whatever order it takes them. -/
theorem resolution_away_from_cycles (a : Attachment) (o : Options) {id : String}
    (hid : id ∈ a.catalog.ids) (hcycles : a.AwayFromCycles o id) :
    ∃ tree, (∀ tree', Yields .none a o (.element id) () tree' () ↔ tree' = tree) ∧
      (a.resolveAll o).lookup id = some tree ∧
      ∀ order, order.Perm a.catalog.ids →
        (resolveEach a o order {}).finished.lookup id = some tree := by
  obtain ⟨e, he⟩ := Catalog.mem_ids_iff.mp hid
  obtain ⟨tree, htree⟩ := exists_lookup_resolveAll (o := o) he
  have hplain := (resolveAll_history a o).yields_none id tree htree hcycles
  refine ⟨tree, fun tree' => ⟨fun h => (h.unique hplain).1, fun h => h ▸ hplain⟩, htree,
    fun order horder => ?_⟩
  -- a run in another order writes another history, which agrees with the plain recursion as well
  obtain ⟨hunderway, -, hcovered⟩ := resolveEach_spec order (underway_start a o)
  obtain ⟨tree', htree'⟩ := hcovered id (horder.mem_iff.mpr hid) e he
  have hplain' := hunderway.history.yields_none id tree' htree' hcycles
  rw [htree', (hplain'.unique hplain).1]

/-- The square inherits from the shape alone, so no cycle can be reached from it. -/
theorem sample_awayFromCycles : sampleAttachment.AwayFromCycles {} "Square" := by
  have hsquare : sampleAttachment.catalog.lookup "Square"
      = some (sampleClass "Square" ["Shape"]) := rfl
  have hshape : sampleAttachment.catalog.lookup "Shape" = some (sampleClass "Shape" []) := rfl
  rw [Attachment.awayFromCycles_iff]
  rintro c ⟨e, he, hc⟩
  obtain rfl := Option.some.inj (hsquare.symm.trans he)
  -- Square leads to Shape only, and Shape to nothing
  obtain rfl : c = "Shape" := List.mem_singleton.mp hc
  rw [Attachment.awayFromCycles_iff]
  rintro c ⟨e, he, hc⟩
  obtain rfl := Option.some.inj (hshape.symm.trans he)
  exact absurd hc List.not_mem_nil

/-- The square is resolved alike by the plain recursion and by every run, though the circle and the
    curve are on a cycle elsewhere: what the shape says stands in the place of its marker. -/
theorem resolution_away_from_cycles_square :
    ("Square" ∈ sampleAttachment.catalog.ids ∧ sampleAttachment.AwayFromCycles {} "Square") ∧
      (∀ tree', Yields .none sampleAttachment {} (.element "Square") () tree' () ↔
        tree' = [.element ⟨"summary", []⟩ [.text "A shape.", .text " Even."]]) ∧
      (sampleAttachment.resolveAll {}).lookup "Square"
        = some [.element ⟨"summary", []⟩ [.text "A shape.", .text " Even."]] ∧
      ∀ order, order.Perm sampleAttachment.catalog.ids →
        (resolveEach sampleAttachment {} order {}).finished.lookup "Square"
          = some [.element ⟨"summary", []⟩ [.text "A shape.", .text " Even."]] := by
  have hid : "Square" ∈ sampleAttachment.catalog.ids := Catalog.mem_ids_iff.mpr ⟨_, rfl⟩
  have hsquare : (sampleAttachment.resolveAll {}).lookup "Square"
      = some [.element ⟨"summary", []⟩ [.text "A shape.", .text " Even."]] := by
    rw [sample_resolveAll]
    rfl
  obtain ⟨tree, hplain, htree, hruns⟩ :=
    resolution_away_from_cycles sampleAttachment {} hid sample_awayFromCycles
  obtain rfl := Option.some.inj (hsquare.symm.trans htree)
  exact ⟨⟨hid, sample_awayFromCycles⟩, hplain, hsquare, hruns⟩

end InheritDoc
