import InheritDoc.Proofs.Inheritance.History
import InheritDoc.Proofs.Path.Selection

namespace InheritDoc

open Markup (Tag Node)

/-!
# No marker is left

By induction over the history of a run: every outermost marker gives way to a part of something
older, in which no marker is left.

* `Inherits.anyMarker_eq_false` : what is inherited from documentation without markers has none;
* `History.anyMarker_eq_false`  : hence nothing in a history has any;
* `resolveAll_anyMarker`        : hence the finished documentation has none.
-/

variable {a : Attachment} {o : Options}

/-- Every part of a forest without markers is without markers. -/
theorem anyMarker_portion (sections : List Tag) (marker : Tag) {tree : List Node}
    (h : Node.anyMarker tree = false) : Node.anyMarker (portion sections marker tree) = false := by
  unfold portion
  split
  · split
    · exact Path.anyMarker_select _ h
    · rfl
  · split
    · exact h
    · exact Path.anyMarker_select _ h

/-- What a marker inherits from documentation without markers has none. -/
theorem Inherits.anyMarker_eq_false {docs : List (String × List Node)}
    (hdocs : ∀ id tree, docs.lookup id = some tree → Node.anyMarker tree = false) {e : Entry}
    {sections : List Tag} {marker : Tag} {out : List Node}
    (h : Inherits a o docs e sections marker out) : Node.anyMarker out = false := by
  cases h with
  | dropped _ => rfl
  | taken _ _ _ hc _ => exact anyMarker_portion sections marker (hdocs _ _ hc)
  | nothing _ _ => rfl

/-- Nothing in a history has a marker. -/
theorem History.anyMarker_eq_false {docs : List (String × List Node)} (h : History a o docs) :
    ∀ id tree, docs.lookup id = some tree → Node.anyMarker tree = false := by
  refine h.forall_lookup fun _ hpast _ htree => ?_
  exact htree.anyMarker_eq_false fun _ _ _ hout => hout.anyMarker_eq_false hpast

/-- **No marker survives.**  Every element of the catalog has finished documentation, and there is no
    marker in it at any depth. -/
theorem resolveAll_anyMarker (a : Attachment) (o : Options) {id : String} (hid : id ∈ a.catalog.ids) :
    ∃ tree, (a.resolveAll o).lookup id = some tree ∧ Node.anyMarker tree = false := by
  obtain ⟨e, he⟩ := Catalog.mem_ids_iff.mp hid
  obtain ⟨tree, htree⟩ := exists_lookup_resolveAll he
  exact ⟨tree, htree, (resolveAll_history a o).anyMarker_eq_false id tree htree⟩

/-- The curve, which is on a cycle with the circle, is left without a marker. -/
theorem resolveAll_anyMarker_curve :
    "Curve" ∈ sampleAttachment.catalog.ids ∧
      ∃ tree, (sampleAttachment.resolveAll {}).lookup "Curve" = some tree ∧
        Node.anyMarker tree = false := by
  have hid : "Curve" ∈ sampleAttachment.catalog.ids := Catalog.mem_ids_iff.mpr ⟨_, rfl⟩
  exact ⟨hid, resolveAll_anyMarker sampleAttachment {} hid⟩

end InheritDoc
