import InheritDoc.Inheritance.Resolved
import InheritDoc.Proofs.Inheritance.Rule
import InheritDoc.Proofs.Inheritance.Stepwise
import Mathlib.Data.List.Count

namespace InheritDoc

open Markup (Tag Node allBlank)

/-!
# Single calls

What one call of `resolve` does to the state it is given, whatever that state is.

* `resolve_cases`     : a call remembers, refuses, or expands an element;
* `Progress.Extends`  : the same elements are active, and some documentation has been written, for
  different elements that had none and were not active;
* `resolve_extends`   : every call extends its state;
* `resolve_answered`  : a call answers with what is written for the element in the end, and with
  nothing only for elements that are active or unknown;
* `Attachment.pending` : how many calls can still stand inside each other.
-/

variable {a : Attachment} {o : Options}

/-! ### The cases of a call -/

/-- The replacement of the markers of an element, when its candidates are resolved with counter `n`. -/
def replacement (a : Attachment) (o : Options) (n : Nat) (e : Entry) (sections : List Tag)
    (marker : Tag) (p : Progress) : List Node × Progress :=
  substitute (resolve a o n) (plan a.catalog o e sections marker) p

/-- The expansion of an element that has just been entered and has not been left. -/
def expansion (a : Attachment) (o : Options) (n : Nat) (e : Entry) (p : Progress) :
    List Node × Progress :=
  expandNodes (replacement a o n e) [] (a.effectiveDoc o e) (p.enter e.id)

/-- Leaving an element undoes entering it. -/
theorem Progress.leave_enter {p : Progress} {id : String} (h : id ∉ p.active) :
    (p.enter id).leave id = p := by
  have hfilter : p.active.filter (· ≠ id) = p.active := by
    rw [List.filter_eq_self]
    intro x hx
    simpa using fun he : x = id => h (he ▸ hx)
  show (⟨p.finished, (id :: p.active).filter (· ≠ id)⟩ : Progress) = p
  rw [List.filter_cons_of_neg (by simp), hfilter]

/-- **The cases of a call.**  The documentation of an element is remembered; or there is none because
    the element is active or unknown; or the element is expanded and the result is written down. -/
theorem resolve_cases (a : Attachment) (o : Options) (n : Nat) (id : String) (p : Progress) :
    (∃ tree, p.finished.lookup id = some tree ∧ resolve a o (n + 1) id p = (tree, p)) ∨
      ((id ∈ p.active ∨ a.catalog.lookup id = none) ∧ resolve a o (n + 1) id p = ([], p)) ∨
      (∃ e, p.finished.lookup id = none ∧ id ∉ p.active ∧ a.catalog.lookup id = some e ∧
        resolve a o (n + 1) id p = ((expansion a o n e p).1,
          ((expansion a o n e p).2.leave id).finish id (expansion a o n e p).1)) := by
  rw [resolve]
  cases hfinished : p.finished.lookup id with
  | some tree => exact .inl ⟨tree, rfl, rfl⟩
  | none =>
    by_cases hactive : id ∈ p.active
    · exact .inr (.inl ⟨.inl hactive, by simp [hactive]⟩)
    · cases he : a.catalog.lookup id with
      | none => exact .inr (.inl ⟨.inr rfl, by simp [hactive]⟩)
      | some e =>
        refine .inr (.inr ⟨e, rfl, hactive, rfl, ?_⟩)
        obtain rfl := Catalog.id_of_lookup he
        simp only [hactive, ↓reduceIte]
        -- without a marker the expansion changes nothing, so it may as well be carried out
        cases hmarker : Node.anyMarker (a.effectiveDoc o e) with
        | true => rfl
        | false =>
          have hexpand : expansion a o n e p = (a.effectiveDoc o e, p.enter e.id) :=
            expandNodes_of_anyMarker_eq_false _ hmarker
          simp only [hexpand, Progress.leave_enter hactive, Bool.not_false, ↓reduceIte]

/-- A call for a known element that is neither finished nor active expands it. -/
theorem resolve_of_new {a : Attachment} {o : Options} {n : Nat} {id : String} {p : Progress}
    {e : Entry} (hfinished : p.finished.lookup id = none) (hactive : id ∉ p.active)
    (he : a.catalog.lookup id = some e) :
    resolve a o (n + 1) id p = ((expansion a o n e p).1,
      ((expansion a o n e p).2.leave id).finish id (expansion a o n e p).1) := by
  rcases resolve_cases a o n id p with ⟨tree, h, -⟩ | ⟨h | h, -⟩ | ⟨e', -, -, he', h⟩
  · simp [hfinished] at h
  · exact absurd h hactive
  · simp [he] at h
  · rw [he, Option.some.injEq] at he'
    rw [h, he']

/-! ### Written documentation -/

/-- An id has no documentation if it is not among the ids of the documentation. -/
theorem lookup_eq_none_iff_notMem {docs : List (String × List Node)} {id : String} :
    docs.lookup id = none ↔ id ∉ docs.map Prod.fst := by
  rw [List.lookup_eq_none_iff, List.mem_map]
  constructor
  · rintro h ⟨entry, hentry, rfl⟩
    simpa using h entry hentry
  · intro h entry hentry
    simpa using fun he : id = entry.1 => h ⟨entry, hentry, he.symm⟩

/-- Documentation in front for other ids leaves that of an id as it is. -/
theorem lookup_append_of_notMem {new docs : List (String × List Node)} {id : String}
    (h : id ∉ new.map Prod.fst) : (new ++ docs).lookup id = docs.lookup id := by
  rw [List.lookup_append, lookup_eq_none_iff_notMem.mpr h, Option.none_or]

/-- The state `q` comes after `p` at the end of a call: the same elements are active, and the
    documentation written since is for different ids that had none and were not active. -/
structure Progress.Extends (p q : Progress) : Prop where
  active : q.active = p.active
  written : ∃ new, q.finished = new ++ p.finished ∧ (new.map Prod.fst).Nodup ∧
    ∀ id ∈ new.map Prod.fst, id ∉ p.finished.map Prod.fst ∧ id ∉ p.active

namespace Progress.Extends

/-- A call may write nothing. -/
theorem refl (p : Progress) : p.Extends p :=
  ⟨rfl, [], by simp⟩

/-- One call after another writes what both write. -/
theorem trans ⦃p q r : Progress⦄ (hpq : p.Extends q) (hqr : q.Extends r) : p.Extends r := by
  obtain ⟨new, hnew, hnodup, hfresh⟩ := hpq.written
  obtain ⟨new', hnew', hnodup', hfresh'⟩ := hqr.written
  -- what is written later is for none of the ids written earlier
  have hout : ∀ id ∈ new'.map Prod.fst,
      id ∉ new.map Prod.fst ∧ id ∉ p.finished.map Prod.fst ∧ id ∉ p.active := by
    intro id hid
    have h := hfresh' id hid
    rw [hnew, List.map_append, List.mem_append, not_or, hpq.active] at h
    exact ⟨h.1.1, h.1.2, h.2⟩
  refine ⟨hqr.active.trans hpq.active, new' ++ new, by rw [hnew', hnew, List.append_assoc], ?_, ?_⟩
  · rw [List.map_append]
    refine List.nodup_append.mpr ⟨hnodup', hnodup, fun id hid id' hid' he => ?_⟩
    exact (hout id hid).1 (he ▸ hid')
  · intro id hid
    rw [List.map_append, List.mem_append] at hid
    rcases hid with hid | hid
    · exact (hout id hid).2
    · exact hfresh id hid

/-- Written documentation stays. -/
theorem lookup {p q : Progress} (h : p.Extends q) {id : String} {tree : List Node}
    (hid : p.finished.lookup id = some tree) : q.finished.lookup id = some tree := by
  obtain ⟨new, hnew, -, hfresh⟩ := h.written
  rw [hnew, lookup_append_of_notMem, hid]
  intro hmem
  rw [lookup_eq_none_iff_notMem.mpr (hfresh id hmem).1] at hid
  exact Option.some_ne_none tree hid.symm

/-- Nothing is written for active elements. -/
theorem lookup_active {p q : Progress} (h : p.Extends q) {id : String} (hid : id ∈ p.active) :
    q.finished.lookup id = p.finished.lookup id := by
  obtain ⟨new, hnew, -, hfresh⟩ := h.written
  rw [hnew, lookup_append_of_notMem fun hmem => (hfresh id hmem).2 hid]

/-- What is written between entering and leaving an element, and then for the element itself, extends
    the state before. -/
theorem leave_finish {p q : Progress} {id : String} (tree : List Node) (h : (p.enter id).Extends q)
    (hid : p.finished.lookup id = none) (hactive : id ∉ p.active) :
    p.Extends ((q.leave id).finish id tree) := by
  obtain ⟨new, hnew, hnodup, hfresh⟩ := h.written
  -- the element was active all the time, so nothing was written for it
  have hnot : id ∉ new.map Prod.fst := fun hmem => (hfresh id hmem).2 List.mem_cons_self
  refine ⟨?_, (id, tree) :: new, ?_, List.nodup_cons.mpr ⟨hnot, hnodup⟩, ?_⟩
  · have hleave := congrArg Progress.active (Progress.leave_enter hactive)
    simp only [Progress.finish, Progress.leave, h.active] at hleave ⊢
    exact hleave
  · simp only [Progress.finish, Progress.leave, hnew, Progress.enter, List.cons_append]
  · intro x hx
    rw [List.map_cons, List.mem_cons] at hx
    rcases hx with rfl | hx
    · exact ⟨lookup_eq_none_iff_notMem.mp hid, hactive⟩
    · exact ⟨(hfresh x hx).1, fun hmem => (hfresh x hx).2 (List.mem_cons_of_mem id hmem)⟩

end Progress.Extends

/-! ### What every call keeps -/

section

variable {n : Nat} (hcall : ∀ id (p : Progress), p.Extends (resolve a o n id p).2)

include hcall

/-- If calls with counter `n` extend their states, then so does the replacement of a marker. -/
theorem replacement_extends (e : Entry) (sections : List Tag) (marker : Tag) (p : Progress) :
    p.Extends (replacement a o n e sections marker p).2 := by
  unfold replacement
  cases plan a.catalog o e sections marker with
  | none => exact .refl p
  | some pl =>
    have hcandidate : ∀ c ∈ pl.candidates, ∀ p, True →
        Keeps (fun _ => True) Progress.Extends (fun _ _ => True) p (resolve a o n c p) :=
      fun c _ p _ => ⟨trivial, hcall c p, trivial⟩
    exact (substitute_picks .refl .trans hcandidate (fun _ _ _ _ _ h => h) p trivial).later

/-- If calls with counter `n` extend their states, then so does the expansion of a forest. -/
theorem expandNodes_extends (e : Entry) (sections : List Tag) (nodes : List Node) (p : Progress) :
    p.Extends (expandNodes (replacement a o n e) sections nodes p).2 := by
  have hmarker : ∀ sections, ∀ tag ∈ outermostMarkers nodes, ∀ p, True →
      Keeps (fun _ => True) Progress.Extends (fun _ _ => True) p (replacement a o n e sections tag p) :=
    fun sections tag _ p _ => ⟨trivial, replacement_extends hcall e sections tag p, trivial⟩
  exact (expandNodes_replaced .refl .trans sections hmarker (fun _ _ _ _ _ _ h => h) p trivial).later

end

/-- **Every call extends its state.** -/
theorem resolve_extends (a : Attachment) (o : Options) (n : Nat) (id : String) (p : Progress) :
    p.Extends (resolve a o n id p).2 := by
  induction n generalizing id p with
  | zero => exact .refl p
  | succ n ih =>
    obtain ⟨tree, -, h⟩ | ⟨-, h⟩ | ⟨e, hfinished, hactive, he, h⟩ := resolve_cases a o n id p
    · rw [h]; exact .refl p
    · rw [h]; exact .refl p
    · rw [h]
      obtain rfl := Catalog.id_of_lookup he
      exact (expandNodes_extends ih e [] _ _).leave_finish _ hfinished hactive

/-! ### What a call answers -/

/-- What a call may answer for an element while `active` are active, when `docs` is written in the
    end. -/
inductive Answered (a : Attachment) (active : List String) (docs : List (String × List Node))
    (id : String) : List Node → Prop
  | written {tree : List Node} (h : docs.lookup id = some tree) : Answered a active docs id tree
  | active (h : id ∈ active) : Answered a active docs id []
  | unknown (h : a.catalog.lookup id = none) : Answered a active docs id []

/-- An answer stays right while documentation is written. -/
theorem Answered.mono {p q : Progress} {active : List String} {id : String} {tree : List Node}
    (hpq : p.Extends q) (h : Answered a active p.finished id tree) :
    Answered a active q.finished id tree := by
  cases h with
  | written h => exact .written (hpq.lookup h)
  | active h => exact .active h
  | unknown h => exact .unknown h

/-- **Every call answers for its element**, unless its counter is exhausted. -/
theorem resolve_answered (a : Attachment) (o : Options) (n : Nat) (id : String) (p : Progress) :
    Answered a p.active (resolve a o (n + 1) id p).2.finished id (resolve a o (n + 1) id p).1 := by
  obtain ⟨tree, hfinished, h⟩ | ⟨hnone, h⟩ | ⟨e, -, -, -, h⟩ := resolve_cases a o n id p
  · rw [h]; exact .written hfinished
  · rw [h]
    rcases hnone with hactive | hunknown
    · exact .active hactive
    · exact .unknown hunknown
  · rw [h]; exact .written List.lookup_cons_self

/-! ### How deep calls can go -/

/-- The number of known elements that are not active. -/
def Attachment.pending (a : Attachment) (active : List String) : Nat :=
  (a.catalog.entries.filter fun e => e.id ∉ active).length

/-- The counter of the outermost calls exceeds the number of known elements. -/
theorem Attachment.pending_lt (a : Attachment) (active : List String) :
    a.pending active < a.catalog.entries.length + 1 :=
  Nat.lt_succ_of_le (List.length_filter_le _ _)

/-- An element that is entered is no longer pending. -/
theorem Attachment.pending_cons_lt {active : List String} {id : String} {e : Entry}
    (he : a.catalog.lookup id = some e) (hid : id ∉ active) :
    a.pending (id :: active) < a.pending active := by
  -- the elements still pending are those that were, without this one
  have hsplit : a.pending (id :: active)
      = (a.catalog.entries.filter fun e => e.id ∉ active).countP fun e => e.id ≠ id := by
    rw [Attachment.pending, List.countP_filter, List.countP_eq_length_filter]
    simp
  rw [hsplit, Attachment.pending, List.countP_lt_length_iff]
  obtain rfl := Catalog.id_of_lookup he
  exact ⟨e, List.mem_filter.mpr ⟨List.mem_of_find?_eq_some he, by simpa using hid⟩, by simp⟩

end InheritDoc
