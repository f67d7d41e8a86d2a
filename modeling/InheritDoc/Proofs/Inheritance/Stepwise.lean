import InheritDoc.Proofs.Inheritance.Replacement

namespace InheritDoc

open Markup (Tag Node allBlank)

/-!
# Expansion step by step

An expansion threads a state through the resolution of candidates, the replacement of markers and
the nodes of a forest.  What each of these keeps follows from what the one before it keeps.

* `Keeps`                  : a step keeps an invariant, moves on to a later state and yields a result
  that is right there;
* `firstDocumented_picks`  : from resolving one candidate to choosing among several;
* `substitute_picks`       : from there to one marker;
* `expandNodes_replaced`   : from there to a forest.
-/

variable {σ : Type}

/-- What a step from the state `s` keeps and yields: the invariant `Inv` holds in its last state,
    which is `Later` than `s`, and its result is one that `yields` admits there. -/
structure Keeps {α : Type} (Inv : σ → Prop) (Later : σ → σ → Prop) (yields : σ → α → Prop) (s : σ)
    (r : α × σ) : Prop where
  inv : Inv r.2
  later : Later s r.2
  result : yields r.2 r.1

/-! ### Candidates -/

/-- The outcome of a choice among candidates, when `answer` says what each of them answered: the
    first answer that is not blank, if there is one. -/
def Picks (answer : String → List Node → Prop) (ids : List String) : Option (List Node) → Prop
  | none => ∀ c ∈ ids, ∃ tree, answer c tree ∧ allBlank tree = true
  | some tree => ∃ earlier c later, ids = earlier ++ c :: later ∧
      (∀ c' ∈ earlier, ∃ tree, answer c' tree ∧ allBlank tree = true) ∧
      answer c tree ∧ allBlank tree = false

/-- A choice may begin with a blank answer. -/
theorem Picks.cons {answer : String → List Node → Prop} {c : String} {tree : List Node}
    {ids : List String} {pick : Option (List Node)} (hc : answer c tree)
    (hblank : allBlank tree = true) (h : Picks answer ids pick) : Picks answer (c :: ids) pick := by
  have hhead : ∃ tree, answer c tree ∧ allBlank tree = true := ⟨tree, hc, hblank⟩
  cases pick with
  | none => exact List.forall_mem_cons.mpr ⟨hhead, h⟩
  | some found =>
    obtain ⟨earlier, c', later, rfl, hearlier, hc'⟩ := h
    exact ⟨c :: earlier, c', later, rfl, List.forall_mem_cons.mpr ⟨hhead, hearlier⟩, hc'⟩

section

variable {Inv : σ → Prop} {Later : σ → σ → Prop} (hrefl : ∀ s, Later s s)
  (htrans : ∀ ⦃s t u⦄, Later s t → Later t u → Later s u)

include hrefl htrans

variable {resolve : String → σ → List Node × σ} {answer : σ → String → List Node → Prop}

/-- If every candidate is answered as `answer` says, the choice is made by these answers. -/
theorem firstDocumented_picks {ids : List String}
    (hstep : ∀ c ∈ ids, ∀ s, Inv s → Keeps Inv Later (answer · c) s (resolve c s))
    (hmono : ∀ ⦃s t c tree⦄, Later s t → answer s c tree → answer t c tree) (s : σ) (hs : Inv s) :
    Keeps Inv Later (fun s => Picks (answer s) ids) s (firstDocumented resolve ids s) := by
  induction ids generalizing s with
  | nil => exact ⟨hs, hrefl s, fun c hc => absurd hc List.not_mem_nil⟩
  | cons c ids ih =>
    have hc := hstep c List.mem_cons_self s hs
    have hids := ih (fun c' hc' => hstep c' (List.mem_cons_of_mem c hc')) _ hc.inv
    rw [firstDocumented]
    cases hblank : allBlank (resolve c s).1 with
    | true =>
      -- the blank answer was given before the others, and is still right after them
      simp only [hblank, ↓reduceIte]
      exact ⟨hids.inv, htrans hc.later hids.later,
        hids.result.cons (hmono hids.later hc.result) hblank⟩
    | false =>
      simp only [hblank, Bool.false_eq_true, ↓reduceIte]
      exact ⟨hc.inv, hc.later, [], c, ids, rfl, fun c' hc' => absurd hc' List.not_mem_nil,
        hc.result, hblank⟩

/-! ### Markers -/

/-- A marker is replaced by the part of the picked documentation that its plan takes. -/
theorem substitute_picks {pl : MarkerPlan}
    (hstep : ∀ c ∈ pl.candidates, ∀ s, Inv s → Keeps Inv Later (answer · c) s (resolve c s))
    (hmono : ∀ ⦃s t c tree⦄, Later s t → answer s c tree → answer t c tree) (s : σ) (hs : Inv s) :
    Keeps Inv Later
      (fun s out => ∃ pick, Picks (answer s) pl.candidates pick ∧ out = (pick.map pl.take).getD [])
      s (substitute resolve (some pl) s) := by
  have hpick := firstDocumented_picks hrefl htrans hstep hmono s hs
  rw [substitute]
  -- nothing is picked, or some documentation is
  split
  · rename_i t heq
    rw [heq] at hpick
    exact ⟨hpick.inv, hpick.later, none, hpick.result, rfl⟩
  · rename_i tree t heq
    rw [heq] at hpick
    exact ⟨hpick.inv, hpick.later, some tree, hpick.result, rfl⟩

/-! ### Forests -/

/-- **The expansion follows its replacements.**  If every replacement of a marker yields nodes that
    `new` admits, and what is admitted stays admitted in later states, then the expansion of a
    forest replaces the markers by what is admitted in its last state. -/
theorem expandNodes_replaced {replace : List Tag → Tag → σ → List Node × σ}
    {new : σ → List Tag → Tag → List Node → Prop} (sections : List Tag) {nodes : List Node}
    (hstep : ∀ sections, ∀ tag ∈ outermostMarkers nodes, ∀ s, Inv s →
      Keeps Inv Later (new · sections tag) s (replace sections tag s))
    (hmono : ∀ ⦃s t sections tag out⦄, Later s t → new s sections tag out → new t sections tag out)
    (s : σ) (hs : Inv s) :
    Keeps Inv Later (fun s => Replaced (new s) sections nodes) s
      (expandNodes replace sections nodes s) := by
  induction nodes using Node.forest_induction generalizing sections s with
  | nil => exact ⟨hs, hrefl s, .nil⟩
  | text content nodes ih =>
    rw [expandNodes_text]
    have hnodes := ih sections hstep s hs
    exact ⟨hnodes.inv, hnodes.later, .text hnodes.result⟩
  | element tag children nodes ihc ihn =>
    have hrest : ∀ sections, ∀ tag ∈ outermostMarkers nodes, _ := fun sections tag' htag' =>
      hstep sections tag' (by simp [outermostMarkers, htag'])
    cases htag : tag.isMarker with
    | true =>
      rw [expandNodes_marker htag]
      have hout := hstep sections tag (by simp [outermostMarkers, outermostMarkersIn, htag]) s hs
      have hnodes := ihn sections hrest _ hout.inv
      exact ⟨hnodes.inv, htrans hout.later hnodes.later,
        .marker htag (hmono hnodes.later hout.result) hnodes.result⟩
    | false =>
      rw [expandNodes_element htag]
      have hinside : ∀ sections, ∀ tag ∈ outermostMarkers children, _ := fun sections tag' htag' =>
        hstep sections tag' (by simp [outermostMarkers, outermostMarkersIn, htag, htag'])
      have hchildren := ihc (sections ++ [tag]) hinside s hs
      have hnodes := ihn sections hrest _ hchildren.inv
      -- what the children were given must still be admitted after the nodes that follow them
      have hchildren' := hchildren.result.mono fun _ _ _ hout => hmono hnodes.later hout
      exact ⟨hnodes.inv, htrans hchildren.later hnodes.later, .element htag hchildren' hnodes.result⟩

end

end InheritDoc
