import InheritDoc.Proofs.Inheritance.History

namespace InheritDoc

open Markup (Tag Node allBlank)

/-!
# Recursion without a counter

`resolve` counts how many elements are expanded inside each other.  Here the same recursion is
described by rules without a counter, and with any kind of memory or none.  A derivation is finite,
so there is one only if the recursion ends.

* `Bookkeeping`          : what a recursion notes about the elements it expands;
* `Bookkeeping.progress` : finished documentation and active elements are noted;
* `Bookkeeping.none`     : nothing is noted;
* `Yields`               : what the recursion ends with, if it ends;
* `Yields.unique`        : it ends with one result at most;
* `yields_progress`      : with progress noted it always ends, with the result of `resolve`;
* `resolution_complete`  : a run ends, covers exactly the catalog, and writes everything once.
-/

/-! ### The recursion -/

/-- What a recursion notes in its state about the elements it expands. -/
structure Bookkeeping (σ : Type) where
  remembered : σ → String → Option (List Node)
  enter : σ → String → σ
  leave : σ → String → σ
  finish : σ → String → List Node → σ

/-- Finished documentation is remembered, and active elements contribute nothing. -/
def Bookkeeping.progress : Bookkeeping Progress where
  remembered p id := (p.finished.lookup id).or (if id ∈ p.active then some [] else none)
  enter := Progress.enter
  leave := Progress.leave
  finish := Progress.finish

/-- Nothing is remembered, and every element is expanded whenever it is met. -/
def Bookkeeping.none : Bookkeeping Unit where
  remembered _ _ := .none
  enter _ _ := ()
  leave _ _ := ()
  finish _ _ _ := ()

/-- What the recursion is asked for: the documentation of an element, nodes of an element with their
    outermost markers replaced, or what a marker with the given plan is replaced by. -/
inductive Job where
  | element (id : String)
  | nodes (e : Entry) (sections : List Tag) (nodes : List Node)
  | marker (plan : Option MarkerPlan)

section

variable {σ : Type} (b : Bookkeeping σ) (a : Attachment) (o : Options)

/-- `Yields b a o job s tree s'`: begun in state `s`, the recursion for `job` ends in state `s'` and
    yields `tree`. -/
inductive Yields : Job → σ → List Node → σ → Prop where
  -- an element is expanded only if nothing is remembered of it
  | remembered {id : String} {s : σ} {tree : List Node} (h : b.remembered s id = some tree) :
      Yields (.element id) s tree s
  | unknown {id : String} {s : σ} (h : b.remembered s id = none)
      (he : a.catalog.lookup id = none) : Yields (.element id) s [] s
  | unmarked {id : String} {s : σ} {e : Entry} (h : b.remembered s id = none)
      (he : a.catalog.lookup id = some e) (hmarker : Node.anyMarker (a.effectiveDoc o e) = false) :
      Yields (.element id) s (a.effectiveDoc o e) (b.finish s id (a.effectiveDoc o e))
  | marked {id : String} {s s' : σ} {e : Entry} {tree : List Node} (h : b.remembered s id = none)
      (he : a.catalog.lookup id = some e) (hmarker : Node.anyMarker (a.effectiveDoc o e) = true)
      (htree : Yields (.nodes e [] (a.effectiveDoc o e)) (b.enter s id) tree s') :
      Yields (.element id) s tree (b.finish (b.leave s' id) id tree)
  -- nodes are taken from left to right, and the state is passed on
  | nil {e : Entry} {sections : List Tag} {s : σ} : Yields (.nodes e sections []) s [] s
  | text {e : Entry} {sections : List Tag} {content : String} {nodes others : List Node} {s s' : σ}
      (hothers : Yields (.nodes e sections nodes) s others s') :
      Yields (.nodes e sections (.text content :: nodes)) s (.text content :: others) s'
  | marker {e : Entry} {sections : List Tag} {tag : Tag} {children nodes out others : List Node}
      {s s' s'' : σ} (htag : tag.isMarker = true)
      (hout : Yields (.marker (plan a.catalog o e sections tag)) s out s')
      (hothers : Yields (.nodes e sections nodes) s' others s'') :
      Yields (.nodes e sections (.element tag children :: nodes)) s (out ++ others) s''
  | element {e : Entry} {sections : List Tag} {tag : Tag} {children nodes inner others : List Node}
      {s s' s'' : σ} (htag : tag.isMarker = false)
      (hinner : Yields (.nodes e (sections ++ [tag]) children) s inner s')
      (hothers : Yields (.nodes e sections nodes) s' others s'') :
      Yields (.nodes e sections (.element tag children :: nodes)) s
        (.element tag inner :: others) s''
  -- candidates are tried in turn until one has documentation
  | dropped {s : σ} : Yields (.marker none) s [] s
  | exhausted {selection : Option Path} {s : σ} : Yields (.marker (some ⟨[], selection⟩)) s [] s
  | skipped {id : String} {ids : List String} {selection : Option Path} {tree out : List Node}
      {s s' s'' : σ} (htree : Yields (.element id) s tree s') (hblank : allBlank tree = true)
      (hout : Yields (.marker (some ⟨ids, selection⟩)) s' out s'') :
      Yields (.marker (some ⟨id :: ids, selection⟩)) s out s''
  | taken {id : String} {ids : List String} {selection : Option Path} {tree : List Node} {s s' : σ}
      (htree : Yields (.element id) s tree s') (hblank : allBlank tree = false) :
      Yields (.marker (some ⟨id :: ids, selection⟩)) s
        (MarkerPlan.take ⟨id :: ids, selection⟩ tree) s'

/-- Begun in state `s`, the recursions for the given elements, one after the other, end in state
    `s'`. -/
inductive YieldsEach : List String → σ → σ → Prop where
  | nil {s : σ} : YieldsEach [] s s
  | cons {id : String} {ids : List String} {tree : List Node} {s s' s'' : σ}
      (hfirst : Yields b a o (.element id) s tree s') (hrest : YieldsEach ids s' s'') :
      YieldsEach (id :: ids) s s''

end

section

variable {σ : Type} {b : Bookkeeping σ} {a : Attachment} {o : Options}

/-- **The recursion is deterministic**: no job has two results. -/
theorem Yields.unique {job : Job} {s s₁ s₂ : σ} {tree₁ tree₂ : List Node}
    (h₁ : Yields b a o job s tree₁ s₁) (h₂ : Yields b a o job s tree₂ s₂) :
    tree₁ = tree₂ ∧ s₁ = s₂ := by
  -- rules for one job exclude each other, so a second derivation begins with the same rule
  induction h₁ generalizing tree₂ s₂ with
  | remembered h => cases h₂ <;> simp_all
  | unknown h he => cases h₂ <;> simp_all
  | unmarked h he hmarker => cases h₂ <;> simp_all
  | marked h he hmarker _ ih =>
    cases h₂ with
    | remembered h' => simp_all
    | unknown _ he' => simp_all
    | unmarked _ he' hmarker' => simp_all
    | marked _ he' _ htree' =>
      obtain rfl := Option.some.inj (he.symm.trans he')
      obtain ⟨rfl, rfl⟩ := ih htree'
      exact ⟨rfl, rfl⟩
  | nil | dropped | exhausted => cases h₂; exact ⟨rfl, rfl⟩
  | text _ ih =>
    cases h₂ with
    | text hothers' => obtain ⟨rfl, rfl⟩ := ih hothers'; exact ⟨rfl, rfl⟩
  | marker htag _ _ ihout ihothers =>
    cases h₂ with
    | marker _ hout' hothers' =>
      obtain ⟨rfl, rfl⟩ := ihout hout'
      obtain ⟨rfl, rfl⟩ := ihothers hothers'
      exact ⟨rfl, rfl⟩
    | element htag' _ _ => simp_all
  | element htag _ _ ihinner ihothers =>
    cases h₂ with
    | marker htag' _ _ => simp_all
    | element _ hinner' hothers' =>
      obtain ⟨rfl, rfl⟩ := ihinner hinner'
      obtain ⟨rfl, rfl⟩ := ihothers hothers'
      exact ⟨rfl, rfl⟩
  | skipped _ hblank _ ihtree ihout =>
    cases h₂ with
    | skipped htree' _ hout' =>
      obtain ⟨rfl, rfl⟩ := ihtree htree'
      exact ihout hout'
    | taken htree' hblank' => simp_all [ihtree htree']
  | taken _ hblank ihtree =>
    cases h₂ with
    | skipped htree' hblank' _ => simp_all [ihtree htree']
    | taken htree' _ => obtain ⟨rfl, rfl⟩ := ihtree htree'; exact ⟨rfl, rfl⟩

/-- The recursions for several elements end in one state at most. -/
theorem YieldsEach.unique {ids : List String} {s s₁ s₂ : σ} (h₁ : YieldsEach b a o ids s s₁)
    (h₂ : YieldsEach b a o ids s s₂) : s₁ = s₂ := by
  induction h₁ generalizing s₂ with
  | nil => cases h₂; rfl
  | cons hfirst _ ih =>
    cases h₂ with
    | cons hfirst' hrest' =>
      obtain ⟨-, rfl⟩ := hfirst.unique hfirst'
      exact ih hrest'

end

/-! ### Progress ends the recursion -/

variable {a : Attachment} {o : Options}

section

variable {n : Nat} {active : List String}
  (hcall : ∀ id p, p.active = active →
    Yields .progress a o (.element id) p (resolve a o n id p).1 (resolve a o n id p).2)

include hcall

/-- Where the recursion for candidates ends, so does the one for a marker. -/
theorem yields_marker_progress (pl : Option MarkerPlan) {p : Progress} (hp : p.active = active) :
    Yields .progress a o (.marker pl) p (substitute (resolve a o n) pl p).1
      (substitute (resolve a o n) pl p).2 := by
  match pl with
  | none => exact .dropped
  | some ⟨ids, selection⟩ =>
    induction ids generalizing p with
    | nil => exact .exhausted
    | cons id ids ih =>
      have hfirst := hcall id p hp
      have hextends := resolve_extends a o n id p
      cases hblank : allBlank (resolve a o n id p).1 with
      | true =>
        -- the call has restored the active elements, so the next one ends as well
        have hrest := ih (hextends.active.trans hp)
        have hskip : substitute (resolve a o n) (some ⟨id :: ids, selection⟩) p
            = substitute (resolve a o n) (some ⟨ids, selection⟩) (resolve a o n id p).2 := by
          simp [substitute, firstDocumented, hblank, MarkerPlan.take]
        rw [hskip]
        exact .skipped hfirst hblank hrest
      | false =>
        have htake : substitute (resolve a o n) (some ⟨id :: ids, selection⟩) p
            = (MarkerPlan.take ⟨id :: ids, selection⟩ (resolve a o n id p).1,
                (resolve a o n id p).2) := by
          simp [substitute, firstDocumented, hblank]
        rw [htake]
        exact .taken hfirst hblank

/-- Where the recursion for candidates ends, so does the one for a forest. -/
theorem yields_nodes_progress (e : Entry) (sections : List Tag) (nodes : List Node) {p : Progress}
    (hp : p.active = active) :
    Yields .progress a o (.nodes e sections nodes) p
      (expandNodes (replacement a o n e) sections nodes p).1
      (expandNodes (replacement a o n e) sections nodes p).2 := by
  induction nodes using Node.forest_induction generalizing sections p with
  | nil => exact .nil
  | text content nodes ih =>
    rw [expandNodes_text]
    exact .text (ih sections hp)
  | element tag children nodes ihc ihn =>
    cases htag : tag.isMarker with
    | true =>
      have hextends := replacement_extends (resolve_extends a o n) e sections tag p
      -- the marker may call the resolver, which leaves the elements on the way as they were
      rw [expandNodes_marker htag]
      exact .marker htag (yields_marker_progress hcall _ hp)
        (ihn sections (hextends.active.trans hp))
    | false =>
      have hextends := expandNodes_extends (resolve_extends a o n) e (sections ++ [tag]) children p
      rw [expandNodes_element htag]
      exact .element htag (ihc (sections ++ [tag]) hp) (ihn sections (hextends.active.trans hp))

end

/-- The recursion that notes its progress ends whenever the counter of `resolve` is large enough,
    with the same result. -/
theorem yields_resolve (n : Nat) (id : String) (p : Progress) (hn : a.pending p.active < n) :
    Yields .progress a o (.element id) p (resolve a o n id p).1 (resolve a o n id p).2 := by
  induction n generalizing id p with
  | zero => exact absurd hn (Nat.not_lt_zero _)
  | succ n ih =>
    rw [resolve]
    cases hfinished : p.finished.lookup id with
    | some tree => exact .remembered (by simp [Bookkeeping.progress, hfinished])
    | none =>
      by_cases hactive : id ∈ p.active
      · simp only [hactive, ↓reduceIte]
        exact .remembered (by simp [Bookkeeping.progress, hfinished, hactive])
      · have hnew : Bookkeeping.progress.remembered p id = none := by
          simp [Bookkeeping.progress, hfinished, hactive]
        simp only [hactive, ↓reduceIte]
        cases he : a.catalog.lookup id with
        | none => exact .unknown hnew he
        | some e =>
          obtain rfl := Catalog.id_of_lookup he
          have hpending := a.pending_cons_lt he hactive
          -- every call inside the expansion starts with the element active as well
          have hcall : ∀ c q, q.active = e.id :: p.active →
              Yields .progress a o (.element c) q (resolve a o n c q).1 (resolve a o n c q).2 :=
            fun c q hq => ih c q (by rw [hq]; omega)
          cases hmarker : Node.anyMarker (a.effectiveDoc o e) with
          | true =>
            simp only [hmarker, Bool.not_true, Bool.false_eq_true, ↓reduceIte]
            have hnodes := yields_nodes_progress hcall e [] (a.effectiveDoc o e)
              (rfl : (p.enter e.id).active = e.id :: p.active)
            exact .marked hnew he hmarker hnodes
          | false =>
            simp only [hmarker, Bool.not_false, ↓reduceIte]
            exact .unmarked hnew he hmarker

/-- **With progress noted the recursion always ends**, whatever state it starts from. -/
theorem yields_progress (a : Attachment) (o : Options) (id : String) (p : Progress) :
    Yields .progress a o (.element id) p (resolve a o (a.catalog.entries.length + 1) id p).1
      (resolve a o (a.catalog.entries.length + 1) id p).2 :=
  yields_resolve _ id p (a.pending_lt p.active)

/-! ### Whole runs -/

/-- With progress noted the recursions for several elements end, one after the other. -/
theorem yieldsEach_progress (a : Attachment) (o : Options) (ids : List String) (p : Progress) :
    YieldsEach .progress a o ids p (resolveEach a o ids p) := by
  induction ids generalizing p with
  | nil => exact .nil
  | cons id ids ih => exact .cons (yields_progress a o id p) (ih _)

/-- Finished documentation is written for different ids. -/
theorem nodup_keys_resolveAll (a : Attachment) (o : Options) :
    ((a.resolveAll o).map Prod.fst).Nodup := by
  obtain ⟨new, hnew, hnodup, -⟩ := (resolveEach_spec a.catalog.ids (underway_start a o)).2.1.written
  have hall : a.resolveAll o = new := hnew.trans (List.append_nil new)
  rw [hall]
  exact hnodup

/-- Finished documentation is written for the elements of the catalog and for nothing else. -/
theorem mem_keys_resolveAll_iff (a : Attachment) (o : Options) (id : String) :
    id ∈ (a.resolveAll o).map Prod.fst ↔ id ∈ a.catalog.ids := by
  rw [Catalog.mem_ids_iff]
  constructor
  · intro hid
    -- only known elements are ever written
    have hsome : (a.resolveAll o).lookup id ≠ none := fun h => lookup_eq_none_iff_notMem.mp h hid
    obtain ⟨tree, htree⟩ := Option.ne_none_iff_exists'.mp hsome
    have hknown : ∀ id tree, (a.resolveAll o).lookup id = some tree →
        ∃ e, a.catalog.lookup id = some e :=
      (resolveAll_history a o).forall_lookup fun _ _ he _ => ⟨_, he⟩
    exact hknown id tree htree
  · rintro ⟨e, he⟩
    obtain ⟨tree, htree⟩ := exists_lookup_resolveAll (o := o) he
    by_contra hid
    rw [lookup_eq_none_iff_notMem.mpr hid] at htree
    exact Option.some_ne_none tree htree.symm

/-- **Resolution ends and is complete.**  A run ends, whatever the elements inherit from each other,
    and what it has written is for exactly the ids of the catalog, once for each.  So does every
    single call, from any state: it leaves the active elements as they were and the written
    documentation as it was, and what it writes is for different ids that had none. -/
theorem resolution_complete (a : Attachment) (o : Options) :
    (∀ p, YieldsEach .progress a o a.catalog.ids {} p ↔ p = resolveEach a o a.catalog.ids {}) ∧
      ((a.resolveAll o).map Prod.fst).Nodup ∧
      (∀ id, id ∈ (a.resolveAll o).map Prod.fst ↔ id ∈ a.catalog.ids) ∧
      ∀ (id : String) (p : Progress), ∃ tree q,
        (∀ tree' q', Yields .progress a o (.element id) p tree' q' ↔ tree' = tree ∧ q' = q) ∧
        q.active = p.active ∧
        (∀ x t, p.finished.lookup x = some t → q.finished.lookup x = some t) ∧
        ∃ new, q.finished = new ++ p.finished ∧ (new.map Prod.fst).Nodup ∧
          ∀ x ∈ new.map Prod.fst, x ∉ p.finished.map Prod.fst := by
  have hrun := yieldsEach_progress a o a.catalog.ids {}
  refine ⟨fun p => ⟨fun h => h.unique hrun, fun h => h ▸ hrun⟩, nodup_keys_resolveAll a o,
    mem_keys_resolveAll_iff a o, fun id p => ?_⟩
  have hends := yields_progress a o id p
  have hextends := resolve_extends a o (a.catalog.entries.length + 1) id p
  obtain ⟨new, hnew, hnodup, hfresh⟩ := hextends.written
  refine ⟨_, _, fun tree' q' => ⟨fun h => h.unique hends, ?_⟩, hextends.active,
    fun _ _ hx => hextends.lookup hx, new, hnew, hnodup, fun x hx => (hfresh x hx).1⟩
  rintro ⟨rfl, rfl⟩
  exact hends

end InheritDoc
