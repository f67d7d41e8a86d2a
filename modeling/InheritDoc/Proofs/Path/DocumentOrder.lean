import InheritDoc.Path.Reader
import InheritDoc.Proofs.Path.Positions
import InheritDoc.Proofs.Path.Selection
import Mathlib.Data.List.Sort

namespace InheritDoc

open Markup (Node)

/-!
# Selection and document order

Which places of a forest a path leads to, and in which order they are listed.  A step is applied to
one place after the other, and its results are put together as they come.  From a node and from
something inside it the next step may lead to the same nodes, or back to earlier ones, so the list
need not be in document order, nor free of repetitions.

* `Step.Selects`             : what one step leads to, said by positions;
* `Path.Reaches`             : what some steps lead to, one after the other;
* `Path.mem_follow_iff`      : these are the places that are listed;
* `Path.Flat`                : no step before the last leads to a node and to something inside it;
* `Path.pairwise_follow`     : on a flat path the list is in document order;
* `Path.pairwise_ne_follow`  : with one descendant step at most, no place is listed twice;
* `occurrences_documentOrder` : these results for a path that starts at the top of a forest;
* `occurrences_nestedLists`  : on other paths a node may be listed twice, or after a later one.
-/

/-! ### One step -/

/-- Which positions below a place the axis leads to. -/
def Axis.Allows : Axis → List Nat → Prop
  | .child, rest => rest.length = 1
  | .descendant, rest => rest ≠ []

/-- The positions of a place go on in the forest that it is part of. -/
def Place.StandsIn (nodes : List Node) (place : Place) : Prop :=
  ∀ rest, rest ≠ [] → nodeAt nodes (place.position ++ rest) = nodeAt place.nodes rest

/-- Two places, the second of which comes after all that is inside the first. -/
def Place.Apart (place place' : Place) : Prop :=
  List.Lex (· < ·) place.position place'.position ∧ ¬ place.position <+: place'.position

/-- The inside of a node of the forest stands in the forest. -/
theorem Occurrence.standsIn_inside {nodes : List Node} {x : Occurrence}
    (h : nodeAt nodes x.position = some x.node) : x.inside.StandsIn nodes :=
  fun _ hrest => nodeAt_append h hrest

/-- Every step goes down. -/
theorem Axis.Allows.ne_nil {axis : Axis} {rest : List Nat} (h : axis.Allows rest) : rest ≠ [] := by
  rintro rfl
  cases axis with
  | child => cases h
  | descendant => exact h rfl

namespace Step

/-- The step looks at an occurrence from the place at a position, and accepts its node. -/
structure Finds (step : Step) (nodes : List Node) (position : List Nat) (x : Occurrence) : Prop where
  below : ∃ rest, step.axis.Allows rest ∧ x.position = position ++ rest
  nodeAt_eq : nodeAt nodes x.position = some x.node
  accepts : step.test.accepts x.node = true

/-- The step leads from the place at a position to an occurrence: it finds it, and the predicate
    holds there.  A position counts, in document order, the occurrences that the step finds from
    the same place. -/
def Selects (step : Step) (nodes : List Node) (position : List Nat) (x : Occurrence) : Prop :=
  step.Finds nodes position x ∧
    match step.predicate with
    | none => True
    | some (.position n) => ∃ earlier : List Occurrence, earlier.length = n - 1 ∧
        earlier.Pairwise Occurrence.Before ∧
        ∀ y, y ∈ earlier ↔ step.Finds nodes position y ∧ y.Before x
    | some (.hasAttribute name) => ∃ tag children value, x.node = .element tag children ∧
        tag.attribute? name = some value
    | some (.attributeEquals name value) => ∃ tag children, x.node = .element tag children ∧
        tag.attribute? name = some value

variable {step : Step} {nodes : List Node} {place : Place} {x : Occurrence}

/-- The candidates of a step are the nodes at the distance that its axis allows. -/
theorem mem_candidates_iff :
    x ∈ step.candidates place ↔ ∃ rest, step.axis.Allows rest ∧
      x.position = place.position ++ rest ∧ nodeAt place.nodes rest = some x.node := by
  unfold candidates
  cases step.axis with
  | child =>
    simp only [mem_childrenFrom_iff, Nat.zero_add]
    constructor
    · rintro ⟨k, hposition, hnode⟩
      exact ⟨[k], rfl, hposition, hnode⟩
    · rintro ⟨rest, hrest, hposition, hnode⟩
      obtain ⟨k, rfl⟩ := List.length_eq_one_iff.mp hrest
      exact ⟨k, hposition, hnode⟩
  | descendant =>
    simp only [mem_descendantsFrom_iff, Nat.zero_add]
    constructor
    · rintro ⟨k, rest, hposition, hnode⟩
      exact ⟨k :: rest, List.cons_ne_nil k rest, hposition, hnode⟩
    · rintro ⟨rest, hrest, hposition, hnode⟩
      obtain ⟨k, rest, rfl⟩ := List.exists_cons_of_ne_nil hrest
      exact ⟨k, rest, hposition, hnode⟩

/-- The candidates are in document order. -/
theorem pairwise_candidates (step : Step) (place : Place) :
    (step.candidates place).Pairwise Occurrence.Before := by
  unfold candidates
  cases step.axis with
  | child => exact pairwise_childrenFrom place.position 0 place.nodes
  | descendant => exact pairwise_descendantsFrom place.position 0 place.nodes

/-- What a step selects from one place is in document order. -/
theorem pairwise_apply (step : Step) (place : Place) :
    (step.apply place).Pairwise Occurrence.Before :=
  (step.pairwise_candidates place).sublist (step.apply_sublist place)

/-- What a step selects stands below the place, at a distance that the axis allows. -/
theorem exists_position_of_mem_apply (h : x ∈ step.apply place) :
    ∃ rest, step.axis.Allows rest ∧ x.position = place.position ++ rest := by
  obtain ⟨rest, hrest, hposition, -⟩ := mem_candidates_iff.mp ((step.apply_sublist place).subset h)
  exact ⟨rest, hrest, hposition⟩

/-- The test accepts what the step is to find. -/
theorem mem_filter_candidates_iff (hplace : place.StandsIn nodes) :
    x ∈ (step.candidates place).filter (step.test.accepts ·.node) ↔
      step.Finds nodes place.position x := by
  rw [List.mem_filter, mem_candidates_iff]
  constructor
  · rintro ⟨⟨rest, hrest, hposition, hnode⟩, haccepts⟩
    refine ⟨⟨rest, hrest, hposition⟩, ?_, haccepts⟩
    rw [hposition, hplace rest hrest.ne_nil, hnode]
  · rintro ⟨⟨rest, hrest, hposition⟩, hnode, haccepts⟩
    refine ⟨⟨rest, hrest, hposition, ?_⟩, haccepts⟩
    rw [← hplace rest hrest.ne_nil, ← hposition, hnode]

/-- In a list in document order, what stands in front of an occurrence is what comes before it. -/
theorem mem_front_iff {front rest : List Occurrence} {x y : Occurrence}
    (h : (front ++ x :: rest).Pairwise Occurrence.Before) :
    y ∈ front ↔ y ∈ front ++ x :: rest ∧ y.Before x := by
  obtain ⟨-, hrest, hfront⟩ := List.pairwise_append.mp h
  constructor
  · intro hy
    exact ⟨List.mem_append_left _ hy, hfront y hy x List.mem_cons_self⟩
  · rintro ⟨hy, hbefore⟩
    rcases List.mem_append.mp hy with hy | hy
    · exact hy
    · rcases List.mem_cons.mp hy with rfl | hy
      · exact absurd rfl hbefore.position_ne
      · exact absurd (List.rel_of_pairwise_cons hrest hy) (Std.Asymm.asymm _ _ hbefore)

/-- In a list in document order, an occurrence is at an index if as many come before it. -/
theorem mem_take_one_drop_iff {xs : List Occurrence} (h : xs.Pairwise Occurrence.Before) {k : Nat} :
    x ∈ (xs.drop k).take 1 ↔ x ∈ xs ∧ ∃ earlier : List Occurrence, earlier.length = k ∧
      earlier.Pairwise Occurrence.Before ∧ ∀ y, y ∈ earlier ↔ y ∈ xs ∧ y.Before x := by
  constructor
  · intro hx
    obtain ⟨y, rest, hdrop⟩ : ∃ y rest, xs.drop k = y :: rest :=
      List.exists_cons_of_ne_nil fun hnil => by simp [hnil] at hx
    obtain rfl : x = y := by simpa [hdrop] using hx
    have hxs : xs.take k ++ x :: rest = xs := by rw [← hdrop, List.take_append_drop]
    refine ⟨hxs ▸ List.mem_append_right _ List.mem_cons_self, xs.take k, ?_, ?_, fun y => ?_⟩
    · have hlength := congrArg List.length hdrop
      rw [List.length_drop, List.length_cons] at hlength
      rw [List.length_take]
      omega
    · exact h.sublist (List.take_sublist k xs)
    · rw [mem_front_iff (hxs.symm ▸ h), hxs]
  · rintro ⟨hx, earlier, hlength, hearlier, hmem⟩
    obtain ⟨front, rest, rfl⟩ := List.append_of_mem hx
    -- both lists are in document order and hold what comes before `x`
    have hfront : front = earlier := by
      refine (List.pairwise_append.mp h).1.eq_of_mem_iff hearlier fun y => ?_
      rw [hmem y, mem_front_iff h]
    rw [← hlength, ← hfront, List.drop_left]
    exact List.mem_cons_self

/-- A step leads to what it selects. -/
theorem mem_apply_iff (hplace : place.StandsIn nodes) :
    x ∈ step.apply place ↔ step.Selects nodes place.position x := by
  have hfound : ∀ y, y ∈ (step.candidates place).filter (step.test.accepts ·.node) ↔
      step.Finds nodes place.position y := fun _ => mem_filter_candidates_iff hplace
  have hordered := (step.pairwise_candidates place).filter (step.test.accepts ·.node)
  unfold apply Selects
  -- a position counts among the nodes found, the other predicates look at one node alone
  match step.predicate with
  | none => simp only [keep, hfound, and_true]
  | some (.position n) => simp only [keep, mem_take_one_drop_iff hordered, hfound]
  | some (.hasAttribute name) =>
    obtain ⟨position, node⟩ := x
    rw [keep, List.mem_filter, hfound]
    cases node with
    | text content => simp
    | element tag children => simp [Option.isSome_iff_exists]
  | some (.attributeEquals name value) =>
    obtain ⟨position, node⟩ := x
    rw [keep, List.mem_filter, hfound]
    cases node with
    | text content => simp
    | element tag children => simp

/-- From places apart from one another a step leads to occurrences in document order. -/
theorem pairwise_flatMap_apply (step : Step) {places : List Place}
    (h : places.Pairwise Place.Apart) :
    (places.flatMap step.apply).Pairwise Occurrence.Before := by
  rw [List.pairwise_flatMap]
  refine ⟨fun place _ => step.pairwise_apply place, h.imp ?_⟩
  intro place place' hapart x hx y hy
  obtain ⟨rest, -, hx⟩ := exists_position_of_mem_apply hx
  obtain ⟨rest', -, hy⟩ := exists_position_of_mem_apply hy
  unfold Occurrence.Before
  rw [hx, hy]
  exact lex_append_append hapart.1 hapart.2 rest rest'

/-- From different places a child step leads to different occurrences. -/
theorem pairwise_ne_flatMap_apply (hchild : step.axis = .child) {places : List Place}
    (h : places.Pairwise (·.position ≠ ·.position)) :
    (places.flatMap step.apply).Pairwise (·.position ≠ ·.position) := by
  rw [List.pairwise_flatMap]
  refine ⟨fun place _ => (step.pairwise_apply place).imp Occurrence.Before.position_ne, h.imp ?_⟩
  intro place place' hne x hx y hy heq
  obtain ⟨rest, hrest, hx⟩ := exists_position_of_mem_apply hx
  obtain ⟨rest', hrest', hy⟩ := exists_position_of_mem_apply hy
  rw [hchild] at hrest hrest'
  rw [hx, hy] at heq
  exact hne (List.append_inj_left' heq (Eq.trans hrest (Eq.symm hrest')))

end Step

/-! ### One step after the other -/

namespace Path

/-- The steps, taken one after the other, lead from the place at a position to an occurrence. -/
inductive Reaches (nodes : List Node) : List Step → List Nat → Occurrence → Prop
  | last {step : Step} {position : List Nat} {x : Occurrence}
      (h : step.Selects nodes position x) : Reaches nodes [step] position x
  | next {step : Step} {steps : List Step} {position : List Nat} {x y : Occurrence}
      (h : step.Selects nodes position y) (hx : Reaches nodes steps y.position x) :
      Reaches nodes (step :: steps) position x

/-- No step before the last leads to a node and to something inside it. -/
def Flat (path : Path) (nodes : List Node) : Prop :=
  ∀ n < path.steps.length, ∀ x y, Reaches nodes (path.steps.take n) [] x →
    Reaches nodes (path.steps.take n) [] y → ¬ x.Encloses y

theorem not_reaches_nil {nodes : List Node} {position : List Nat} {x : Occurrence} :
    ¬ Reaches nodes [] position x := nofun

/-- What is reached is at its position in the forest. -/
theorem Reaches.nodeAt_eq {nodes : List Node} {steps : List Step} {position : List Nat}
    {x : Occurrence} (h : Reaches nodes steps position x) :
    nodeAt nodes x.position = some x.node := by
  induction h with
  | last h => exact h.1.nodeAt_eq
  | next _ _ ih => exact ih

/-- Each child step leads one level down. -/
theorem Reaches.length_position {nodes : List Node} {steps : List Step} {position : List Nat}
    {x : Occurrence} (h : Reaches nodes steps position x)
    (hchild : ∀ step ∈ steps, step.axis = .child) :
    x.position.length = position.length + steps.length := by
  induction h with
  | @last step position x h =>
    obtain ⟨rest, hrest, hx⟩ := h.1.below
    rw [hchild step List.mem_cons_self] at hrest
    -- each step to a child makes the position one longer
    rw [hx, List.length_append, hrest]
    rfl
  | @next step steps position x y h _ ih =>
    obtain ⟨rest, hrest, hy⟩ := h.1.below
    rw [hchild step List.mem_cons_self] at hrest
    rw [ih fun s hs => hchild s (List.mem_cons_of_mem step hs), hy, List.length_append, hrest,
      List.length_cons]
    omega

/-- The occurrences that are listed are those that the steps lead to. -/
theorem mem_follow_iff {nodes : List Node} {steps : List Step} {places : List Place}
    (hplaces : ∀ place ∈ places, place.StandsIn nodes) {x : Occurrence} :
    x ∈ follow steps places ↔ ∃ place ∈ places, Reaches nodes steps place.position x := by
  fun_induction follow steps places with
  | case1 => simp [not_reaches_nil]
  | case2 step places =>
    rw [List.mem_flatMap]
    constructor
    · rintro ⟨place, hplace, hx⟩
      exact ⟨place, hplace, .last ((Step.mem_apply_iff (hplaces place hplace)).mp hx)⟩
    · rintro ⟨place, hplace, hx⟩
      cases hx with
      | last h => exact ⟨place, hplace, (Step.mem_apply_iff (hplaces place hplace)).mpr h⟩
      | next _ hx => exact absurd hx not_reaches_nil
  | case3 step steps places hsteps ih =>
    -- the later steps start inside nodes of the same forest
    have hinside : ∀ place ∈ (places.flatMap step.apply).map Occurrence.inside,
        place.StandsIn nodes := by
      intro place hplace
      obtain ⟨y, hy, rfl⟩ := List.mem_map.mp hplace
      obtain ⟨place, hplace, hy⟩ := List.mem_flatMap.mp hy
      exact Occurrence.standsIn_inside
        ((Step.mem_apply_iff (hplaces place hplace)).mp hy).1.nodeAt_eq
    rw [ih hinside]
    constructor
    · rintro ⟨_, hplace, hx⟩
      obtain ⟨y, hy, rfl⟩ := List.mem_map.mp hplace
      obtain ⟨place, hplace, hy⟩ := List.mem_flatMap.mp hy
      exact ⟨place, hplace, .next ((Step.mem_apply_iff (hplaces place hplace)).mp hy) hx⟩
    · rintro ⟨place, hplace, hx⟩
      cases hx with
      | last _ => exact absurd rfl hsteps
      | @next _ _ _ _ y h hx =>
        have hy := (Step.mem_apply_iff (hplaces place hplace)).mpr h
        exact ⟨y.inside, List.mem_map_of_mem (List.mem_flatMap.mpr ⟨place, hplace, hy⟩), hx⟩

/-- A path selects what its steps reach from the top. -/
theorem mem_occurrences_iff {path : Path} {nodes : List Node} {x : Occurrence} :
    x ∈ path.occurrences nodes ↔ Reaches nodes path.steps [] x := by
  have htop : ∀ place ∈ [Place.mk [] nodes], place.StandsIn nodes := by
    intro place hplace rest _
    rw [List.mem_singleton.mp hplace]
    rfl
  rw [occurrences, mem_follow_iff htop]
  simp

/-! ### The order of the list -/

/-- Following a path starts with its first step. -/
theorem follow_cons (step : Step) {steps : List Step} (h : steps ≠ []) (places : List Place) :
    follow (step :: steps) places =
      follow steps ((places.flatMap step.apply).map Occurrence.inside) := by
  obtain ⟨next, steps, rfl⟩ := List.exists_cons_of_ne_nil h
  rfl

/-- From places apart from one another, steps that never lead to a node and to something inside it,
    the last one excepted, lead to occurrences in document order. -/
theorem pairwise_follow {steps : List Step} {places : List Place}
    (hplaces : places.Pairwise Place.Apart)
    (hflat : ∀ n < steps.length, ∀ x ∈ follow (steps.take n) places,
      ∀ y ∈ follow (steps.take n) places, ¬ x.Encloses y) :
    (follow steps places).Pairwise Occurrence.Before := by
  fun_induction follow steps places with
  | case1 => exact .nil
  | case2 step places => exact step.pairwise_flatMap_apply hplaces
  | case3 step steps places hsteps ih =>
    have hlength : 0 < steps.length := List.length_pos_iff.mpr hsteps
    apply ih
    · -- in document order and none inside another, so apart from one another
      rw [List.pairwise_map]
      refine (step.pairwise_flatMap_apply hplaces).imp_of_mem fun {x y} hx hy hbefore => ?_
      have hnot := hflat 1 (by rw [List.length_cons]; omega) x hx y hy
      exact ⟨hbefore, fun hprefix => hnot ⟨hbefore.position_ne, hprefix⟩⟩
    · intro n hn x hx y hy
      by_cases hn0 : n = 0
      · rw [hn0, List.take_zero, follow] at hx
        exact absurd hx List.not_mem_nil
      · have htake : steps.take n ≠ [] := by
          rw [Ne, List.take_eq_nil_iff, not_or]
          exact ⟨hn0, hsteps⟩
        rw [← follow_cons step htake, ← List.take_succ_cons] at hx hy
        exact hflat (n + 1) (by rw [List.length_cons]; omega) x hx y hy

/-- A flat path that starts at the top of a forest leads to occurrences in document order. -/
theorem Flat.pairwise_occurrences {path : Path} {nodes : List Node} (h : path.Flat nodes) :
    (path.occurrences nodes).Pairwise Occurrence.Before := by
  refine pairwise_follow (List.pairwise_singleton _ _) fun n hn x hx y hy => ?_
  have hmem : ∀ z ∈ (Path.mk (path.steps.take n)).occurrences nodes,
      Reaches nodes (path.steps.take n) [] z := fun z => mem_occurrences_iff.mp
  exact h n hn x y (hmem x hx) (hmem y hy)

/-- Child steps before the last make a path flat: they lead to nodes of one level. -/
theorem flat_of_child {path : Path} (h : ∀ step ∈ path.steps.dropLast, step.axis = .child)
    (nodes : List Node) : path.Flat nodes := by
  intro n hn x y hx hy hencloses
  have hchild : ∀ step ∈ path.steps.take n, step.axis = .child := by
    intro step hstep
    apply h
    rw [List.dropLast_eq_take]
    exact (List.take_sublist_take_left (by omega)).subset hstep
  have hlength : x.position.length = y.position.length := by
    rw [hx.length_position hchild, hy.length_position hchild]
  exact hencloses.1 (hencloses.2.eq_of_length hlength)

/-! ### Repetitions -/

/-- Places of one level, in document order. -/
structure Level (depth : Nat) (places : List Place) : Prop where
  length_eq : ∀ place ∈ places, place.position.length = depth
  ordered : places.Pairwise fun place place' =>
    List.Lex (· < ·) place.position place'.position

/-- Different places on one level are not inside each other. -/
theorem Level.apart {depth : Nat} {places : List Place} (h : Level depth places) :
    places.Pairwise Place.Apart := by
  refine h.ordered.imp_of_mem fun {place place'} hplace hplace' hlex => ⟨hlex, fun hprefix => ?_⟩
  have heq := hprefix.eq_of_length ((h.length_eq _ hplace).trans (h.length_eq _ hplace').symm)
  rw [heq] at hlex
  exact irrefl_of (List.Lex (· < ·)) _ hlex

/-- A child step leads from one level to the next. -/
theorem Level.next {depth : Nat} {places : List Place} {step : Step} (h : Level depth places)
    (hchild : step.axis = .child) :
    Level (depth + 1) ((places.flatMap step.apply).map Occurrence.inside) where
  length_eq := by
    intro place hplace
    obtain ⟨x, hx, rfl⟩ := List.mem_map.mp hplace
    obtain ⟨place, hplace, hx⟩ := List.mem_flatMap.mp hx
    obtain ⟨rest, hrest, hposition⟩ := Step.exists_position_of_mem_apply hx
    rw [hchild] at hrest
    show x.position.length = depth + 1
    rw [hposition, List.length_append, h.length_eq place hplace, hrest]
  ordered := List.pairwise_map.mpr (step.pairwise_flatMap_apply h.apart)

/-- Steps to children from different places end at different places. -/
theorem pairwise_ne_follow_of_child {steps : List Step} {places : List Place}
    (hchild : ∀ step ∈ steps, step.axis = .child)
    (h : places.Pairwise (·.position ≠ ·.position)) :
    (follow steps places).Pairwise (·.position ≠ ·.position) := by
  fun_induction follow steps places with
  | case1 => exact .nil
  | case2 step places =>
    exact Step.pairwise_ne_flatMap_apply (hchild step List.mem_cons_self) h
  | case3 step steps places _ ih =>
    apply ih
    · exact fun s hs => hchild s (List.mem_cons_of_mem step hs)
    · rw [List.pairwise_map]
      exact Step.pairwise_ne_flatMap_apply (hchild step List.mem_cons_self) h

/-- With one descendant step at most, no occurrence is listed twice. -/
theorem pairwise_ne_follow {depth : Nat} {steps : List Step} {places : List Place}
    (hcount : steps.countP (·.axis = .descendant) ≤ 1) (h : Level depth places) :
    (follow steps places).Pairwise (·.position ≠ ·.position) := by
  fun_induction follow steps places generalizing depth with
  | case1 => exact .nil
  | case2 step places =>
    exact (step.pairwise_flatMap_apply h.apart).imp Occurrence.Before.position_ne
  | case3 step steps places _ ih =>
    cases haxis : step.axis with
    | child =>
      -- the level is kept, and the descendant step may still come
      rw [List.countP_cons_of_neg (by simp [haxis])] at hcount
      exact ih hcount (h.next haxis)
    | descendant =>
      -- only child steps are left, and these keep different places different
      rw [List.countP_cons_of_pos (by simp [haxis])] at hcount
      have hnone : steps.countP (·.axis = .descendant) = 0 := by omega
      have hchild : ∀ s ∈ steps, s.axis = .child := by
        intro s hs
        have hs := List.countP_eq_zero.mp hnone s hs
        cases hs' : s.axis with
        | child => rfl
        | descendant => exact absurd (by simp [hs']) hs
      apply pairwise_ne_follow_of_child hchild
      rw [List.pairwise_map]
      exact (step.pairwise_flatMap_apply h.apart).imp Occurrence.Before.position_ne

end Path

/-! ### What a path selects -/

/-- **Selection and document order.**  A path selects the places of the forest that its steps lead
    to.  They are listed in document order, and so each one once, if no step before the last leads
    to a node and to something inside it, for example if these are child steps.  With one descendant
    step at most, each one is listed once, whatever the order. -/
theorem occurrences_documentOrder (path : Path) (nodes : List Node) :
    (∀ x, x ∈ path.occurrences nodes ↔ Path.Reaches nodes path.steps [] x) ∧
    (∀ x ∈ path.occurrences nodes, nodeAt nodes x.position = some x.node) ∧
    (path.Flat nodes → (path.occurrences nodes).Pairwise Occurrence.Before) ∧
    ((∀ step ∈ path.steps.dropLast, step.axis = .child) → path.Flat nodes) ∧
    (path.steps.countP (·.axis = .descendant) ≤ 1 →
      (path.occurrences nodes).Pairwise (·.position ≠ ·.position)) := by
  refine ⟨fun x => Path.mem_occurrences_iff, fun x hx => (Path.mem_occurrences_iff.mp hx).nodeAt_eq,
    fun hflat => hflat.pairwise_occurrences, fun hchild => Path.flat_of_child hchild nodes,
    fun hcount => ?_⟩
  have htop : Path.Level 0 [⟨[], nodes⟩] := by
    refine ⟨fun place hplace => ?_, List.pairwise_singleton _ _⟩
    rw [List.mem_singleton.mp hplace]
    rfl
  exact Path.pairwise_ne_follow hcount htop

/-- A list with an item and, in front of it, a list with an item. -/
def sampleNestedLists : List Node :=
  [.element ⟨"list", []⟩
    [.element ⟨"list", []⟩ [.element ⟨"item", []⟩ [.text "1"]],
      .element ⟨"item", []⟩ [.text "2"]]]

/-- The path `//item/text()`, whose first step is a descendant step.  No item is inside another. -/
def sampleItemTexts : Path :=
  ⟨[{ axis := .descendant, test := .named "item" }, { test := .anyText }]⟩

/-- The texts of items in nested lists are selected once each and in document order. -/
theorem occurrences_documentOrder_itemTexts :
    Path.parse "//item/text()" = .ok sampleItemTexts ∧
    sampleItemTexts.Flat sampleNestedLists ∧
    sampleItemTexts.steps.countP (·.axis = .descendant) ≤ 1 ∧
    (sampleItemTexts.occurrences sampleNestedLists).map (·.position) = [[0, 0, 0, 0], [0, 1, 0]] ∧
    (sampleItemTexts.occurrences sampleNestedLists).Pairwise Occurrence.Before ∧
    (sampleItemTexts.occurrences sampleNestedLists).Pairwise (·.position ≠ ·.position) := by
  obtain ⟨-, -, hordered, -, hdistinct⟩ := occurrences_documentOrder sampleItemTexts sampleNestedLists
  have hcount : sampleItemTexts.steps.countP (·.axis = .descendant) ≤ 1 := by decide
  -- no item is inside another item
  have hitems : ∀ x ∈ (Path.mk (sampleItemTexts.steps.take 1)).occurrences sampleNestedLists,
      ∀ y ∈ (Path.mk (sampleItemTexts.steps.take 1)).occurrences sampleNestedLists,
        ¬ x.Encloses y := by decide
  have hflat : sampleItemTexts.Flat sampleNestedLists := by
    intro n hn x y hx hy
    match n, hn with
    | 0, _ => exact absurd hx Path.not_reaches_nil
    | 1, _ =>
      exact hitems x (Path.mem_occurrences_iff.mpr hx) y (Path.mem_occurrences_iff.mpr hy)
  exact ⟨by decide, hflat, hcount, by decide, hordered hflat, hdistinct hcount⟩

/-- **Repeated and reordered nodes.**  In a list inside a list, `//list//item` leads to the inner
    item twice, and `//list/item` leads to it after the item that follows it. -/
theorem occurrences_nestedLists :
    ∃ anywhere inside : Path,
      Path.parse "//list//item" = .ok anywhere ∧
      Path.parse "//list/item" = .ok inside ∧
      (anywhere.occurrences sampleNestedLists).map (·.position) = [[0, 0, 0], [0, 1], [0, 0, 0]] ∧
      (inside.occurrences sampleNestedLists).map (·.position) = [[0, 1], [0, 0, 0]] ∧
      ¬ (anywhere.occurrences sampleNestedLists).Pairwise (·.position ≠ ·.position) ∧
      ¬ (inside.occurrences sampleNestedLists).Pairwise Occurrence.Before := by
  refine ⟨⟨[{ axis := .descendant, test := .named "list" },
    { axis := .descendant, test := .named "item" }]⟩,
    ⟨[{ axis := .descendant, test := .named "list" }, { test := .named "item" }]⟩, ?_⟩
  decide

end InheritDoc
