import InheritDoc.Catalog.Ancestry
import Mathlib.Data.List.Nodup
import Mathlib.Logic.Relation

namespace InheritDoc.Hierarchy

open Relation (ReflTransGen)

/-!
# The order of ancestors

The ancestors of a type are found by two walks that share what they have seen: one along the base
types, and one through a queue of interfaces that grows by what each interface leads to.

* `nodup_walk`, `nodup_ancestors` : a walk visits nothing twice, so each ancestor is listed once;
* `Leads`              : one type inherits from another directly;
* `mem_walk_of_mem`, `mem_walk_of_follow` : a walk misses nothing of its queue, and nothing that its
  ids lead to;
* `reachable_of_mem_walk` : it finds nothing that cannot be reached from its queue;
* `walk_append`        : it takes what stands in its queue first before anything that is appended;
* `exists_parent_of_walk` : what was appended stands after something that leads to it;
* `Linearized`         : the three parts of the list of ancestors;
* `ancestors_linearized` : **the ancestors are the types that can be reached, in that order.**
-/

variable (h : Hierarchy)

/-! ### Nothing twice -/

/-- A walk visits nothing that was seen before. -/
theorem notMem_of_mem_walk {next : Links → List String} {seen queue : List String} {id : String}
    (hid : id ∈ h.walk next seen queue) : id ∉ seen := by
  fun_induction walk h next seen queue with
  | case1 => exact absurd hid List.not_mem_nil
  | case2 seen first queue _ ih => exact ih hid
  | case3 seen first queue hseen ih =>
    rcases List.mem_cons.mp hid with rfl | hid
    · exact hseen
    · exact fun hmem => ih hid (List.mem_cons_of_mem first hmem)

/-- A walk visits nothing twice. -/
theorem nodup_walk (next : Links → List String) (seen queue : List String) :
    (h.walk next seen queue).Nodup := by
  fun_induction walk h next seen queue with
  | case1 => exact .nil
  | case2 seen first queue _ ih => exact ih
  | case3 seen first queue hseen ih =>
    refine List.nodup_cons.mpr ⟨fun hmem => ?_, ih⟩
    exact h.notMem_of_mem_walk hmem List.mem_cons_self

/-- No ancestor is listed twice. -/
theorem nodup_ancestors (id : String) : (h.ancestors id).Nodup := by
  refine List.nodup_append'.mpr ⟨h.nodup_walk _ _ _, h.nodup_walk _ _ _, ?_⟩
  -- the second walk has seen the base chain
  intro x hchain hwalk
  exact h.notMem_of_mem_walk hwalk (List.mem_cons_of_mem id hchain)

/-! ### Links -/

/-- The base type of a type. -/
def baseOf (id : String) : Option String :=
  (h.lookup id).bind (·.base)

/-- The type `id` inherits from `parent` directly. -/
def Leads (id parent : String) : Prop :=
  parent ∈ h.follow Links.parents id

/-- A type has at most one base. -/
theorem follow_base (id : String) : h.follow (·.base.toList) id = (h.baseOf id).toList := by
  unfold follow baseOf
  cases h.lookup id with
  | none => rfl
  | some l => rfl

/-- A type leads to its base type and to its interfaces. -/
theorem leads_iff {id parent : String} :
    h.Leads id parent ↔ h.baseOf id = some parent ∨ parent ∈ h.follow (·.interfaces) id := by
  unfold Leads follow baseOf
  cases h.lookup id with
  | none => simp
  | some l => simp [Links.parents]

/-- The second walk follows all links, interfaces first. -/
theorem mem_follow_iff {id parent : String} :
    parent ∈ h.follow (fun l => l.interfaces ++ l.base.toList) id ↔ h.Leads id parent := by
  unfold Leads follow
  cases h.lookup id with
  | none => simp
  | some l => simp [Links.parents, or_comm]

/-! ### What a walk finds -/

section Walk

variable {h} {next : Links → List String} {seen queue : List String}

/-- An id that is visited counts as seen from then on. -/
theorem mem_seen_or_visited {id first : String} {visited : List String}
    (hid : id ∈ first :: seen ∨ id ∈ visited) : id ∈ seen ∨ id ∈ first :: visited := by
  rcases hid with hmem | hmem
  · rcases List.mem_cons.mp hmem with rfl | hmem
    · exact .inr List.mem_cons_self
    · exact .inl hmem
  · exact .inr (List.mem_cons_of_mem _ hmem)

/-- A walk visits everything in its queue that has not been seen. -/
theorem mem_walk_of_mem {id : String} (hid : id ∈ queue) : id ∈ seen ∨ id ∈ h.walk next seen queue := by
  fun_induction walk h next seen queue with
  | case1 => exact absurd hid List.not_mem_nil
  | case2 seen first queue hseen ih =>
    rcases List.mem_cons.mp hid with rfl | hid
    · exact .inl hseen
    · exact ih hid
  | case3 seen first queue _ ih =>
    rcases List.mem_cons.mp hid with rfl | hid
    · exact .inr List.mem_cons_self
    · exact mem_seen_or_visited (ih (List.mem_append_left _ hid))

/-- A walk visits everything that the ids it visits lead to and that has not been seen. -/
theorem mem_walk_of_follow {id parent : String} (hid : id ∈ h.walk next seen queue)
    (hparent : parent ∈ h.follow next id) : parent ∈ seen ∨ parent ∈ h.walk next seen queue := by
  fun_induction walk h next seen queue with
  | case1 => exact absurd hid List.not_mem_nil
  | case2 seen first queue _ ih => exact ih hid
  -- the first in the queue is listed, and what it leads to is queued
  | case3 seen first queue _ ih =>
    refine mem_seen_or_visited ?_
    rcases List.mem_cons.mp hid with rfl | hid
    · -- what the visited id leads to is in the queue from now on
      exact mem_walk_of_mem (List.mem_append_right _ hparent)
    · exact ih hid

/-- A walk along links visits only what can be reached from its queue. -/
theorem reachable_of_mem_walk (hnext : ∀ a, ∀ b ∈ h.follow next a, h.Leads a b) {id : String}
    (hid : id ∈ h.walk next seen queue) : ∃ q ∈ queue, ReflTransGen h.Leads q id := by
  fun_induction walk h next seen queue with
  | case1 => exact absurd hid List.not_mem_nil
  | case2 seen first queue _ ih =>
    obtain ⟨q, hq, hpath⟩ := ih hid
    exact ⟨q, List.mem_cons_of_mem _ hq, hpath⟩
  | case3 seen first queue _ ih =>
    rcases List.mem_cons.mp hid with rfl | hid
    · exact ⟨id, List.mem_cons_self, .refl⟩
    · obtain ⟨q, hq, hpath⟩ := ih hid
      rcases List.mem_append.mp hq with hq | hq
      · exact ⟨q, List.mem_cons_of_mem _ hq, hpath⟩
      · exact ⟨first, List.mem_cons_self, .head (hnext first q hq) hpath⟩

/-! ### In which order a walk finds it -/

/-- What a walk visits was in its queue from the start, or stands after an id that leads to it. -/
theorem exists_parent_of_walk {before later : List String} {id : String}
    (hwalk : h.walk next seen queue = before ++ id :: later) :
    id ∈ queue ∨ ∃ y ∈ before, id ∈ h.follow next y := by
  fun_induction walk h next seen queue generalizing before with
  | case1 => simp at hwalk
  | case2 seen first queue _ ih =>
    rcases ih hwalk with hmem | hparent
    · exact .inl (List.mem_cons_of_mem _ hmem)
    · exact .inr hparent
  | case3 seen first queue _ ih =>
    cases before with
    | nil =>
      obtain ⟨rfl, -⟩ := List.cons.inj hwalk
      exact .inl List.mem_cons_self
    | cons y before =>
      obtain ⟨rfl, hrest⟩ := List.cons.inj hwalk
      rcases ih hrest with hmem | ⟨y', hy', hparent⟩
      · rcases List.mem_append.mp hmem with hmem | hmem
        · exact .inl (List.mem_cons_of_mem _ hmem)
        · exact .inr ⟨first, List.mem_cons_self, hmem⟩
      · exact .inr ⟨y', List.mem_cons_of_mem _ hy', hparent⟩

/-- The ids of a queue that have not been seen, in order and each of them once. -/
def unlisted (seen queue : List String) : List String :=
  (queue.filter (· ∉ seen)).eraseDups

/-- What is listed is skipped. -/
theorem unlisted_cons_of_mem {id : String} (hid : id ∈ seen) :
    unlisted seen (id :: queue) = unlisted seen queue := by
  simp [unlisted, hid]

/-- What is not listed comes next, and is listed from then on. -/
theorem unlisted_cons_of_notMem {id : String} (hid : id ∉ seen) :
    unlisted seen (id :: queue) = id :: unlisted (id :: seen) queue := by
  rw [unlisted, List.filter_cons_of_pos (by simpa using hid), List.eraseDups_cons, List.filter_filter]
  refine congrArg (fun ids => id :: ids.eraseDups) (List.filter_congr fun x _ => ?_)
  by_cases hx : x = id
  · simp [hx]
  · simp [hx]

/-- Exactly what is not listed is left. -/
theorem mem_unlisted {id : String} : id ∈ unlisted seen queue ↔ id ∈ queue ∧ id ∉ seen := by
  simp [unlisted, List.mem_eraseDups]

/-- What stands first in the queue is visited first, and what it leads to is put at the end. -/
theorem walk_append (later : List String) :
    h.walk next seen (queue ++ later) = unlisted seen queue ++
      h.walk next ((unlisted seen queue).reverse ++ seen)
        (later ++ (unlisted seen queue).flatMap (h.follow next)) := by
  induction queue generalizing seen later with
  | nil => simp [unlisted]
  | cons first queue ih =>
    rw [List.cons_append, walk]
    by_cases hseen : first ∈ seen
    · rw [if_pos hseen, unlisted_cons_of_mem hseen, ih]
    · rw [if_neg hseen, unlisted_cons_of_notMem hseen, List.append_assoc, ih]
      simp only [List.cons_append, List.reverse_cons, List.append_assoc, List.nil_append,
        List.flatMap_cons]

end Walk

/-! ### The base chain -/

/-- The base type of a type, the base type of that, and so on, as far as there is one that has not
    occurred before. -/
structure IsBaseChain (id : String) (chain : List String) : Prop where
  linked : (id :: chain).IsChain fun a b => h.baseOf a = some b
  nodup : (id :: chain).Nodup
  ends : ∀ last ∈ (id :: chain).getLast?, ∀ base, h.baseOf last = some base → base ∈ id :: chain

/-- A walk along base types goes from each type to its base type. -/
theorem isChain_walk (seen : List String) (id : String) :
    (id :: h.walk (·.base.toList) seen (h.baseOf id).toList).IsChain fun a b =>
      h.baseOf a = some b := by
  generalize hqueue : (h.baseOf id).toList = queue
  fun_induction walk h (·.base.toList) seen queue generalizing id with
  | case1 => exact .singleton id
  | case2 seen first queue _ ih =>
    -- there is one base type at most, and it has been seen
    obtain rfl : queue = [] := by
      cases hbase : h.baseOf id <;> simp_all
    rw [walk]
    exact .singleton id
  | case3 seen first queue _ ih =>
    obtain ⟨hbase, rfl⟩ : h.baseOf id = some first ∧ queue = [] := by
      cases hbase : h.baseOf id <;> simp_all
    rw [List.isChain_cons_cons]
    refine ⟨hbase, ih first ?_⟩
    rw [List.nil_append, follow_base]

/-- Everything in the base chain has its base type there, if it has one. -/
theorem base_mem_baseChain {id t base : String} (ht : t ∈ id :: h.baseChain id)
    (hbase : h.baseOf t = some base) : base ∈ id :: h.baseChain id := by
  have hfollow : base ∈ h.follow (·.base.toList) t := by
    rw [follow_base, hbase]
    exact List.mem_singleton_self base
  have hfound : base ∈ [id] ∨ base ∈ h.baseChain id := by
    rcases List.mem_cons.mp ht with rfl | ht
    · exact mem_walk_of_mem hfollow
    · exact mem_walk_of_follow ht hfollow
  rw [List.mem_singleton] at hfound
  exact List.mem_cons.mpr hfound

/-- Following the base types of a type gives its base chain. -/
theorem isBaseChain_baseChain (id : String) : h.IsBaseChain id (h.baseChain id) := by
  constructor
  case linked =>
    rw [baseChain, follow_base]
    exact h.isChain_walk [id] id
  case nodup =>
    refine List.nodup_cons.mpr ⟨fun hid => ?_, h.nodup_walk _ _ _⟩
    exact h.notMem_of_mem_walk hid List.mem_cons_self
  case ends =>
    intro last hlast base hbase
    exact h.base_mem_baseChain (List.mem_of_getLast? hlast) hbase

/-! ### Reachability -/

/-- Everything in the base chain can be reached. -/
theorem reachable_of_mem_baseChain {id t : String} (ht : t ∈ id :: h.baseChain id) :
    ReflTransGen h.Leads id t := by
  rcases List.mem_cons.mp ht with rfl | ht
  · exact .refl
  · have hnext : ∀ a, ∀ b ∈ h.follow (·.base.toList) a, h.Leads a b := by
      intro a b hb
      rw [follow_base, Option.mem_toList] at hb
      exact h.leads_iff.mpr (.inl hb)
    obtain ⟨q, hq, hpath⟩ := reachable_of_mem_walk hnext ht
    exact .head (hnext id q hq) hpath

/-- What can be reached is closed: an ancestor leads to ancestors, or back to the type itself. -/
theorem mem_ancestors_of_leads {id t parent : String} (ht : t ∈ id :: h.ancestors id)
    (hleads : h.Leads t parent) : parent ∈ id :: h.ancestors id := by
  rw [ancestors, ← List.cons_append, List.mem_append] at ht ⊢
  rcases ht with ht | ht
  · -- of a type in the base chain the interfaces are queued and the base type is in the chain
    rcases h.leads_iff.mp hleads with hbase | hinterface
    · exact .inl (h.base_mem_baseChain ht hbase)
    · exact mem_walk_of_mem (List.mem_flatMap.mpr ⟨t, ht, hinterface⟩)
  · exact mem_walk_of_follow ht (h.mem_follow_iff.mpr hleads)

/-- Whatever can be reached is an ancestor, or the type itself. -/
theorem mem_ancestors_of_reachable {id x : String} (hpath : ReflTransGen h.Leads id x) :
    x ∈ id :: h.ancestors id := by
  induction hpath with
  | refl => exact List.mem_cons_self
  | tail _ hleads ih => exact h.mem_ancestors_of_leads ih hleads

/-- No type is its own ancestor. -/
theorem notMem_ancestors_self (id : String) : id ∉ h.ancestors id := by
  rw [ancestors, List.mem_append, not_or]
  exact ⟨(List.nodup_cons.mp (h.isBaseChain_baseChain id).nodup).1,
    fun hid => h.notMem_of_mem_walk hid List.mem_cons_self⟩

/-- The ancestors of a type are the other types that can be reached from it. -/
theorem mem_ancestors_iff {id x : String} :
    x ∈ h.ancestors id ↔ x ≠ id ∧ ReflTransGen h.Leads id x := by
  constructor
  · intro hx
    refine ⟨fun hself => h.notMem_ancestors_self id (hself ▸ hx), ?_⟩
    rcases List.mem_append.mp hx with hx | hx
    · exact h.reachable_of_mem_baseChain (List.mem_cons_of_mem id hx)
    · obtain ⟨q, hq, hpath⟩ := reachable_of_mem_walk (fun a b => h.mem_follow_iff.mp) hx
      obtain ⟨t, ht, hinterface⟩ := List.mem_flatMap.mp hq
      exact (h.reachable_of_mem_baseChain ht).trans (.head (h.leads_iff.mpr (.inr hinterface)) hpath)
  · rintro ⟨hne, hpath⟩
    exact (List.mem_cons.mp (h.mem_ancestors_of_reachable hpath)).resolve_left hne

/-- What an ancestor of an ancestor is: an ancestor, or the type itself. -/
theorem mem_ancestors_trans {id t x : String} (ht : t ∈ h.ancestors id) (hx : x ∈ h.ancestors t) :
    x ∈ id :: h.ancestors id :=
  h.mem_ancestors_of_reachable ((h.mem_ancestors_iff.mp ht).2.trans (h.mem_ancestors_iff.mp hx).2)

/-! ### The parts of the list -/

/-- The order in which the ancestors of a type are listed: its base chain; then the interfaces of the
    type and of its bases, in chain order and as they are declared; then what no type of the chain
    leads to.  Each of the latter is reached from one of these interfaces, and stands after an id
    that is listed since the chain and leads to it. -/
structure Linearized (id : String) (chain interfaces others : List String) : Prop where
  isBaseChain : h.IsBaseChain id chain
  interfaces_eq : interfaces
    = unlisted (id :: chain) ((id :: chain).flatMap (h.follow (·.interfaces)))
  others_indirect : ∀ x ∈ others, ∀ t ∈ id :: chain, ¬ h.Leads t x
  others_reached : ∀ x ∈ others, ∃ i ∈ interfaces, ReflTransGen h.Leads i x
  others_after : ∀ before x later, others = before ++ x :: later →
    ∃ y ∈ interfaces ++ before, h.Leads y x

/-- The interfaces of a type and of its bases that are not in the base chain. -/
def chainInterfaces (id : String) : List String :=
  unlisted (id :: h.baseChain id) ((id :: h.baseChain id).flatMap (h.follow (·.interfaces)))

/-- What the second walk visits after the interfaces of the chain. -/
def indirectAncestors (id : String) : List String :=
  h.walk (fun l => l.interfaces ++ l.base.toList)
    ((h.chainInterfaces id).reverse ++ id :: h.baseChain id)
    ((h.chainInterfaces id).flatMap (h.follow fun l => l.interfaces ++ l.base.toList))

/-- The second walk begins with the interfaces of the chain. -/
theorem ancestors_eq_append (id : String) :
    h.ancestors id = h.baseChain id ++ h.chainInterfaces id ++ h.indirectAncestors id := by
  rw [ancestors, ← List.append_nil (List.flatMap _ _), walk_append, List.append_assoc]
  rfl

/-- What a type of the chain leads to has been seen before the rest is visited. -/
theorem not_leads_of_mem_indirectAncestors {id x t : String} (hx : x ∈ h.indirectAncestors id)
    (ht : t ∈ id :: h.baseChain id) : ¬ h.Leads t x := by
  intro hleads
  refine h.notMem_of_mem_walk hx (List.mem_append.mpr ?_)
  rcases h.leads_iff.mp hleads with hbase | hinterface
  · exact .inr (h.base_mem_baseChain ht hbase)
  · by_cases hchain : x ∈ id :: h.baseChain id
    · exact .inr hchain
    · rw [List.mem_reverse, chainInterfaces, mem_unlisted]
      exact .inl ⟨List.mem_flatMap.mpr ⟨t, ht, hinterface⟩, hchain⟩

/-- The ancestors of a type have the three parts that a linearization has. -/
theorem linearized_parts (id : String) :
    h.Linearized id (h.baseChain id) (h.chainInterfaces id) (h.indirectAncestors id) := by
  constructor
  case isBaseChain => exact h.isBaseChain_baseChain id
  case interfaces_eq => rfl
  case others_indirect => exact fun x hx t ht => h.not_leads_of_mem_indirectAncestors hx ht
  case others_reached =>
    intro x hx
    obtain ⟨q, hq, hpath⟩ := reachable_of_mem_walk (fun a b => h.mem_follow_iff.mp) hx
    obtain ⟨i, hi, hfollow⟩ := List.mem_flatMap.mp hq
    exact ⟨i, hi, .head (h.mem_follow_iff.mp hfollow) hpath⟩
  case others_after =>
    intro before x later hwalk
    -- it was queued by an interface of the chain, or appended by an id that was visited since
    rcases exists_parent_of_walk hwalk with hmem | ⟨y, hy, hfollow⟩
    · obtain ⟨y, hy, hfollow⟩ := List.mem_flatMap.mp hmem
      exact ⟨y, List.mem_append_left _ hy, h.mem_follow_iff.mp hfollow⟩
    · exact ⟨y, List.mem_append_right _ hy, h.mem_follow_iff.mp hfollow⟩

/-- **The ancestors are linearized.**  Whatever the links are, cyclic or leading nowhere, the list of
    the ancestors of a type has no id twice and not that of the type itself, and holds exactly the
    other ids that can be reached by following base types and interfaces.  It begins with the base
    chain, goes on with the interfaces of the chain that are not listed yet, and ends with what is
    reached through interfaces alone, each such id after one that leads to it. -/
theorem ancestors_linearized (id : String) :
    (h.ancestors id).Nodup ∧ id ∉ h.ancestors id ∧
      (∀ x, x ∈ h.ancestors id ↔ x ≠ id ∧ ReflTransGen h.Leads id x) ∧
      ∃ chain interfaces others, h.ancestors id = chain ++ interfaces ++ others ∧
        h.Linearized id chain interfaces others := by
  exact ⟨h.nodup_ancestors id, h.notMem_ancestors_self id, fun x => h.mem_ancestors_iff,
    h.baseChain id, h.chainInterfaces id, h.indirectAncestors id, h.ancestors_eq_append id,
    h.linearized_parts id⟩

end InheritDoc.Hierarchy
