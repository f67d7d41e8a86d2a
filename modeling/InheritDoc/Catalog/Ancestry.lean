namespace InheritDoc

/-!
# Ancestors of types

* `Links`     : the base type and the interfaces of a type, by their ids;
* `Hierarchy` : the links of every known type;
* `Hierarchy.ancestors` : the ancestors of a type in the order in which members are looked up: its
  chain of base types, the interfaces of the type and of its bases, then what only those lead to.

Links may be cyclic or lead to unknown types.
-/

/-- The hierarchy links of a type. -/
structure Links where
  base : Option String := none
  interfaces : List String := []
  deriving DecidableEq, Repr, Inhabited

/-- What a type inherits from directly: its base type, then its interfaces. -/
def Links.parents (l : Links) : List String :=
  l.base.toList ++ l.interfaces

/-- The links of the known types. -/
abbrev Hierarchy := List (String × Links)

namespace Hierarchy

/-- What the links of a type lead to; nothing for an unknown type. -/
def follow (h : Hierarchy) (next : Links → List String) (id : String) : List String :=
  ((h.lookup id).map next).getD []

/-- How many known types have not been seen. -/
def unseen (h : Hierarchy) (seen : List String) : Nat :=
  h.countP fun l => l.1 ∉ seen

/-- No type becomes unseen by seeing another one. -/
theorem unseen_cons_le (h : Hierarchy) (seen : List String) (id : String) :
    h.unseen (id :: seen) ≤ h.unseen seen := by
  refine List.countP_mono_left fun l _ hl => ?_
  simp only [List.mem_cons, not_or, decide_eq_true_eq] at hl ⊢
  exact hl.2

/-- A known type that is seen for the first time is one less to see, so walks end. -/
theorem unseen_cons_lt {h : Hierarchy} {seen : List String} {id : String}
    (hseen : id ∉ seen) (hknown : h.lookup id ≠ none) :
    h.unseen (id :: seen) < h.unseen seen := by
  induction h with
  | nil => simp at hknown
  | cons l h ih =>
    obtain ⟨key, links⟩ := l
    have hle := unseen_cons_le h seen id
    simp only [unseen, List.countP_cons, List.mem_cons] at ih hle ⊢
    by_cases hkey : id = key
    · subst hkey
      simp only [true_or, not_true_eq_false, decide_false, Bool.false_eq_true, ↓reduceIte, hseen,
        not_false_eq_true, decide_true]
      omega
    · have hne : (id == key) = false := by simpa using hkey
      have hlt := ih (by simpa [List.lookup_cons, hne] using hknown)
      have hkey' : (key = id) = False := by simpa using fun e => hkey e.symm
      simp only [hkey', false_or]
      omega

/-- Visit the ids of a queue in order and each of them once, appending to the queue what the links
    of an id lead to. -/
def walk (h : Hierarchy) (next : Links → List String) (seen : List String) :
    List String → List String
  | [] => []
  | id :: queue =>
    if id ∈ seen then walk h next seen queue
    else id :: walk h next (id :: seen) (queue ++ h.follow next id)
termination_by queue => (h.unseen seen, queue.length)
decreasing_by
  · exact Prod.Lex.right _ (by simp)
  · rename_i hseen
    by_cases hknown : h.lookup id = none
    · rcases Nat.lt_or_eq_of_le (unseen_cons_le h seen id) with hlt | heq
      · exact Prod.Lex.left _ _ hlt
      · rw [heq, follow, hknown]
        exact Prod.Lex.right _ (by simp)
    · exact Prod.Lex.left _ _ (unseen_cons_lt hseen hknown)

/-- The base type of a type, the base type of that, and so on to the end or the first repetition,
    nearest first. -/
def baseChain (h : Hierarchy) (id : String) : List String :=
  h.walk (·.base.toList) [id] (h.follow (·.base.toList) id)

/-- The ancestors of a type: its base chain, then its interfaces and those of its bases, then what
    is reached only through interfaces. -/
def ancestors (h : Hierarchy) (id : String) : List String :=
  let chain := h.baseChain id
  chain ++ h.walk (fun l => l.interfaces ++ l.base.toList) (id :: chain)
    ((id :: chain).flatMap (h.follow (·.interfaces)))

end Hierarchy

end InheritDoc
