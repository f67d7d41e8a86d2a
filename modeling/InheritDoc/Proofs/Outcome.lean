import Mathlib.Data.List.Perm.Basic
import Mathlib.Data.List.Forall2

namespace InheritDoc

/-!
# Computations that may fail

* `exists_left_of_mem`, `forall₂_of_map_eq` : lists that agree item by item;
* `bind_eq_ok`, `bind_eq_error` : a sequence of two computations succeeds if both do;
* `mapM_eq_ok`   : a computation over a list succeeds if it does at every item;
* `mapM_ok_of_forall₂` : it does so over lists that agree, if it does at items that agree;
* `mapM_ok_perm` : whether it does, and with which results, is no matter of the order of the list;
* `Fails`, `fails_bind`, `fails_mapM` : where a sequence of computations, or one over a list, fails.
-/

variable {ε α β γ : Type}

/-! ### Lists that agree item by item -/

/-- Every item on the right has one on the left. -/
theorem exists_left_of_mem {R : α → β → Prop} {as : List α} {bs : List β}
    (h : List.Forall₂ R as bs) {b : β} (hb : b ∈ bs) : ∃ a ∈ as, R a b := by
  induction h with
  | nil => exact absurd hb List.not_mem_nil
  | cons hhead _ ih =>
    rcases List.mem_cons.mp hb with rfl | hb
    · exact ⟨_, List.mem_cons_self, hhead⟩
    · obtain ⟨a, ha, hab⟩ := ih hb
      exact ⟨a, List.mem_cons_of_mem _ ha, hab⟩

/-- Every item on the left has one on the right. -/
theorem exists_right_of_mem {R : α → β → Prop} {as : List α} {bs : List β}
    (h : List.Forall₂ R as bs) {a : α} (ha : a ∈ as) : ∃ b ∈ bs, R a b :=
  exists_left_of_mem (R := flip R) h.flip ha

/-- Items with the same keys in the same order agree, if items with the same key do. -/
theorem forall₂_of_map_eq {R : α → β → Prop} {key : α → γ} {key' : β → γ} {as : List α} {bs : List β}
    (hkeys : as.map key = bs.map key') (h : ∀ a ∈ as, ∀ b ∈ bs, key a = key' b → R a b) :
    List.Forall₂ R as bs := by
  induction as generalizing bs with
  | nil => simp_all
  | cons a as ih =>
    cases bs with
    | nil => simp at hkeys
    | cons b bs =>
      rw [List.map_cons, List.map_cons, List.cons.injEq] at hkeys
      refine .cons (h a List.mem_cons_self b List.mem_cons_self hkeys.1) (ih hkeys.2 ?_)
      exact fun a' ha' b' hb' => h a' (List.mem_cons_of_mem a ha') b' (List.mem_cons_of_mem b hb')

/-! ### Sequences of computations -/

/-- Two computations that succeed with the same results either both succeed or both fail. -/
theorem ok_or_error_of_ok_iff {x y : Except ε α} (h : ∀ a, x = .ok a ↔ y = .ok a) :
    (∃ a, x = .ok a ∧ y = .ok a) ∨ ∃ e e', x = .error e ∧ y = .error e' := by
  cases hx : x with
  | ok a => exact .inl ⟨a, rfl, (h a).mp hx⟩
  | error e =>
    cases hy : y with
    | ok a => simp [(h a).mpr hy] at hx
    | error e' => exact .inr ⟨e, e', rfl, rfl⟩

/-- Two computations in a row succeed exactly if both do. -/
theorem bind_eq_ok {x : Except ε α} {f : α → Except ε β} {b : β} :
    (x >>= f) = .ok b ↔ ∃ a, x = .ok a ∧ f a = .ok b := by
  cases x <;> simp [bind, Except.bind]

/-- A computation followed by a function succeeds exactly if the computation does. -/
theorem bind_pure_eq_ok {x : Except ε α} {f : α → β} {b : β} :
    (x >>= fun a => pure (f a)) = .ok b ↔ ∃ a, x = .ok a ∧ b = f a := by
  cases x <;> simp [bind, Except.bind, pure, Except.pure, eq_comm]

/-- The error of two computations in a row is that of the first, or of the second after the first. -/
theorem bind_eq_error {x : Except ε α} {f : α → Except ε β} {e : ε} :
    (x >>= f) = .error e ↔ x = .error e ∨ ∃ a, x = .ok a ∧ f a = .error e := by
  cases x <;> simp [bind, Except.bind]

/-- A function after a computation adds no error. -/
theorem bind_pure_eq_error {x : Except ε α} {f : α → β} {e : ε} :
    (x >>= fun a => pure (f a)) = .error e ↔ x = .error e := by
  cases x <;> simp [bind, Except.bind, pure, Except.pure]

/-- A computation over a list succeeds exactly if it does at every item. -/
theorem mapM_eq_ok {f : α → Except ε β} {as : List α} {bs : List β} :
    as.mapM f = .ok bs ↔ List.Forall₂ (fun a b => f a = .ok b) as bs := by
  induction as generalizing bs with
  | nil => simp [pure, Except.pure, eq_comm]
  | cons a as ih =>
    rw [List.mapM_cons, bind_eq_ok]
    simp only [bind_eq_ok, pure, Except.pure, Except.ok.injEq, ih, List.forall₂_cons_left_iff]
    constructor
    · rintro ⟨b, hb, bs', hbs', rfl⟩
      exact ⟨b, bs', hb, hbs', rfl⟩
    · rintro ⟨b, bs', hb, hbs', rfl⟩
      exact ⟨b, hb, bs', hbs', rfl⟩

/-- Each result of a computation over a list comes from an item. -/
theorem exists_of_mem_mapM {f : α → Except ε β} {as : List α} {bs : List β}
    (h : as.mapM f = .ok bs) {b : β} (hb : b ∈ bs) : ∃ a ∈ as, f a = .ok b :=
  exists_left_of_mem (mapM_eq_ok.mp h) hb

/-- A computation over a list that succeeds has a result for each item. -/
theorem exists_result_of_mem_mapM {f : α → Except ε β} {as : List α} {bs : List β}
    (h : as.mapM f = .ok bs) {a : α} (ha : a ∈ as) : ∃ b ∈ bs, f a = .ok b :=
  exists_right_of_mem (mapM_eq_ok.mp h) ha

/-- A function of the results of a computation over a list is a function of the items, if it is so
    at every item. -/
theorem map_eq_map_of_mapM {f : α → Except ε β} {as : List α} {bs : List β}
    (h : as.mapM f = .ok bs) {g : β → γ} {k : α → γ}
    (hgk : ∀ a ∈ as, ∀ b, f a = .ok b → g b = k a) : bs.map g = as.map k := by
  rw [mapM_eq_ok] at h
  induction h with
  | nil => rfl
  | cons hhead _ ih =>
    rw [List.forall_mem_cons] at hgk
    rw [List.map_cons, List.map_cons, hgk.1 _ hhead, ih hgk.2]

/-- A computation over a list succeeds if it does at every item. -/
theorem exists_mapM_eq_ok {f : α → Except ε β} {as : List α} (h : ∀ a ∈ as, ∃ b, f a = .ok b) :
    ∃ bs, as.mapM f = .ok bs := by
  induction as with
  | nil => exact ⟨[], rfl⟩
  | cons a as ih =>
    rw [List.forall_mem_cons] at h
    obtain ⟨b, hb⟩ := h.1
    obtain ⟨bs, hbs⟩ := ih h.2
    exact ⟨b :: bs, mapM_eq_ok.mpr (.cons hb (mapM_eq_ok.mp hbs))⟩

/-- A computation over a list succeeds with the results of another one, if it does so at the items
    that agree. -/
theorem mapM_ok_of_forall₂ {R : α → β → Prop} {f : α → Except ε γ} {g : β → Except ε γ}
    {as : List α} {bs : List β} (h : List.Forall₂ R as bs)
    (hfg : ∀ a ∈ as, ∀ b, R a b → ∀ c, f a = .ok c → g b = .ok c) {cs : List γ}
    (hcs : as.mapM f = .ok cs) : bs.mapM g = .ok cs := by
  rw [mapM_eq_ok] at hcs ⊢
  induction h generalizing cs with
  | nil =>
    rw [List.forall₂_nil_left_iff] at hcs ⊢
    exact hcs
  | cons hhead _ ih =>
    obtain ⟨c, cs, hc, hrest, rfl⟩ := List.forall₂_cons_left_iff.mp hcs
    rw [List.forall_mem_cons] at hfg
    exact .cons (hfg.1 _ hhead _ hc) (ih hfg.2 hrest)

/-- A computation over a list that succeeds in one order of the list succeeds in any other, with the
    results in another order. -/
theorem mapM_ok_perm {f : α → Except ε β} {as as' : List α} (h : as.Perm as') {bs : List β}
    (hbs : as.mapM f = .ok bs) : ∃ bs', as'.mapM f = .ok bs' ∧ bs.Perm bs' := by
  rw [mapM_eq_ok] at hbs
  -- reordering the items first and computing then is computing first and reordering the results
  -- then
  have hcomp : Relation.Comp List.Perm (List.Forall₂ fun a b => f a = .ok b) as' bs :=
    ⟨as, h.symm, hbs⟩
  rw [← List.forall₂_comp_perm_eq_perm_comp_forall₂] at hcomp
  obtain ⟨bs', hbs', hperm⟩ := hcomp
  exact ⟨bs', mapM_eq_ok.mpr hbs', hperm.symm⟩

/-! ### Failure -/

/-- The computation does not succeed. -/
def Fails (x : Except ε α) : Prop :=
  ∃ e, x = .error e

/-- What does not fail succeeds. -/
theorem not_fails {x : Except ε α} : ¬ Fails x ↔ ∃ a, x = .ok a := by
  cases x <;> simp [Fails]

/-- Of two computations in a row either the first fails, or the second does after the first. -/
theorem fails_bind {x : Except ε α} {f : α → Except ε β} :
    Fails (x >>= f) ↔ Fails x ∨ ∃ a, x = .ok a ∧ Fails (f a) := by
  cases x <;> simp [Fails, bind, Except.bind]

/-- A value alone does not fail. -/
theorem not_fails_pure (a : α) : ¬ Fails (pure a : Except ε α) :=
  not_fails.mpr ⟨a, rfl⟩

/-- A function after a computation does not fail. -/
theorem fails_bind_pure {x : Except ε α} {f : α → β} :
    Fails (x >>= fun a => pure (f a)) ↔ Fails x := by
  simp only [fails_bind, not_fails_pure, and_false, exists_false, or_false]

/-- A computation over a list fails exactly if it does at some item. -/
theorem fails_mapM {f : α → Except ε β} {as : List α} :
    Fails (as.mapM f) ↔ ∃ a ∈ as, Fails (f a) := by
  constructor
  · -- if it failed nowhere, then every item would have a result, and so would the list
    intro h
    by_contra hnone
    push Not at hnone
    exact absurd h (not_fails.mpr (exists_mapM_eq_ok fun a ha => not_fails.mp (hnone a ha)))
  · rintro ⟨a, ha, hfails⟩
    by_contra h
    obtain ⟨bs, hbs⟩ := not_fails.mp h
    obtain ⟨b, -, hb⟩ := exists_result_of_mem_mapM hbs ha
    exact absurd hfails (not_fails.mpr ⟨b, hb⟩)

end InheritDoc
