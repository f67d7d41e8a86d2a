import InheritDoc.Json.Record
import InheritDoc.Proofs.Json.RoundTrip

namespace InheritDoc.Json

/-!
# Fields of records

What a record reader finds in the fields that a record writer has put together.

* `lookup?_append`, `lookup?_optionalField`, `lookup?_listField` : what is found under a name;
* `optional_map`, `uint32?_nat`, `withDefault_listWithin?` : the shapes of fields are read back;
* `exists_of_depth_obj_le` : the nesting of an object is that of its fields and one more.
-/

variable {α : Type} {name : String}

/-! ### What is found under a name -/

/-- What two groups of fields have together under one name. -/
def found : Option (Option Json) → Option (Option Json) → Option (Option Json)
  | some none, b => b
  | a, some none => a
  | _, _ => none

@[simp] theorem found_none_left (b : Option (Option Json)) : found (some none) b = b := rfl

@[simp] theorem found_none_right (a : Option (Option Json)) : found a (some none) = a := by
  rcases a with _ | _ | _ <;> rfl

/-- A name is looked up in each group of fields by itself. -/
theorem lookup?_append (fs gs : List (String × Json)) (name : String) :
    lookup? (fs ++ gs) name = found (lookup? fs name) (lookup? gs name) := by
  rw [lookup?, lookup?, lookup?, List.filter_append]
  -- the answer depends only on whether no field, one or more than one has the name
  generalize fs.filter (·.1 = name) = as
  generalize gs.filter (·.1 = name) = bs
  rcases as with _ | ⟨a, _ | ⟨a', as⟩⟩ <;> rcases bs with _ | ⟨b, _ | ⟨b', bs⟩⟩ <;> rfl

@[simp] theorem lookup?_nil (name : String) : lookup? [] name = some none := rfl

/-- A single field is found under its own name. -/
theorem lookup?_singleton (key : String) (value : Json) (name : String) :
    lookup? [(key, value)] name = some (if key = name then some value else none) := by
  by_cases h : key = name <;> simp [lookup?, h]

/-- Unfolding lemma: the first field is a group of its own. -/
theorem lookup?_cons (key : String) (value : Json) (fs : List (String × Json)) (name : String) :
    lookup? ((key, value) :: fs) name
      = found (some (if key = name then some value else none)) (lookup? fs name) := by
  rw [← List.singleton_append, lookup?_append, lookup?_singleton]

/-- A field that may be left out is found if it is there. -/
theorem lookup?_optionalField (key : String) (form : α → Json) (o : Option α) (name : String) :
    lookup? (optionalField key form o) name = some (if key = name then o.map form else none) := by
  cases o with
  | none => simp [optionalField]
  | some a => simp [optionalField, lookup?_singleton]

/-- A list is found if it has an item. -/
theorem lookup?_listField (key : String) (items : List Json) (name : String) :
    lookup? (listField key items) name
      = some (if key = name then if items = [] then none else some (.arr items) else none) := by
  cases items with
  | nil => simp [listField]
  | cons item items => simp [listField, lookup?_singleton]

/-! ### Shapes of fields -/

@[simp] theorem required_some (shape? : Json → Option α) (value : Json) :
    required shape? (some value) = shape? value := rfl

@[simp] theorem withDefault_some (default : α) (shape? : Json → Option α) (value : Json) :
    withDefault default shape? (some value) = shape? value := rfl

@[simp] theorem string?_str (s : String) : string? (.str s) = some s := rfl

@[simp] theorem bool?_bool (b : Bool) : bool? (.bool b) = some b := rfl

/-- A number of 32 bits is read back. -/
@[simp] theorem uint32?_nat (n : UInt32) : uint32? (.nat n.toNat) = some n := by
  have hsize := n.toNat_lt
  simp [uint32?, nat, UInt32.size]
  omega

/-- A field that may be left out is read back. -/
theorem optional_map {form : α → Json} {shape? : Json → Option α} {o : Option α}
    (hnull : ∀ a, form a ≠ .null) (h : ∀ a, o = some a → shape? (form a) = some a) :
    optional shape? (o.map form) = some o := by
  cases o with
  | none => rfl
  | some a =>
    have hform := h a rfl
    have hne := hnull a
    rw [Option.map_some]
    unfold optional
    split <;> simp_all

/-! ### Objects by their fields -/

/-- What holds of a field that may be left out holds of its value, if there is one. -/
theorem forall_mem_optionalField {P : String × Json → Prop} {form : α → Json} {o : Option α} :
    (∀ field ∈ optionalField name form o, P field) ↔ ∀ a, o = some a → P (name, form a) := by
  cases o <;> simp [optionalField]

/-- What holds of a field that holds a list holds of the list, if it is written. -/
theorem forall_mem_listField {P : String × Json → Prop} {items : List Json} :
    (∀ field ∈ listField name items, P field) ↔ (items ≠ [] → P (name, .arr items)) := by
  cases items <;> simp [listField]

/-- Items are nested as deeply as the deepest of them. -/
theorem depthOfItems_le_iff {items : List Json} {n : Nat} :
    depthOfItems items ≤ n ↔ ∀ item ∈ items, item.depth ≤ n := by
  induction items with
  | nil => simp [depthOfItems]
  | cons item items ih => rw [depthOfItems, Nat.max_le, ih, List.forall_mem_cons]

/-- Fields are nested as deeply as the deepest of their values. -/
theorem depthOfFields_le_iff {fields : List (String × Json)} {n : Nat} :
    depthOfFields fields ≤ n ↔ ∀ field ∈ fields, field.2.depth ≤ n := by
  induction fields with
  | nil => simp [depthOfFields]
  | cons field fields ih => rw [depthOfFields, Nat.max_le, ih, List.forall_mem_cons]

/-- A counter that is enough for an array can be counted down for its items. -/
theorem exists_of_depth_arr_le {items : List Json} {n : Nat} (h : (arr items).depth ≤ n) :
    ∃ m, n = m + 1 ∧ ∀ item ∈ items, item.depth ≤ m := by
  rw [depth] at h
  exact ⟨n - 1, by omega, depthOfItems_le_iff.mp (by omega)⟩

/-- A counter that is enough for an object can be counted down for its fields. -/
theorem exists_of_depth_obj_le {fields : List (String × Json)} {n : Nat}
    (h : (obj fields).depth ≤ n) : ∃ m, n = m + 1 ∧ ∀ field ∈ fields, field.2.depth ≤ m := by
  rw [depth] at h
  exact ⟨n - 1, by omega, depthOfFields_le_iff.mp (by omega)⟩

/-! ### Lists -/

section Lists

variable {form : α → Json} {item? : Nat → Json → Option α} {items : List α} {n : Nat}
  (h : ∀ a ∈ items, ∀ m, (form a).depth ≤ m → item? m (form a) = some a)

include h

/-- A list is read back if its items are. -/
theorem listWithin?_map (hn : (arr (items.map form)).depth ≤ n) :
    listWithin? item? n (.arr (items.map form)) = some items := by
  obtain ⟨m, rfl, hdepth⟩ := exists_of_depth_arr_le hn
  rw [listWithin?]
  exact mapM_map_eq_some fun a ha => h a ha m (hdepth _ (List.mem_map_of_mem ha))

/-- A list that is left out when it is empty is read back. -/
theorem withDefault_listWithin? (hn : items.map form ≠ [] → (arr (items.map form)).depth ≤ n) :
    withDefault [] (listWithin? item? n)
      (if items = [] then none else some (.arr (items.map form))) = some items := by
  by_cases hne : items = []
  · subst hne
    rfl
  · rw [if_neg hne]
    exact listWithin?_map h (hn (by simpa using hne))

end Lists

/-! ### Exactness -/

/-- A number of 32 bits is written exactly. -/
theorem exact_nat (n : UInt32) : Exact (.nat n.toNat) := by
  refine .int ?_
  have hsize := n.toNat_lt
  simp only [Int.natAbs_natCast, UInt64.size]
  omega

end InheritDoc.Json
