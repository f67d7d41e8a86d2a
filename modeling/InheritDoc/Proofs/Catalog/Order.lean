import InheritDoc.Proofs.Catalog.Entries
import InheritDoc.Proofs.Element.RoundTrip
import Mathlib.Data.Prod.Lex
import Mathlib.Data.String.Basic

namespace InheritDoc

/-!
# Builds do not depend on the order of declarations

Declared types are sorted before anything else is done with them, and the order by which they are
sorted is total up to equality of declarations.

* `mergeSort_eq_of_perm`   : sorting by a key forgets the order of a list, if the key tells items
  apart;
* `DeclaredType.precedes_iff` : declared types are ordered by id, number of members and text;
* `DeclaredType.eq_of_sortKey_eq` : ties are between equal declarations, for a text belongs to one
  declaration only;
* `build_eq_of_perm`       : **declarations in any order give the same catalog.**
-/

section Sorting

variable {α β : Type} [LinearOrder β] {le : α → α → Bool} {key : α → β}
  (hle : ∀ a b, le a b = true ↔ key a ≤ key b)

include hle

/-- Items that are compared by keys are sorted by their keys. -/
theorem pairwise_mergeSort_key (as : List α) :
    (as.mergeSort le).Pairwise fun a b => key a ≤ key b := by
  refine (List.pairwise_mergeSort (fun a b c hab hbc => ?_) (fun a b => ?_) as).imp (hle _ _).mp
  · exact (hle a c).mpr (((hle a b).mp hab).trans ((hle b c).mp hbc))
  · rw [Bool.or_eq_true, hle, hle]
    exact le_total _ _

/-- Sorting forgets the order of a list, if items with the same key are equal. -/
theorem mergeSort_eq_of_perm {as bs : List α}
    (hkey : ∀ a ∈ as, ∀ b ∈ as, key a = key b → a = b) (h : as.Perm bs) :
    as.mergeSort le = bs.mergeSort le := by
  refine List.Perm.eq_of_pairwise ?_ (pairwise_mergeSort_key hle as) (pairwise_mergeSort_key hle bs)
    (((List.mergeSort_perm as le).trans h).trans (List.mergeSort_perm bs le).symm)
  intro a b ha hb hab hba
  exact hkey a (List.mem_mergeSort.mp ha) b (h.mem_iff.mpr (List.mem_mergeSort.mp hb))
    (le_antisymm hab hba)

end Sorting

namespace DeclaredType

/-- What declared types are ordered by: the id, the number of members from above, the text. -/
def sortKey (t : DeclaredType) : String ×ₗ ℕᵒᵈ ×ₗ String :=
  toLex (t.id, toLex (OrderDual.toDual t.declaration.members.length, t.text))

/-- Declarations are sorted by their keys. -/
theorem precedes_iff (a b : DeclaredType) : a.precedes b = true ↔ a.sortKey ≤ b.sortKey := by
  simp only [sortKey, Prod.Lex.toLex_le_toLex, OrderDual.toDual_lt_toDual]
  unfold precedes
  by_cases hid : a.id = b.id
  · by_cases hlength : a.declaration.members.length = b.declaration.members.length
    · simp [hid, hlength]
    · simp [hid, hlength]
  · simp [hid]

/-- Ties are between equal declarations. -/
theorem eq_of_sortKey_eq {d d' : Declaration} {a b : DeclaredType} (ha : of d = .ok a)
    (hb : of d' = .ok b) (hkey : a.sortKey = b.sortKey) : a = b := by
  obtain ⟨id, -, rfl⟩ := of_eq_ok.mp ha
  obtain ⟨id', -, rfl⟩ := of_eq_ok.mp hb
  simp only [sortKey, toLex_inj, Prod.mk.injEq] at hkey
  -- the text of a declaration determines it
  obtain ⟨rfl, -, htext⟩ := hkey
  obtain rfl := Declaration.text_injective htext
  rfl

end DeclaredType

/-- The kept types do not depend on the order of the declarations. -/
theorem keptTypes_eq_of_perm {ds ds' : List Declaration} (h : ds.Perm ds')
    {types : List DeclaredType} (htypes : keptTypes ds = .ok types) :
    keptTypes ds' = .ok types := by
  obtain ⟨all, hall, rfl⟩ := keptTypes_eq_ok.mp htypes
  obtain ⟨all', hall', hperm⟩ := mapM_ok_perm h hall
  refine keptTypes_eq_ok.mpr ⟨all', hall', ?_⟩
  rw [mergeSort_eq_of_perm DeclaredType.precedes_iff ?_ hperm]
  intro a ha b hb hkey
  obtain ⟨d, -, hd⟩ := exists_of_mem_mapM hall ha
  obtain ⟨d', -, hd'⟩ := exists_of_mem_mapM hall hb
  exact DeclaredType.eq_of_sortKey_eq hd hd' hkey

/-- A catalog is built in the same way from the declarations in any order. -/
theorem build_ok_of_perm {ds ds' : List Declaration} (h : ds.Perm ds') {c : Catalog}
    (hc : Catalog.build ds = .ok c) : Catalog.build ds' = .ok c := by
  obtain ⟨types, links, members, memberEntries, htypes, -⟩ := Catalog.build_eq_ok.mp hc
  rw [← Catalog.build_eq_of_keptTypes (htypes.trans (keptTypes_eq_of_perm h htypes).symm), hc]

/-- **Builds do not depend on the order of declarations.**  Declarations in any order either all fail
    to build or give the same catalog, whatever duplicates and cyclic links there are. -/
theorem build_eq_of_perm {ds ds' : List Declaration} (h : ds.Perm ds') :
    (∃ c, Catalog.build ds = .ok c ∧ Catalog.build ds' = .ok c) ∨
      ∃ e e', Catalog.build ds = .error e ∧ Catalog.build ds' = .error e' := by
  cases hbuild : Catalog.build ds with
  | ok c => exact .inl ⟨c, rfl, build_ok_of_perm h hbuild⟩
  | error e =>
    cases hbuild' : Catalog.build ds' with
    | ok c =>
      -- what builds in the other order builds in this one
      simp [build_ok_of_perm h.symm hbuild'] at hbuild
    | error e' => exact .inr ⟨e, e', rfl, rfl⟩

/-- A declaration of the same type without members. -/
def sampleDuplicate : Declaration :=
  { sampleCart with members := [] }

/-- Of two declarations of one type the same one is kept in either order. -/
theorem build_eq_of_perm_duplicates :
    [sampleCart, sampleDuplicate].Perm [sampleDuplicate, sampleCart] ∧
    ∃ c, Catalog.build [sampleCart, sampleDuplicate] = .ok c ∧
      Catalog.build [sampleDuplicate, sampleCart] = .ok c ∧ sampleEntry ∈ c.entries := by
  have hperm : [sampleCart, sampleDuplicate].Perm [sampleDuplicate, sampleCart] := .swap _ _ _
  have hduplicate : DeclaredType.of sampleDuplicate
      = .ok ⟨"Shop.Cart", sampleDuplicate.text, sampleDuplicate⟩ :=
    DeclaredType.of_eq_ok.mpr ⟨_, by decide +kernel, rfl⟩
  have htypes : keptTypes [sampleCart, sampleDuplicate]
      = .ok [⟨"Shop.Cart", sampleCart.text, sampleCart⟩] := by
    refine keptTypes_eq_ok.mpr
      ⟨_, mapM_eq_ok.mpr (.cons of_sampleCart (.cons hduplicate .nil)), ?_⟩
    rw [List.mergeSort_of_pairwise (by simp [DeclaredType.precedes, sampleDuplicate, sampleCart])]
    simp [firstPerKey]
  have hbuild := (Catalog.build_eq_of_keptTypes
    (htypes.trans keptTypes_sampleCart.symm)).trans build_sampleCart
  refine ⟨hperm, ?_⟩
  rcases build_eq_of_perm hperm with ⟨c, hc, hc'⟩ | ⟨e, e', he, -⟩
  · obtain rfl := Except.ok.inj (hbuild.symm.trans hc)
    exact ⟨_, hc, hc', by simp⟩
  · simp [hbuild] at he

end InheritDoc
