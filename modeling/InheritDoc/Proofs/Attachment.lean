import InheritDoc.Proofs.Catalog.Listing
import InheritDoc.Proofs.Inheritance.Calls
import Mathlib.Data.Finset.Dedup
import Mathlib.Data.Set.Card

namespace InheritDoc

open Markup (Node DocEntry)

/-!
# What becomes of documentation entries

Entries are attached one after the other, and each is counted in the report.  Here the documentation
and the report are said of the list of entries as a whole.

* `Catalog.fate`            : what becomes of one entry, whatever came before it;
* `Attachment.add_cases`    : all that one more entry can do, and what it does to each part;
* `Attachment.Accounts`     : an attachment is what some entries make of a catalog;
* `Attachment.Accounts.add` : one more entry keeps this so;
* `attach_account`          : **the last entry for an element counts, and every entry is reported**;
  hence the order of entries for different elements does not matter.
-/

/-! ### One entry -/

/-- What becomes of an entry: its id cannot be read, or leads to no element, or to one. -/
inductive Fate where
  | malformed
  | unmatched
  | matched (id : String)
  deriving DecidableEq, Repr

/-- The entry is attached to some element. -/
def Fate.isMatched : Fate → Bool
  | .matched _ => true
  | _ => false

/-- What becomes of an entry under an id in a catalog. -/
def Catalog.fate (c : Catalog) (rawId : String) : Fate :=
  match DocId.parse rawId with
  | .error _ => .malformed
  | .ok docId =>
    match c.find? docId.target with
    | none => .unmatched
    | some id => .matched id

/-- The entries that are attached to an element. -/
def Catalog.entriesFor (c : Catalog) (entries : List DocEntry) (id : String) : List DocEntry :=
  entries.filter (c.fate ·.rawId = .matched id)

/-- Every entry has one fate. -/
theorem Catalog.countP_fate (c : Catalog) (entries : List DocEntry) :
    entries.countP (c.fate ·.rawId = .malformed) + entries.countP (c.fate ·.rawId = .unmatched) +
      entries.countP (c.fate ·.rawId |>.isMatched) = entries.length := by
  induction entries with
  | nil => rfl
  | cons entry entries ih =>
    rw [List.countP_cons, List.countP_cons, List.countP_cons, List.length_cons, ← ih]
    cases c.fate entry.rawId <;> simp [Fate.isMatched] <;> omega

/-- One more entry that is matched to an element comes last among those of the element. -/
theorem Catalog.entriesFor_concat {c : Catalog} {entries : List DocEntry} {entry : DocEntry}
    {id : String} (h : c.fate entry.rawId = .matched id) :
    c.entriesFor (entries ++ [entry]) id = c.entriesFor entries id ++ [entry] := by
  simp [entriesFor, h]

/-- One more entry that is not matched to an element changes nothing for it. -/
theorem Catalog.entriesFor_concat_of_ne {c : Catalog} {entries : List DocEntry} {entry : DocEntry}
    {id : String} (h : c.fate entry.rawId ≠ .matched id) :
    c.entriesFor (entries ++ [entry]) id = c.entriesFor entries id := by
  simp [entriesFor, h]

/-- What an id leads to is an element of the catalog. -/
theorem Catalog.mem_ids_of_find? {ds : List Declaration} {c : Catalog} (hc : build ds = .ok c)
    {target : Target} {id : String} (h : c.find? target = some id) : id ∈ c.ids := by
  unfold find? at h
  split at h
  · -- a type is found by its id
    obtain ⟨e, he, rfl⟩ := Option.map_eq_some_iff.mp h
    obtain ⟨hlookup, -⟩ := Option.filter_eq_some_iff.mp he
    exact mem_ids_iff.mpr ⟨e, by rw [id_of_lookup hlookup, hlookup]⟩
  · -- a member is found in its type, or in none
    split at h
    · rename_i hmember
      cases h
      obtain ⟨e, he, -⟩ := (hasMember_iff hc).mp hmember.2
      exact mem_ids_iff.mpr ⟨e, he⟩
    · cases h

/-- Entries are matched to elements of the catalog. -/
theorem Catalog.mem_ids_of_fate {ds : List Declaration} {c : Catalog} (hc : build ds = .ok c)
    {rawId id : String} (h : c.fate rawId = .matched id) : id ∈ c.ids := by
  unfold fate at h
  split at h
  · cases h
  · split at h
    · cases h
    · rename_i hfind
      cases h
      exact mem_ids_of_find? hc hfind

/-! ### One entry more -/

namespace Attachment

/-- All that attaching one entry can do. -/
theorem add_cases (a : Attachment) (entry : DocEntry) :
    (a.catalog.fate entry.rawId = .malformed ∧
      a.add entry = { a with report.malformed := a.report.malformed + 1 }) ∨
    (a.catalog.fate entry.rawId = .unmatched ∧
      a.add entry = { a with report.unmatched := a.report.unmatched + 1 }) ∨
    ∃ id, a.catalog.fate entry.rawId = .matched id ∧
      a.add entry = { a.put id entry.tree with
        report.matched := a.report.matched + 1
        report.overwritten := a.report.overwritten + if (a.rawDoc id).isSome then 1 else 0 } := by
  unfold add Catalog.fate
  cases DocId.parse entry.rawId with
  | error e => exact .inl ⟨rfl, rfl⟩
  | ok docId =>
    dsimp only
    cases a.catalog.find? docId.target with
    | none => exact .inr (.inl ⟨rfl, rfl⟩)
    | some id => exact .inr (.inr ⟨id, rfl, rfl⟩)

@[simp]
theorem report_put (a : Attachment) (id : String) (tree : List Node) :
    (a.put id tree).report = a.report := rfl

/-- The documented ids after one of them was given its documentation. -/
theorem map_fst_put (a : Attachment) (id : String) (tree : List Node) :
    (a.put id tree).docs.map Prod.fst = id :: (a.docs.map Prod.fst).filter (· ≠ id) := by
  rw [put, List.map_cons, List.filter_map]
  rfl

/-- The element is documented by the tree. -/
theorem rawDoc_put_self (a : Attachment) (id : String) (tree : List Node) :
    (a.put id tree).rawDoc id = some tree := by
  simp [rawDoc, put]

/-- No other element is touched. -/
theorem rawDoc_put_of_ne (a : Attachment) {id other : String} (h : other ≠ id) (tree : List Node) :
    (a.put id tree).rawDoc other = a.rawDoc other := by
  have hother : (other == id) = false := by simpa using h
  rw [rawDoc, rawDoc, put, List.lookup_cons, hother]
  dsimp only
  induction a.docs with
  | nil => rfl
  | cons doc docs ih =>
    by_cases hdoc : doc.1 = id
    · -- the old documentation of `id` is passed over on both sides
      have hne : (other == doc.1) = false := by simpa [hdoc] using h
      rw [List.filter_cons_of_neg (by simpa using hdoc), ih, List.lookup_cons, hne]
    · rw [List.filter_cons_of_pos (by simpa using hdoc), List.lookup_cons, List.lookup_cons, ih]

/-- Documentation that replaces none is one more; else their number stays. -/
theorem length_put {a : Attachment} (h : (a.docs.map Prod.fst).Nodup) (id : String)
    (tree : List Node) :
    (a.put id tree).docs.length + (if (a.rawDoc id).isSome then 1 else 0) = a.docs.length + 1 := by
  -- ids are not listed twice, so taking one out is erasing it once
  have hkeys : (a.put id tree).docs.length = ((a.docs.map Prod.fst).erase id).length + 1 := by
    rw [← List.length_map Prod.fst, map_fst_put, List.length_cons, h.erase_eq_filter]
    congr! with other
    simp [bne, beq_eq_decide]
  by_cases hid : id ∈ a.docs.map Prod.fst
  · have hsome : (a.rawDoc id).isSome := by
      rw [Option.isSome_iff_ne_none]
      exact fun hnone => lookup_eq_none_iff_notMem.mp hnone hid
    have hpos := List.length_pos_of_mem hid
    rw [hkeys, List.length_erase_of_mem hid, if_pos hsome]
    rw [List.length_map] at hpos ⊢
    omega
  · have hnone : a.rawDoc id = none := lookup_eq_none_iff_notMem.mpr hid
    rw [hkeys, List.erase_of_not_mem hid, List.length_map, hnone]
    rfl

@[simp]
theorem catalog_add (a : Attachment) (entry : DocEntry) : (a.add entry).catalog = a.catalog := by
  obtain ⟨-, hadd⟩ | ⟨-, hadd⟩ | ⟨id, -, hadd⟩ := a.add_cases entry <;> rw [hadd]
  rfl

/-- An entry replaces the documentation of the element that it leads to, and no other. -/
theorem rawDoc_add (a : Attachment) (entry : DocEntry) (id : String) :
    (a.add entry).rawDoc id
      = if a.catalog.fate entry.rawId = .matched id then some entry.tree else a.rawDoc id := by
  obtain ⟨hfate, hadd⟩ | ⟨hfate, hadd⟩ | ⟨target, hfate, hadd⟩ := a.add_cases entry <;>
    rw [hadd, hfate]
  · rfl
  · rfl
  · show (a.put target entry.tree).rawDoc id = _
    by_cases hid : id = target
    · rw [hid, rawDoc_put_self, if_pos rfl]
    · rw [rawDoc_put_of_ne a hid, if_neg (by simpa using Ne.symm hid)]

/-- An entry is counted once, by its fate. -/
theorem report_add (a : Attachment) (entry : DocEntry) :
    (a.add entry).report.malformed
      = a.report.malformed + (if a.catalog.fate entry.rawId = .malformed then 1 else 0) ∧
    (a.add entry).report.unmatched
      = a.report.unmatched + (if a.catalog.fate entry.rawId = .unmatched then 1 else 0) ∧
    (a.add entry).report.matched
      = a.report.matched + (if (a.catalog.fate entry.rawId).isMatched then 1 else 0) := by
  obtain ⟨hfate, hadd⟩ | ⟨hfate, hadd⟩ | ⟨id, hfate, hadd⟩ := a.add_cases entry <;>
    simp [hadd, hfate, Fate.isMatched]

/-- One documentation is kept for each documented id. -/
theorem nodup_add {a : Attachment} (h : (a.docs.map Prod.fst).Nodup) (entry : DocEntry) :
    ((a.add entry).docs.map Prod.fst).Nodup := by
  obtain ⟨-, hadd⟩ | ⟨-, hadd⟩ | ⟨id, -, hadd⟩ := a.add_cases entry <;> rw [hadd]
  · exact h
  · exact h
  · show ((a.put id entry.tree).docs.map Prod.fst).Nodup
    rw [map_fst_put]
    exact List.nodup_cons.mpr ⟨by simp, h.filter _⟩

/-- A matched entry either overwrites or adds documentation. -/
theorem overwritten_add {a : Attachment} (h : (a.docs.map Prod.fst).Nodup)
    (hmatched : a.report.overwritten + a.docs.length = a.report.matched) (entry : DocEntry) :
    (a.add entry).report.overwritten + (a.add entry).docs.length
      = (a.add entry).report.matched := by
  obtain ⟨-, hadd⟩ | ⟨-, hadd⟩ | ⟨id, -, hadd⟩ := a.add_cases entry <;> rw [hadd]
  · exact hmatched
  · exact hmatched
  · have hlength := length_put h id entry.tree
    show a.report.overwritten + _ + (a.put id entry.tree).docs.length = a.report.matched + 1
    omega

/-- The attachment is what the entries make of the catalog. -/
structure Accounts (c : Catalog) (entries : List DocEntry) (a : Attachment) : Prop where
  catalog : a.catalog = c
  nodup : (a.docs.map Prod.fst).Nodup
  rawDoc : ∀ id, a.rawDoc id = (c.entriesFor entries id).getLast?.map (·.tree)
  malformed : a.report.malformed = entries.countP (c.fate ·.rawId = .malformed)
  unmatched : a.report.unmatched = entries.countP (c.fate ·.rawId = .unmatched)
  matched : a.report.matched = entries.countP (c.fate ·.rawId |>.isMatched)
  overwritten : a.report.overwritten + a.docs.length = a.report.matched

namespace Accounts

variable {c : Catalog} {entries entries' : List DocEntry} {a a' : Attachment}

/-- One more entry is accounted for. -/
theorem add (h : a.Accounts c entries) (entry : DocEntry) :
    (a.add entry).Accounts c (entries ++ [entry]) := by
  have hreport := a.report_add entry
  rw [h.catalog, h.malformed, h.unmatched, h.matched] at hreport
  obtain ⟨hmalformed, hunmatched, hmatched⟩ := hreport
  refine ⟨by rw [catalog_add, h.catalog], nodup_add h.nodup entry, fun id => ?_, ?_, ?_, ?_,
    overwritten_add h.nodup h.overwritten entry⟩
  · rw [rawDoc_add, h.catalog]
    split
    · -- the last entry of an element is the new one, if it is for this element
      rename_i hfate
      rw [Catalog.entriesFor_concat hfate, List.getLast?_concat, Option.map_some]
    · rename_i hfate
      rw [Catalog.entriesFor_concat_of_ne hfate, h.rawDoc]
  · simp [hmalformed, List.countP_singleton]
  · simp [hunmatched, List.countP_singleton]
  · simp [hmatched, List.countP_singleton]

/-- As many documentations are kept as there are documented ids. -/
theorem ncard (h : a.Accounts c entries) : {id | a.rawDoc id ≠ none}.ncard = a.docs.length := by
  have hset : {id | a.rawDoc id ≠ none} = ((a.docs.map Prod.fst).toFinset : Set String) := by
    ext id
    rw [List.coe_toFinset]
    exact lookup_eq_none_iff_notMem.not_left
  rw [hset, Set.ncard_coe_finset, List.toFinset_card_of_nodup h.nodup, List.length_map]

/-- Reordered entries are reported alike if they leave every id with the same documentation. -/
theorem report_eq (h : a.Accounts c entries) (h' : a'.Accounts c entries')
    (hperm : entries'.Perm entries) (hdocs : ∀ id, a'.rawDoc id = a.rawDoc id) :
    a'.report = a.report := by
  have hmatched : a'.report.matched = a.report.matched := by
    rw [h.matched, h'.matched, hperm.countP_eq]
  have hunmatched : a'.report.unmatched = a.report.unmatched := by
    rw [h.unmatched, h'.unmatched, hperm.countP_eq]
  have hmalformed : a'.report.malformed = a.report.malformed := by
    rw [h.malformed, h'.malformed, hperm.countP_eq]
  -- the same elements are documented, so the entries that were written over are as many
  have hlength : a'.docs.length = a.docs.length := by
    rw [← h.ncard, ← h'.ncard]
    simp only [hdocs]
  have hoverwritten : a'.report.overwritten = a.report.overwritten := by
    have hsum := h.overwritten
    have hsum' := h'.overwritten
    omega
  show AttachReport.mk a'.report.matched a'.report.unmatched a'.report.malformed
    a'.report.overwritten = a.report
  rw [hmatched, hunmatched, hmalformed, hoverwritten]

end Accounts

end Attachment

/-! ### All entries -/

/-- What attaching makes of a catalog accounts for every entry. -/
theorem Catalog.attach_accounts (c : Catalog) (entries : List DocEntry) :
    (c.attach entries).Accounts c entries := by
  -- entries are taken up from the front, so that the run is extended at its end
  induction entries using List.reverseRecOn with
  | nil => exact ⟨rfl, .nil, fun id => rfl, rfl, rfl, rfl, rfl⟩
  | append_singleton entries entry ih =>
    have hattach : c.attach (entries ++ [entry]) = (c.attach entries).add entry := by
      rw [attach, List.foldl_append]
      rfl
    rw [hattach]
    exact ih.add entry

/-- **The last entry for an element counts, and every entry is reported.**  The documentation of an id
    is that of the last entry that leads to it.  Only elements of the catalog have documentation.
    Each entry is counted as malformed, unmatched or matched, and the matched entries that were
    not the first for their element are counted as overwritten.  Hence only the order among the
    entries for one element matters. -/
theorem attach_account {ds : List Declaration} {c : Catalog} (hc : Catalog.build ds = .ok c)
    (entries : List DocEntry) :
    (∀ id, (c.attach entries).rawDoc id
      = (c.entriesFor entries id).getLast?.map (·.tree)) ∧
    (∀ id, (c.attach entries).rawDoc id ≠ none → id ∈ c.ids) ∧
    (c.attach entries).report.malformed = entries.countP (c.fate ·.rawId = .malformed) ∧
    (c.attach entries).report.unmatched = entries.countP (c.fate ·.rawId = .unmatched) ∧
    (c.attach entries).report.matched = entries.countP (c.fate ·.rawId |>.isMatched) ∧
    (c.attach entries).report.malformed + (c.attach entries).report.unmatched +
      (c.attach entries).report.matched = entries.length ∧
    (c.attach entries).report.overwritten + {id | (c.attach entries).rawDoc id ≠ none}.ncard
      = (c.attach entries).report.matched ∧
    ∀ entries' : List DocEntry, entries'.Perm entries →
      (∀ id, c.entriesFor entries' id = c.entriesFor entries id) →
      (∀ id, (c.attach entries').rawDoc id = (c.attach entries).rawDoc id) ∧
        (c.attach entries').report = (c.attach entries).report := by
  have h := c.attach_accounts entries
  refine ⟨h.rawDoc, fun id hid => ?_, h.malformed, h.unmatched, h.matched, ?_, ?_, ?_⟩
  · rw [h.rawDoc, ne_eq, Option.map_eq_none_iff, List.getLast?_eq_none_iff] at hid
    obtain ⟨entry, hentry⟩ := List.exists_mem_of_ne_nil _ hid
    exact Catalog.mem_ids_of_fate hc (by simpa using (List.mem_filter.mp hentry).2)
  · rw [h.malformed, h.unmatched, h.matched]
    exact c.countP_fate entries
  · rw [h.ncard]
    exact h.overwritten
  · intro entries' hperm hfor
    have h' := c.attach_accounts entries'
    have hdocs : ∀ id, (c.attach entries').rawDoc id = (c.attach entries).rawDoc id := by
      intro id
      rw [h.rawDoc, h'.rawDoc, hfor]
    exact ⟨hdocs, h.report_eq h' hperm hdocs⟩

/-- A catalog of a type and a method that it inherits. -/
def sampleCartCatalog : Catalog where
  entries := [⟨"Shop.Cart", .classDecl "Shop" "Cart", none, none, []⟩, sampleEntry]
  hierarchy := [("Shop.Cart", {})]
  listing := [("Shop.Cart", "Shop.Cart.Add(System.Int32[])")]

/-- Entries of all fates, two of them for one element. -/
def sampleEntries : List DocEntry :=
  [⟨"T:Shop.Cart", [.text "Old."]⟩, ⟨"Shop.Cart", [.text "Lost."]⟩,
    ⟨"M:Shop.Cart.Add(System.Int32[])", [.text "Adds."]⟩, ⟨"T:Shop.Order", [.text "Absent."]⟩,
    ⟨"T:Shop.Cart", [.text "New."]⟩]

/-- The entries in another order, the two for one element as they were. -/
def sampleReordered : List DocEntry :=
  [⟨"T:Shop.Order", [.text "Absent."]⟩, ⟨"T:Shop.Cart", [.text "Old."]⟩,
    ⟨"T:Shop.Cart", [.text "New."]⟩, ⟨"M:Shop.Cart.Add(System.Int32[])", [.text "Adds."]⟩,
    ⟨"Shop.Cart", [.text "Lost."]⟩]

/-- The two entries of the cart keep their order. -/
theorem entriesFor_sampleReordered (id : String) :
    sampleCartCatalog.entriesFor sampleReordered id
      = sampleCartCatalog.entriesFor sampleEntries id := by
  have hcart : sampleCartCatalog.fate "T:Shop.Cart" = .matched "Shop.Cart" := by decide +kernel
  have hadd : sampleCartCatalog.fate "M:Shop.Cart.Add(System.Int32[])"
      = .matched "Shop.Cart.Add(System.Int32[])" := by decide +kernel
  have horder : sampleCartCatalog.fate "T:Shop.Order" = .unmatched := by decide +kernel
  have hbare : sampleCartCatalog.fate "Shop.Cart" = .malformed := by decide +kernel
  by_cases hid : id = "Shop.Cart"
  · subst hid
    simp [Catalog.entriesFor, sampleReordered, sampleEntries, hcart, hadd, horder, hbare]
  · simp [Catalog.entriesFor, sampleReordered, sampleEntries, List.filter_cons, hcart, hadd, horder,
      hbare, Ne.symm hid]

/-- The type has the documentation that was written last, in either order of the entries. -/
theorem attach_account_reordered :
    Catalog.build [sampleCart] = .ok sampleCartCatalog ∧
    (sampleCartCatalog.attach sampleEntries).rawDoc "Shop.Cart" = some [.text "New."] ∧
    (sampleCartCatalog.attach sampleEntries).report = ⟨3, 1, 1, 1⟩ ∧
    {id | (sampleCartCatalog.attach sampleEntries).rawDoc id ≠ none}.ncard = 2 ∧
    sampleReordered.Perm sampleEntries ∧
    (∀ id, sampleCartCatalog.entriesFor sampleReordered id
      = sampleCartCatalog.entriesFor sampleEntries id) ∧
    (sampleCartCatalog.attach sampleReordered).rawDoc "Shop.Cart" = some [.text "New."] ∧
    (sampleCartCatalog.attach sampleReordered).report = ⟨3, 1, 1, 1⟩ := by
  obtain ⟨-, -, -, -, -, -, hcount, hreorder⟩ := attach_account build_sampleCart sampleEntries
  have hdoc : (sampleCartCatalog.attach sampleEntries).rawDoc "Shop.Cart" = some [.text "New."] := by
    decide +kernel
  have hreport : (sampleCartCatalog.attach sampleEntries).report = ⟨3, 1, 1, 1⟩ := by
    decide +kernel
  have hperm : sampleReordered.Perm sampleEntries := by decide
  obtain ⟨hdocs', hreport'⟩ := hreorder sampleReordered hperm entriesFor_sampleReordered
  refine ⟨build_sampleCart, hdoc, hreport, ?_, hperm, entriesFor_sampleReordered,
    (hdocs' _).trans hdoc, hreport'.trans hreport⟩
  change (sampleCartCatalog.attach sampleEntries).report.overwritten + _
    = (sampleCartCatalog.attach sampleEntries).report.matched at hcount
  rw [hreport] at hcount
  exact Nat.add_left_cancel hcount

end InheritDoc
