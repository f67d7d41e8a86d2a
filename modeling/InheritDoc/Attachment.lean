import InheritDoc.Catalog.Basic
import InheritDoc.Markup.DocFile

namespace InheritDoc

open Markup (Node DocEntry)

/-!
# Attaching documentation

The entries of a documentation file are attached to the elements that their ids point to.

* `AttachReport` : what became of the entries, as counts;
* `Attachment`   : a catalog with the raw documentation of its elements;
* `Catalog.attach` : attach entries in order; the last one for an element counts.
-/

/-- What became of documentation entries.  Overwritten ones count as matched too. -/
structure AttachReport where
  matched : Nat := 0
  unmatched : Nat := 0
  malformed : Nat := 0
  overwritten : Nat := 0
  deriving DecidableEq, Repr, Inhabited

/-- A catalog with the raw documentation of its elements. -/
structure Attachment where
  catalog : Catalog
  docs : List (String × List Node) := []
  report : AttachReport := {}
  deriving Inhabited

namespace Attachment

/-- The raw documentation of an element, if it has any. -/
def rawDoc (a : Attachment) (id : String) : Option (List Node) :=
  a.docs.lookup id

/-- Give an element its documentation, in place of what it had. -/
def put (a : Attachment) (id : String) (tree : List Node) : Attachment :=
  { a with docs := (id, tree) :: a.docs.filter (·.1 ≠ id) }

/-- Attach one entry. -/
def add (a : Attachment) (entry : DocEntry) : Attachment :=
  match DocId.parse entry.rawId with
  | .error _ => { a with report.malformed := a.report.malformed + 1 }
  | .ok docId =>
    match a.catalog.find? docId.target with
    | none => { a with report.unmatched := a.report.unmatched + 1 }
    | some id =>
      { a.put id entry.tree with
        report.matched := a.report.matched + 1
        report.overwritten := a.report.overwritten + if (a.rawDoc id).isSome then 1 else 0 }

end Attachment

/-- Attach documentation entries to the elements of a catalog. -/
def Catalog.attach (c : Catalog) (entries : List DocEntry) : Attachment :=
  entries.foldl Attachment.add { catalog := c }

end InheritDoc
