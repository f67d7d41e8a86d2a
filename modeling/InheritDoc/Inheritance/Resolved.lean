import InheritDoc.Inheritance.Expansion
import InheritDoc.Markup.Sections

namespace InheritDoc

open Markup (Node Sections)

/-!
# Resolved documentation

The documentation of one element after the other is expanded.  What is finished is kept, and an
element that is met again while it is being expanded contributes nothing, so cyclic hierarchies are
no obstacle.

* `Progress`              : the documentation expanded so far and the elements being expanded;
* `resolve`               : the expanded documentation of one element;
* `Attachment.resolveAll` : the expanded documentation of all elements;
* `Resolved`              : the elements of a catalog with their expanded documentation;
* `Attachment.resolve`    : expand all documentation.
-/

/-! ### State -/

/-- The state of an expansion: the finished documentation, newest first, and the elements whose
    expansion has begun and not ended. -/
structure Progress where
  finished : List (String × List Node) := []
  active : List String := []
  deriving Inhabited

namespace Progress

/-- Begin the expansion of an element. -/
def enter (p : Progress) (id : String) : Progress :=
  { p with active := id :: p.active }

/-- End the expansion of an element. -/
def leave (p : Progress) (id : String) : Progress :=
  { p with active := p.active.filter (· ≠ id) }

/-- Record the finished documentation of an element. -/
def finish (p : Progress) (id : String) (tree : List Node) : Progress :=
  { p with finished := (id, tree) :: p.finished }

end Progress

/-! ### Elements -/

/-- The expanded documentation of an element; empty for an unknown one.  The counter bounds how
    many elements are expanded inside each other. -/
def resolve (a : Attachment) (o : Options) : Nat → String → Progress → List Node × Progress
  | 0, _, p => ([], p)
  | n + 1, id, p =>
    match p.finished.lookup id with
    | some tree => (tree, p)
    | none =>
      if id ∈ p.active then ([], p)
      else
        match a.catalog.lookup id with
        | none => ([], p)
        | some e =>
          let raw := a.effectiveDoc o e
          if !Node.anyMarker raw then (raw, p.finish id raw)
          else
            let replace := fun sections marker =>
              substitute (resolve a o n) (plan a.catalog o e sections marker)
            let (tree, p) := expandNodes replace [] raw (p.enter id)
            (tree, (p.leave id).finish id tree)

/-- Expand the documentation of elements one after the other.  Elements inside each other are all
    different, so the counter is never exhausted. -/
def resolveEach (a : Attachment) (o : Options) (ids : List String) (p : Progress) : Progress :=
  ids.foldl (fun p id => (resolve a o (a.catalog.entries.length + 1) id p).2) p

/-- The expanded documentation of all elements, each under its id. -/
def Attachment.resolveAll (a : Attachment) (o : Options) : List (String × List Node) :=
  (resolveEach a o a.catalog.ids {}).finished

/-! ### Catalogs -/

/-- A catalog with its raw and its expanded documentation, the latter in increasing order of ids. -/
structure Resolved where
  attachment : Attachment
  docs : List (String × List Node)
  deriving Inhabited

/-- Expand the documentation of every element. -/
def Attachment.resolve (a : Attachment) (o : Options) : Resolved where
  attachment := a
  docs := (a.resolveAll o).mergeSort fun x y => x.1 ≤ y.1

namespace Resolved

/-- The expanded documentation of an element. -/
def doc? (r : Resolved) (id : String) : Option (List Node) :=
  r.docs.lookup id

/-- The sections of the expanded documentation of an element. -/
def sections? (r : Resolved) (id : String) : Option Sections :=
  (r.doc? id).map Sections.of

end Resolved

end InheritDoc
