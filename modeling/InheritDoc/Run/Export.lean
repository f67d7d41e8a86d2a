import InheritDoc.Catalog.Build
import InheritDoc.Element.Json
import InheritDoc.Host.Basic
import InheritDoc.Inheritance.Resolved
import InheritDoc.Json.Writer
import InheritDoc.Markup.Json
import InheritDoc.Run.Error
import InheritDoc.Settings.Basic

namespace InheritDoc

open Markup (DocEntry DocFile treeToJson)

/-!
# Runs and what they export

A run takes the declarations of one program and the entries of its documentation file to the
resolved documentation of its elements, which is exported as JSON.

* `Run`              : the declarations and entries, with a name;
* `readDeclarations` : the declarations in a descriptor file;
* `Run.read`         : a run out of a descriptor file and a documentation file;
* `Run.resolve`      : the resolved documentation;
* `Resolved.exportJson`, `Resolved.exportText` : the report and the elements as a JSON value, and
  its text.
-/

/-! ### Runs -/

/-- What one run works on. -/
structure Run where
  name : String
  declarations : List Declaration
  entries : List DocEntry
  deriving Inhabited

/-- How many levels the reader of a descriptor file descends. -/
def descriptorNesting : Nat := 127

/-- The declarations in the text of a descriptor file. -/
def declarationsOfText? (text : String) : Option (List Declaration) :=
  (Json.parse text).bind (Json.listWithin? Declaration.read descriptorNesting)

variable {m : Type → Type} [Monad m] [Host m]

/-- The text of a file that a run needs. -/
def readInput (path : String) : ExceptT RunError m String := do
  match ← Host.readText (m := m) path with
  | .ok text => return text
  | .error e => throw (.fileRead path e.message)

/-- The declarations in a descriptor file. -/
def readDeclarations (path : String) : ExceptT RunError m (List Declaration) := do
  match declarationsOfText? (← readInput path) with
  | some declarations => return declarations
  | none => throw (.descriptors path "not a list of type declarations")

/-- The contents of a documentation file. -/
def readDocFile (path : String) : ExceptT RunError m DocFile := do
  match DocFile.parse (← readInput path) with
  | .ok file => return file
  | .error e => throw (.markup path e)

namespace Run

/-- Read the descriptor file, then the documentation file.  The run has the name of the assembly,
    or else of the documentation file. -/
def read (descriptors docs : String) : ExceptT RunError m Run := do
  let declarations ← readDeclarations descriptors
  let file ← readDocFile docs
  return ⟨file.assembly.getD (Location.stem docs), declarations, file.entries⟩

/-- Catalog the declarations, attach the entries, and expand all documentation. -/
def resolve (r : Run) (s : Settings) : Except RunError Resolved :=
  match Catalog.build r.declarations with
  | .ok catalog => .ok ((catalog.attach r.entries).resolve s.resolution)
  | .error e => .error (.encode e)

end Run

/-! ### Exports -/

/-- The JSON form of a report. -/
def AttachReport.toJson (r : AttachReport) : Json :=
  .obj [("matched", .nat r.matched), ("unmatched", .nat r.unmatched),
    ("malformed", .nat r.malformed), ("overwritten", .nat r.overwritten)]

namespace Resolved

/-- The elements in increasing order of ids, or the one element asked for. -/
def exportElements (r : Resolved) (only : Option String) : List Json :=
  (r.docs.filter fun (id, _) => only.all (· = id)).filterMap fun (id, tree) =>
    (r.attachment.catalog.lookup id).map fun e =>
      .obj [("id", .str id), ("doc_id", .str e.docId), ("documentation", treeToJson tree)]

/-- The report and the elements. -/
def exportJson (r : Resolved) (only : Option String) : Json :=
  .obj [("report", r.attachment.report.toJson), ("elements", .arr (r.exportElements only))]

/-- The text of the export. -/
def exportText (r : Resolved) (only : Option String) (pretty : Bool) : String :=
  if pretty then (r.exportJson only).pretty else (r.exportJson only).compact

end Resolved

end InheritDoc
