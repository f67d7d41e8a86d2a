import InheritDoc.Host.Basic
import InheritDoc.Run.Error
import InheritDoc.Settings.Basic
import InheritDoc.Settings.Variable
import InheritDoc.Toml.Reader

namespace InheritDoc.Settings

/-!
# Settings files

* `toToml`, `template` : the text of a settings file, without and with comments;
* `layered`            : the settings of the defaults, a settings file and the environment;
* `load`, `loadFrom`   : the settings in effect;
* `check`              : whether the settings file is in order;
* `createFile`, `save` : write a settings file.
-/

/-! ### Texts -/

/-- The directory that holds the settings file. -/
def directoryName : String := ".docweave"

/-- The name of the settings file. -/
def fileName : String := "settings.toml"

/-- A line of a settings file. -/
def line (name value : String) : String := name ++ " = " ++ value ++ "\n"

/-- A line that holds a truth value. -/
def switchLine (name : String) (value : Bool) : String :=
  line name (if value then "true" else "false")

/-- The text of a settings file that holds all settings. -/
def toToml (s : Settings) : String :=
  line "version" (toString s.version.toNat)
    ++ switchLine "debug" s.debug
    ++ "\n[attach]\n"
    ++ switchLine "log_unmatched" s.logUnmatched
    ++ "\n[resolution]\n"
    ++ switchLine "resolve_crefs" s.resolution.followCrefs
    ++ switchLine "inherit_undocumented_members" s.resolution.inheritUndocumented
    ++ "\n[output]\n"
    ++ switchLine "pretty" s.prettyOutput

/-- The text of a new settings file: the defaults, with comments. -/
def template : String :=
  "# docweave configuration file\n\n"
    ++ "# Version of the configuration schema\n"
    ++ "version = 1\n\n"
    ++ "# Global debug mode (lowers the default log filter to debug)\n"
    ++ "debug = false\n\n"
    ++ "[attach]\n"
    ++ "# Log every documentation entry that matches no analyzed element\n"
    ++ "log_unmatched = false\n\n"
    ++ "[resolution]\n"
    ++ "# Follow cref=\"...\" on <inheritdoc/>; when false such markers are dropped\n"
    ++ "resolve_crefs = true\n\n"
    ++ "# Inherited members without documentation behave as if they carried <inheritdoc/>\n"
    ++ "inherit_undocumented_members = true\n\n"
    ++ "[output]\n"
    ++ "# Pretty-print JSON output\n"
    ++ "pretty = true\n"

/-- The settings in the text of a settings file alone, which is read by the second edition of the
    format. -/
def ofToml? (text : String) : Option Settings :=
  (Toml.parse .v1_1 text).bind ofJson?

/-! ### Layers -/

/-- The settings of all layers: the defaults, a settings file, and environment variables, each laid
    over the ones before it.  Nothing if some setting has a value of the wrong type. -/
def layered (file : Json) (environment : List (String × String)) : Option Settings :=
  let withFile := Json.overlay (some (Settings.toJson {})) file
  ofJson? (Json.overlay (some withFile) (Variable.layer environment))

/-! ### Finding and reading -/

variable {m : Type → Type} [Monad m] [Host m]

/-- The settings file in a directory. -/
def pathIn (directory : String) : String :=
  Location.child (Location.child directory directoryName) fileName

/-- The settings file for the working directory: in the innermost directory at or above it that has
    a directory for settings, and else in the working directory itself. -/
def findPath : m String := do
  let above := Location.ancestors (← Host.workingDirectory)
  let found ← above.findM? fun directory =>
    return (← Host.kind? (Location.child directory directoryName)) = some .directory
  return pathIn (found.getD "")

/-- The file that a path names: a relative path is tried from the working directory and then from
    each directory above it. -/
def findFile? (path : String) : m (Option String) := do
  let candidates ←
    if Location.isAbsolute path then pure [path]
    else pure ((Location.ancestors (← Host.workingDirectory)).map (Location.child · path))
  candidates.findM? fun candidate => return (← Host.kind? candidate) = some .file

/-- The values in a settings file, which is read by the first edition of the format.  A file that
    does not exist holds none. -/
def readLayer (path : String) : ExceptT RunError m Json := do
  match ← findFile? (m := m) path with
  | none => return .obj []
  | some file =>
    match ← Host.readText (m := m) file with
    | .error e => throw (.config e.message)
    | .ok text =>
      match Toml.parse .v1_0 text with
      | some values => return values
      | none => throw (.config ("'" ++ path ++ "' is not a TOML file"))

/-- The settings in effect when the settings file is at a path. -/
def loadFrom (path : String) : ExceptT RunError m Settings := do
  let file ← readLayer path
  match layered file (← Host.environment (m := m)) with
  | some s => return s
  | none => throw (.config "a setting has a value of the wrong type")

/-- The settings in effect. -/
def load : ExceptT RunError m Settings := do
  loadFrom (← findPath (m := m))

/-! ### Checking -/

/-- What is wrong with the settings file. -/
inductive Fault where
  | missing
  | unreadable (reason : String)
  | corrupted (reason : String)
  deriving DecidableEq, Repr, Inhabited

/-- The wording of a fault. -/
def Fault.message : Fault → String
  | .missing => "No configuration file found"
  | .unreadable reason => "Cannot read configuration file: " ++ reason
  | .corrupted reason =>
    "Configuration file is corrupted: " ++ reason
      ++ "\nRun 'docweave init --force' to regenerate."

/-- Find out what is wrong with the settings file, if anything is. -/
def check : ExceptT Fault m Unit := do
  let path ← findPath (m := m)
  if (← Host.kind? (m := m) path).isNone then throw .missing
  match ← Host.readText (m := m) path with
  | .error e => throw (.unreadable e.message)
  | .ok text =>
    if (ofToml? text).isNone then throw (.corrupted "the text does not hold settings")

/-! ### Writing -/

/-- Run a file operation, with the wording of its failure. -/
def attempt (operation : m (Except FileError Unit)) : ExceptT String m Unit := do
  match ← operation with
  | .ok _ => return ()
  | .error e => throw e.message

/-- Put a text into a file, making the directory that holds it. -/
def writeFile (path text : String) : ExceptT String m Unit := do
  match Location.parent? path with
  | none => throw "Invalid path"
  | some directory =>
    attempt (Host.makeDirectory directory)
    attempt (Host.write path text)

/-- Write the settings to a file. -/
def save (s : Settings) (path : String) : ExceptT String m Unit :=
  writeFile path s.toToml

/-- Make a settings file in the working directory and return its path.  Only `force` replaces one
    that exists. -/
def createFile (force : Bool) : ExceptT String m String := do
  let path := pathIn "."
  if !force && (← Host.kind? (m := m) path).isSome then
    throw "Configuration file already exists. Use --force to overwrite"
  writeFile path template
  return path

end InheritDoc.Settings
