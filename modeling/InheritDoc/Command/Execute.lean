import InheritDoc.Command.Arguments
import InheritDoc.Markup.Writer
import InheritDoc.Run.Export
import InheritDoc.Settings.File

namespace InheritDoc

open Markup (allBlank toXml)

/-!
# Carrying out commands

* `Outcome`      : what a command prints, and its exit code;
* `Failure`      : why a command fails;
* `Command.text` : what a command prints when it succeeds;
* `execute`      : the outcome of the program for its arguments.
-/

/-- What the program prints on its two channels, and its exit code. -/
structure Outcome where
  code : UInt32 := 0
  output : String := ""
  errors : String := ""
  deriving DecidableEq, Repr, Inhabited

/-- Why a command fails, and what lies behind it. -/
structure Failure where
  message : String
  cause? : Option String := none
  deriving DecidableEq, Repr, Inhabited

/-- The failure of a command because its run fails. -/
def Failure.ofRunError (e : RunError) : Failure := ⟨e.message, e.cause?⟩

/-- The text with every line moved in by four columns. -/
def indentLines (text : String) : String :=
  "    " ++ text.replace "\n" "\n    "

/-- What is printed about a failure that ends the program. -/
def Failure.text (f : Failure) : String :=
  "Error: " ++ f.message ++ "\n" ++
    match f.cause? with
    | none => ""
    | some cause => "\nCaused by:\n" ++ indentLines cause ++ "\n"

/-- What is printed about settings that cannot be used. -/
def RunError.report (e : RunError) : String :=
  "Error: " ++ e.message ++ "\n" ++
    if e.suggestions.isEmpty then ""
    else "\nSuggestions:\n" ++ String.join (e.suggestions.map fun s => "  • " ++ s ++ "\n")

/-- The notice that the defaults are used. -/
def defaultsNotice : String := "Using default configuration for now.\n"

/-! ### What commands print -/

/-- The ids of all types, each followed by the ids of its members. -/
def Catalog.idLines (c : Catalog) : String :=
  String.join (((c.ids.filterMap c.lookup).filter (·.isType)).map fun e =>
    e.docId ++ "\n" ++ String.join (((c.membersOf e.id).filterMap c.lookup).map fun member =>
      "  " ++ member.docId ++ "\n"))

/-- All documentation that is not blank, each under the id of its element. -/
def Resolved.docLines (r : Resolved) : String :=
  String.join ((r.docs.filter fun (_, tree) => !allBlank tree).map fun (id, tree) =>
    id ++ "\n  " ++ toXml tree ++ "\n")

/-- The resolved documentation in the form that the options of the command ask for. -/
def Resolved.show (r : Resolved) (id : Option String) (json pretty : Bool) :
    Except Failure String :=
  if json then .ok (r.exportText id pretty ++ "\n")
  else
    match id with
    | none => .ok r.docLines
    | some id =>
      match r.doc? id with
      | some tree => .ok (toXml tree ++ "\n")
      | none => .error ⟨"No element with id '" ++ id ++ "'", none⟩

/-- The settings in effect, under a heading. -/
def Settings.show (s : Settings) : String :=
  "Current Configuration:\n" ++ String.ofList (List.replicate 50 '=') ++ "\n" ++ s.toToml ++ "\n"

variable {m : Type → Type} [Monad m] [Host m]

/-- What a command prints when it succeeds. -/
def Command.text (settings : Settings) : Command → ExceptT Failure m String
  | .init force => do
    let path ← ExceptT.adapt (Failure.mk "Failed to create configuration file" ∘ some)
      (Settings.createFile force)
    return "Created configuration file at: " ++ path
      ++ "\nEdit this file to customize your settings.\n"
  | .config => return settings.show
  | .resolve descriptors docs only json => do
    let run ← ExceptT.adapt Failure.ofRunError (Run.read descriptors docs)
    let resolved ← MonadExcept.ofExcept ((run.resolve settings).mapError Failure.ofRunError)
    MonadExcept.ofExcept (resolved.show only json settings.prettyOutput)
  | .id descriptors => do
    let declarations ← ExceptT.adapt Failure.ofRunError (readDeclarations descriptors)
    match Catalog.build declarations with
    | .ok catalog => return catalog.idLines
    | .error e => throw ⟨e.message, none⟩

/-! ### The program -/

/-- The settings to use and what is printed about them; nothing if the program ends there. -/
def chooseSettings (file : Option String) : m (Option Settings × String) := do
  match file with
  | some path =>
    match ← (Settings.loadFrom path).run with
    | .ok settings => return (some settings, "")
    | .error e => return (none, e.report)
  | none =>
    match ← Settings.load.run with
    | .ok settings => return (some settings, "")
    | .error e => return (some {}, e.report ++ defaultsNotice)

/-- The warning about a settings file that is not in order. -/
def settingsWarning : m String := do
  match ← Settings.check.run with
  | .ok _ => return ""
  | .error fault => return "Warning: " ++ fault.message ++ "\n" ++ defaultsNotice

/-- The command makes a settings file. -/
def Command.isInit : Command → Bool
  | .init _ => true
  | _ => false

/-- Carry out a command. -/
def Command.execute (file : Option String) (command : Command) : m Outcome := do
  let warning ← if command.isInit || file.isSome then pure "" else settingsWarning
  match ← chooseSettings file with
  | (none, notes) => return { code := 1, errors := warning ++ notes }
  | (some settings, notes) =>
    match ← (command.text settings).run with
    | .ok output => return { output, errors := warning ++ notes }
    | .error f => return { code := 1, errors := warning ++ notes ++ f.text }

/-- How the program is used. -/
def usage : String :=
  "Usage: docweave [--config FILE] COMMAND\n\nCommands:\n"
    ++ "  init [--force]\n"
    ++ "  config\n"
    ++ "  resolve --descriptors FILE --docs FILE [--id ID] [--json]\n"
    ++ "  id --descriptors FILE\n"

/-- The outcome of the program for its arguments. -/
def execute (arguments : List String) : m Outcome := do
  match Request.parse arguments with
  | none => return { code := 2, errors := usage }
  | some .version => return { output := "docweave 0.1.0\n" }
  | some .help => return { output := usage }
  | some (.run file command) => command.execute file

end InheritDoc
