namespace InheritDoc

/-!
# Command line arguments

* `Command`    : what the program can be asked to do;
* `OptionForm` : how an option is written;
* `scan`       : the options that arguments start with;
* `Request.parse` : the request that the arguments make, or nothing if they make none.
-/

/-- What the program can be asked to do. -/
inductive Command where
  | init (force : Bool)
  | config
  | resolve (descriptors docs : String) (id : Option String) (json : Bool)
  | id (descriptors : String)
  deriving DecidableEq, Repr, Inhabited

/-- What the arguments ask for: a command, with the settings file to use, or information about the
    program itself. -/
inductive Request where
  | run (settings : Option String) (command : Command)
  | version
  | help
  deriving DecidableEq, Repr, Inhabited

/-! ### Options -/

/-- How the value of an option is given. -/
inductive ValueForm where
  /-- The option has no value. -/
  | none
  /-- The option has no value, and the arguments after it do not matter. -/
  | final
  /-- The option has a value that is not empty. -/
  | path
  /-- The option has a value. -/
  | text
  deriving DecidableEq, Repr, Inhabited

/-- An option: its long name, the letter that stands for it, if any, and its value. -/
structure OptionForm where
  name : String
  letter : Option Char
  value : ValueForm
  deriving DecidableEq, Repr, Inhabited

/-- The options given, each with its value; options without value have the empty one. -/
abbrev Given := List (String × String)

/-- The option has a value. -/
def OptionForm.takesValue (form : OptionForm) : Bool :=
  form.value = .path || form.value = .text

/-- Note that an option is given, which may happen once. -/
def OptionForm.give (form : OptionForm) (value : String) (given : Given) : Option Given :=
  if (given.lookup form.name).isSome ∨ (form.value = .path ∧ value = "") then none
  else some (given ++ [(form.name, value)])

/-- An argument that can be the value of the option before it. -/
def isValue (argument : String) : Bool :=
  argument = "-" || argument.toList.head? ≠ some '-'

/-- What an argument means: options, the last of which may lack its value. -/
structure Reading where
  given : Given
  lacking : Option OptionForm := none
  final : Bool := false

/-- The reading of a long option, written without its dashes. -/
def readLong (forms : List OptionForm) (given : Given) (body : String) : Option Reading := do
  let (name, value) := match body.splitOn "=" with
    | [] => ("", none)
    | [name] => (name, none)
    | name :: parts => (name, some ("=".intercalate parts))
  let form ← forms.find? (·.name = name)
  match value with
  | some value => if form.takesValue then return { given := ← form.give value given } else none
  | none =>
    if form.takesValue then return { given, lacking := some form }
    else return { given := ← form.give "" given, final := form.value = .final }

/-- The reading of letters that stand for options.  What follows a letter whose option has a value
    is that value, with or without an equals sign before it. -/
def readLetters (forms : List OptionForm) (given : Given) : List Char → Option Reading
  | [] => some { given }
  | letter :: rest => do
    let form ← forms.find? (·.letter = some letter)
    if form.takesValue then
      match rest with
      | [] => return { given, lacking := some form }
      | '=' :: value => return { given := ← form.give (String.ofList value) given }
      | value => return { given := ← form.give (String.ofList value) given }
    else
      let given ← form.give "" given
      if form.value = .final then return { given, final := true }
      else readLetters forms given rest

/-- The reading of an argument; nothing if it is no option.  Two dashes alone are none. -/
def readArgument (forms : List OptionForm) (given : Given) (argument : String) :
    Option (Option Reading) :=
  match argument.toList with
  | ['-', '-'] => none
  | '-' :: '-' :: body => some (readLong forms given (String.ofList body))
  | '-' :: letter :: letters => some (readLetters forms given (letter :: letters))
  | _ => none

/-- The options that arguments start with, and the arguments from the first one on that is no
    option. -/
def scan (forms : List OptionForm) (given : Given) : List String → Option (Given × List String)
  | [] => some (given, [])
  | argument :: rest =>
    match readArgument forms given argument with
    | none => some (given, argument :: rest)
    | some none => none
    | some (some reading) =>
      if reading.final then some (reading.given, [])
      else
        match reading.lacking with
        | none => scan forms reading.given rest
        | some form =>
          match rest with
          | [] => none
          | value :: rest =>
            if isValue value then
              (form.give value reading.given).bind fun given => scan forms given rest
            else none

/-! ### Requests -/

/-- The option that names the settings file; it may stand before and after the command. -/
def settingsOption : OptionForm := ⟨"config", some 'c', .path⟩

/-- The option that asks for help. -/
def helpOption : OptionForm := ⟨"help", some 'h', .final⟩

/-- The option that asks for the version. -/
def versionOption : OptionForm := ⟨"version", some 'V', .final⟩

/-- The option that names the descriptor file. -/
def descriptorsOption : OptionForm := ⟨"descriptors", some 'd', .path⟩

/-- The options of a command. -/
def commandOptions : String → Option (List OptionForm)
  | "init" => some [⟨"force", some 'f', .none⟩]
  | "config" => some []
  | "resolve" =>
    some [descriptorsOption, ⟨"docs", none, .path⟩, ⟨"id", none, .text⟩, ⟨"json", none, .none⟩]
  | "id" => some [descriptorsOption]
  | _ => none

/-- The command with the options given. -/
def Command.ofGiven? (name : String) (given : Given) : Option Command :=
  match name with
  | "init" => some (.init (given.lookup "force").isSome)
  | "config" => some .config
  | "resolve" => do
    return .resolve (← given.lookup "descriptors") (← given.lookup "docs") (given.lookup "id")
      (given.lookup "json").isSome
  | "id" => do return .id (← given.lookup "descriptors")
  | _ => none

namespace Request

/-- The request for a command, given the options before it and the arguments after it. -/
def ofCommand? (before : Given) (name : String) (arguments : List String) : Option Request := do
  let forms ← commandOptions name
  let (given, rest) ← scan (forms ++ [settingsOption, helpOption]) [] arguments
  if (given.lookup "help").isSome then return .help
  if rest ≠ [] ∧ rest ≠ ["--"] then none
  return .run (given.lookup "config" <|> before.lookup "config") (← Command.ofGiven? name given)

/-- The request that the arguments of the program make. -/
def parse (arguments : List String) : Option Request := do
  let (given, rest) ← scan [settingsOption, versionOption, helpOption] [] arguments
  if (given.lookup "version").isSome then return .version
  if (given.lookup "help").isSome then return .help
  match rest with
  | [] => none
  | ["help"] => return .help
  | ["help", name] => (commandOptions name).map fun _ => .help
  | name :: arguments => ofCommand? given name arguments

end Request

end InheritDoc
