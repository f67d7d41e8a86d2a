import InheritDoc.Host.Basic

namespace InheritDoc

/-!
# A machine in memory

Surroundings that are a plain value, so that what a command does to files can be computed and
reasoned about.

* `Machine`        : files and directories, a working directory, and variables;
* `Machine.locate` : where a path leads;
* an instance of `Host` for programs with such a machine as their state.
-/

/-- A file with its bytes, or a directory. -/
inductive Item where
  | file (content : ByteArray)
  | directory
  deriving Inhabited

/-- Whether an item is a file or a directory. -/
def Item.kind : Item → ItemKind
  | .file _ => .file
  | .directory => .directory

/-- A machine: what stands at the locations below the root, newest first, the location of the
    working directory, and the environment variables. -/
structure Machine where
  items : List (List String × Item) := []
  workingDirectory : List String := []
  environment : List (String × String) := []
  deriving Inhabited

namespace Machine

/-- What stands at a location.  The root is a directory. -/
def item? (m : Machine) (location : List String) : Option Item :=
  if location = [] then some .directory else m.items.lookup location

/-- Put an item at a location. -/
def put (m : Machine) (location : List String) (item : Item) : Machine :=
  { m with items := (location, item) :: m.items }

/-- Where names lead from a location.  Every name is looked up in an existing directory. -/
def follow (m : Machine) : List String → List String → Except FileError (List String)
  | location, [] => .ok location
  | location, name :: names =>
    match m.item? location with
    | none => .error .missing
    | some (.file _) => .error .notDirectory
    | some .directory =>
      if name = ".." then follow m location.dropLast names
      else if Location.isName name then follow m (location ++ [name]) names
      else .error .badName

/-- Where a path starts from. -/
def start (m : Machine) (path : String) : List String :=
  if Location.isAbsolute path then [] else m.workingDirectory

/-- Where a path leads.  The last name need not exist, unless the path can name nothing but a
    directory. -/
def locate (m : Machine) (path : String) : Except FileError (List String) := do
  if path = "" then throw .missing
  let location ← m.follow (m.start path) (Location.steps path)
  match Location.endsInDirectory path, m.item? location with
  | true, some (.file _) => throw .notDirectory
  | true, none => throw .isDirectory
  | _, _ => return location

/-- What stands at a path, if anything does. -/
def kind? (m : Machine) (path : String) : Option ItemKind :=
  match m.locate path with
  | .ok location => (m.item? location).map Item.kind
  | .error _ => none

/-- The bytes of the file at a path. -/
def read (m : Machine) (path : String) : Except FileError ByteArray := do
  match m.item? (← m.locate path) with
  | none => throw .missing
  | some .directory => throw .isDirectory
  | some (.file content) => return content

/-- Put bytes into the file at a path. -/
def write (m : Machine) (path : String) (content : ByteArray) : Except FileError Machine := do
  let location ← m.locate path
  match m.item? location, m.item? location.dropLast with
  | some .directory, _ => throw .isDirectory
  | _, none => throw .missing
  | _, some _ => return m.put location (.file content)

/-- Make the directories that names lead through from a location. -/
def makeDirectories (m : Machine) (location : List String) : List String → Except FileError Machine
  | [] => .ok m
  | name :: names =>
    if name = ".." then makeDirectories m location.dropLast names
    else
      match m.item? (location ++ [name]) with
      | some .directory => makeDirectories m (location ++ [name]) names
      | some (.file _) => .error (if names.isEmpty then .alreadyExists else .notDirectory)
      | none =>
        if Location.isName name then
          makeDirectories (m.put (location ++ [name]) .directory) (location ++ [name]) names
        else .error .badName

/-- Make the directory at a path and the directories above it. -/
def makeDirectory (m : Machine) (path : String) : Except FileError Machine :=
  m.makeDirectories (m.start path) (Location.steps path)

/-- Put bytes into the file at a path, making the directories above it. -/
def store (m : Machine) (path : String) (content : ByteArray) : Except FileError Machine := do
  let m ← m.makeDirectory ((Location.parent? path).getD "")
  m.write path content

/-- Go to a directory, making it if it is missing. -/
def enter (m : Machine) (directory : String) : Except FileError Machine := do
  let m ← m.makeDirectory directory
  return { m with workingDirectory := ← m.follow (m.start directory) (Location.steps directory) }

/-- Set a variable.  One that exists keeps its place. -/
def setVariable (m : Machine) (name value : String) : Machine :=
  if (m.environment.lookup name).isSome then
    { m with
      environment := m.environment.map fun old => if old.1 = name then (name, value) else old }
  else { m with environment := m.environment ++ [(name, value)] }

end Machine

/-- Keep the new machine of an operation that succeeds, and the old one of one that fails. -/
def Machine.apply (operation : Machine → Except FileError Machine) :
    StateM Machine (Except FileError Unit) := do
  match operation (← get) with
  | .ok m =>
    set m
    return .ok ()
  | .error e => return .error e

instance : Host (StateM Machine) where
  read path := return (← get).read path
  write path text := Machine.apply (·.write path text.toUTF8)
  makeDirectory path := Machine.apply (·.makeDirectory path)
  kind? path := return (← get).kind? path
  workingDirectory := return Location.absolute (← get).workingDirectory
  environment := return (← get).environment

end InheritDoc
