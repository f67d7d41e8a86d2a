import InheritDoc.Host.Location

namespace InheritDoc

/-!
# What the program asks of its surroundings

* `FileError` : why a file operation fails;
* `Host`      : the file operations and variables that a program run in `m` can use;
* `Host.readText` : the text of a file in UTF-8.
-/

/-- Why a file operation fails. -/
inductive FileError where
  | missing
  | notDirectory
  | isDirectory
  | alreadyExists
  | badName
  | notText
  | other (reason : String)
  deriving DecidableEq, Repr, Inhabited

/-- The wording of a file error. -/
def FileError.message : FileError → String
  | .missing => "No such file or directory (os error 2)"
  | .notDirectory => "Not a directory (os error 20)"
  | .isDirectory => "Is a directory (os error 21)"
  | .alreadyExists => "File exists (os error 17)"
  | .badName => "File name too long (os error 36)"
  | .notText => "stream did not contain valid UTF-8"
  | .other reason => reason

/-- What stands at a path. -/
inductive ItemKind where
  | file
  | directory
  deriving DecidableEq, Repr, Inhabited

/-- The surroundings of a program. -/
class Host (m : Type → Type) where
  /-- The bytes of a file. -/
  read : String → m (Except FileError ByteArray)
  /-- Put a text into a file, in place of what it held. -/
  write : String → String → m (Except FileError Unit)
  /-- Make a directory and the directories above it, as far as they are missing. -/
  makeDirectory : String → m (Except FileError Unit)
  /-- What stands at a path, if anything does. -/
  kind? : String → m (Option ItemKind)
  /-- The absolute path of the working directory. -/
  workingDirectory : m String
  /-- The names and values of the environment variables. -/
  environment : m (List (String × String))

/-- The text of bytes in UTF-8. -/
def textOfBytes (bytes : ByteArray) : Except FileError String :=
  match String.fromUTF8? bytes with
  | some text => .ok text
  | none => .error .notText

/-- The text of a file. -/
def Host.readText {m : Type → Type} [Monad m] [Host m] (path : String) :
    m (Except FileError String) := do
  match ← Host.read path with
  | .ok bytes => return textOfBytes bytes
  | .error e => return .error e

end InheritDoc
