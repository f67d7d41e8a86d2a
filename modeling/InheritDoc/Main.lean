import InheritDoc.Command.Execute

namespace InheritDoc

/-!
# The command line program

The surroundings of the real machine, and the entry point.
-/

/-- The file error that a failed file operation stands for. -/
def FileError.ofFailure : IO.Error → FileError
  | .noFileOrDirectory .. => .missing
  | .inappropriateType _ code _ => if code = 21 then .isDirectory else .notDirectory
  | .alreadyExists .. => .alreadyExists
  | e => .other (toString e)

/-- Run a file operation, with its failure as a value. -/
def attemptFile {α : Type} (operation : IO α) : IO (Except FileError α) := do
  try
    return .ok (← operation)
  catch e =>
    return .error (.ofFailure e)

/-- The variable in the bytes of a definition: a name, an equals sign and a value. -/
def variableOfBytes? (bytes : List UInt8) : Option (String × String) := do
  let text ← String.fromUTF8? ⟨bytes.toArray⟩
  match text.splitOn "=" with
  | name :: first :: more => some (name, "=".intercalate (first :: more))
  | _ => none

/-- The variables in the bytes of an environment, in which a zero follows each definition. -/
def variablesOfBytes (bytes : ByteArray) : List (String × String) :=
  (bytes.toList.splitOn 0).filterMap variableOfBytes?

instance : Host IO where
  read path := attemptFile (IO.FS.readBinFile path)
  write path text := attemptFile (IO.FS.writeFile path text)
  makeDirectory path :=
    if path = "" then return .ok () else attemptFile (IO.FS.createDirAll path)
  kind? path := do
    let full := (← IO.currentDir) / path
    if ← full.isDir then return some .directory
    else if ← full.pathExists then return some .file
    else return none
  workingDirectory := return (← IO.currentDir).toString
  environment := do
    match ← attemptFile (IO.FS.readBinFile "/proc/self/environ") with
    | .ok bytes => return variablesOfBytes bytes
    | .error _ => return []

end InheritDoc

/-- Carry out the command that the arguments name. -/
def main (arguments : List String) : IO UInt32 := do
  let outcome ← InheritDoc.execute arguments
  IO.print outcome.output
  IO.eprint outcome.errors
  return outcome.code
