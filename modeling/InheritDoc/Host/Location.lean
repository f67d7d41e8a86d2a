namespace InheritDoc

/-!
# Locations of files

A location is the list of names that lead to a file or directory.

* `steps`      : the names of a path, without the ones that lead nowhere;
* `isName`, `endsInDirectory` : what a name can be, and what the end of a path says;
* `stem`       : the name of a file without its extension;
* `parent?`    : the path of the directory that a path lies in;
* `ancestors`  : a directory and all the directories above it.
-/

namespace Location

/-- The names of a path in order.  Empty names and single dots lead nowhere and are left out. -/
def steps (path : String) : List String :=
  (path.splitOn "/").filter fun name => name ≠ "" ∧ name ≠ "."

/-- The name can stand in a directory: it is at most 255 bytes long and holds no zero. -/
def isName (name : String) : Bool :=
  name.utf8ByteSize ≤ 255 && !name.toList.contains '\x00'

/-- The path can name nothing but a directory: it ends in a slash or in a single dot. -/
def endsInDirectory (path : String) : Bool :=
  match (path.splitOn "/").getLast? with
  | some name => name = "" || name = "."
  | none => false

/-- The path starts at the root. -/
def isAbsolute (path : String) : Bool :=
  path.toList.head? = some '/'

/-- The absolute path that goes through the given names. -/
def absolute (names : List String) : String :=
  "/" ++ "/".intercalate names

/-- The path of a name within a directory. -/
def child (directory name : String) : String :=
  if directory = "" ∨ directory.toList.getLast? = some '/' then directory ++ name
  else directory ++ "/" ++ name

/-- The part of a file name before its last dot; a name whose only dot comes first is kept. -/
def dropExtension (name : String) : String :=
  match (name.splitOn ".").dropLast with
  | [] => name
  | [""] => name
  | parts => ".".intercalate parts

/-- The name of the file at a path, without its extension; empty where the path names no file. -/
def stem (path : String) : String :=
  match (steps path).getLast? with
  | none => ""
  | some ".." => ""
  | some name => dropExtension name

/-- The path of the directory that holds what a path names: relative where the path is; none for
    the root and the empty path. -/
def parent? (path : String) : Option String :=
  match steps path with
  | [] => none
  | names =>
    if isAbsolute path then some (absolute names.dropLast)
    else some ("/".intercalate names.dropLast)

/-- The paths of a directory and of the directories above it, innermost first, out of the names
    that lead to it from the root in reverse. -/
def ancestorsOf : List String → List String
  | [] => [absolute []]
  | name :: above => absolute (name :: above).reverse :: ancestorsOf above

/-- A directory given by its absolute path and all the directories above it, innermost first. -/
def ancestors (directory : String) : List String :=
  ancestorsOf (steps directory).reverse

end Location

end InheritDoc
