import InheritDoc.Json.Basic

namespace InheritDoc.Json

/-!
# Writing JSON

* `compact` : the text without any blanks;
* `pretty`  : one item a line, two blanks a level.

Both write the fields of an object in the order they are given, and escape in strings only the
quote, the backslash and the control characters below U+0020.  Where a value denotes nothing, `null`
is written.
-/

/-! ### Strings -/

/-- A hexadecimal digit, in lower case. -/
def hexDigit (n : Nat) : Char :=
  if n < 10 then Char.ofNat (48 + n) else Char.ofNat (87 + n)

/-- How one character of a string is written. -/
def escapeChar (c : Char) : List Char :=
  if c = '"' then ['\\', '"']
  else if c = '\\' then ['\\', '\\']
  else if c = '\x08' then ['\\', 'b']
  else if c = '\x09' then ['\\', 't']
  else if c = '\x0a' then ['\\', 'n']
  else if c = '\x0c' then ['\\', 'f']
  else if c = '\x0d' then ['\\', 'r']
  else if c.toNat < 0x20 then
    ['\\', 'u', '0', '0', hexDigit (c.toNat / 16), hexDigit (c.toNat % 16)]
  else [c]

/-- A string in quotes. -/
def writeString (s : String) : List Char :=
  '"' :: (s.toList.flatMap escapeChar ++ ['"'])

/-- An integer in decimal digits. -/
def writeInt (n : Int) : List Char :=
  if n < 0 then '-' :: Nat.toDigits 10 n.natAbs else Nat.toDigits 10 n.natAbs

/-! ### Compact text -/

mutual

/-- The characters of the compact text. -/
def write : Json → List Char
  | .null => ['n', 'u', 'l', 'l']
  | .bool true => ['t', 'r', 'u', 'e']
  | .bool false => ['f', 'a', 'l', 's', 'e']
  | .int n => writeInt n
  | .real literal => literal.toList
  | .str s => writeString s
  | .arr items => '[' :: (writeItems items ++ [']'])
  | .obj fields => '{' :: (writeFields fields ++ ['}'])
  | .void => ['n', 'u', 'l', 'l']

/-- The items of an array with commas between them. -/
def writeItems : List Json → List Char
  | [] => []
  | item :: items => write item ++ writeMoreItems items

/-- A comma before every item. -/
def writeMoreItems : List Json → List Char
  | [] => []
  | item :: items => ',' :: (write item ++ writeMoreItems items)

/-- The fields of an object with commas between them. -/
def writeFields : List (String × Json) → List Char
  | [] => []
  | (name, value) :: fields => writeString name ++ ':' :: (write value ++ writeMoreFields fields)

/-- A comma before every field. -/
def writeMoreFields : List (String × Json) → List Char
  | [] => []
  | (name, value) :: fields =>
    ',' :: (writeString name ++ ':' :: (write value ++ writeMoreFields fields))

end

/-- The text without any blanks. -/
def compact (j : Json) : String :=
  String.ofList j.write

/-! ### Text with one item a line -/

/-- A line break and the blanks of an indentation level. -/
def newLine (level : Nat) : List Char :=
  '\n' :: List.replicate (2 * level) ' '

mutual

/-- The characters of the indented text of a value that starts at `level`. -/
def writePretty (level : Nat) : Json → List Char
  | .arr [] => ['[', ']']
  | .arr (item :: items) =>
    '[' :: (newLine (level + 1) ++ writePretty (level + 1) item ++
      prettyMoreItems (level + 1) items ++ newLine level ++ [']'])
  | .obj [] => ['{', '}']
  | .obj ((name, value) :: fields) =>
    '{' :: (newLine (level + 1) ++ writeString name ++ [':', ' '] ++
      writePretty (level + 1) value ++ prettyMoreFields (level + 1) fields ++
      newLine level ++ ['}'])
  | .null => write .null
  | .bool b => write (.bool b)
  | .int n => write (.int n)
  | .real literal => write (.real literal)
  | .str s => write (.str s)
  | .void => write .void

/-- A comma and a new line before every item. -/
def prettyMoreItems (level : Nat) : List Json → List Char
  | [] => []
  | item :: items =>
    ',' :: (newLine level ++ writePretty level item ++ prettyMoreItems level items)

/-- A comma and a new line before every field. -/
def prettyMoreFields (level : Nat) : List (String × Json) → List Char
  | [] => []
  | (name, value) :: fields =>
    ',' :: (newLine level ++ writeString name ++ [':', ' '] ++ writePretty level value ++
      prettyMoreFields level fields)

end

/-- The text with one item a line, indented by two blanks a level. -/
def pretty (j : Json) : String :=
  String.ofList (j.writePretty 0)

end InheritDoc.Json
