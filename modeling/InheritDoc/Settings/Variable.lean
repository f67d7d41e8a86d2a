import InheritDoc.Json.Basic
import InheritDoc.Text.Blank
import InheritDoc.Text.Numeral
import InheritDoc.Toml.Lexeme

namespace InheritDoc.Variable

/-!
# Environment variables for settings

* `key?`  : the setting that a variable stands for;
* `value` : the value that the text of a variable denotes;
* `layer` : the object that all variables denote together.

A text is a truth value, an integer, a string in quotes, a list in brackets or fields in braces; a
text of no such form denotes itself.
-/

/-! ### Names -/

/-- What the names of variables for settings start with, in either case. -/
def marker : List Char := ['d', 'w', '_']

/-- The lower case names of the setting that a variable stands for.  Two underscores, or a dot,
    divide the names; blanks around a name of a variable, and around what follows the marker, are
    left out.  A variable with an empty name stands for nothing. -/
def key? (name : String) : Option (List String) :=
  let lower := (Text.trim name.toList).map Char.toLower
  if lower.take marker.length = marker then
    let dotted := (String.ofList (lower.drop marker.length)).replace "__" "."
    let path := (Text.trimString dotted).splitOn "."
    if path.contains "" then none else some path
  else none

/-! ### Values -/

/-- The character is blank within ASCII. -/
def isSpace (c : Char) : Bool :=
  c = ' ' || c = '\t' || c = '\n' || c = '\x0c' || c = '\x0d'

/-- The text without the blanks it starts with. -/
def skipSpaces (cs : List Char) : List Char :=
  cs.dropWhile isSpace

/-- The character ends a word. -/
def isSeparator (c : Char) : Bool :=
  c = ',' || c = '{' || c = '}' || c = '[' || c = ']'

/-- The character may stand in a name without quotes. -/
def isNameChar (c : Char) : Bool :=
  c.isAlphanum || c = '_' || c = '-'

/-- An integer with an optional sign. -/
def integer? (cs : List Char) : Option Int :=
  match cs with
  | '-' :: '+' :: _ => none
  | '-' :: digits => (Text.numeral? 10 0x8000000000000001 digits).map fun n => -(n : Int)
  | _ => (Text.numeral? 10 UInt64.size cs).map fun n => (n : Int)

/-- The value of a word, blanks around it aside: an integer, or else the word itself. -/
def ofWord (cs : List Char) : Json :=
  match integer? (Text.trim cs) with
  | some n => .int n
  | none => .str (String.ofList (Text.trim cs))

/-- The rest of a string after its opening quote. -/
def readString (cs : List Char) : Option (String × List Char) :=
  (Toml.readLineString .v1_0 '"' (cs.length + 1) cs).map fun (text, rest) =>
    (String.ofList text, rest)

/-- The name of a field. -/
def readName (cs : List Char) : Option (String × List Char) :=
  match cs with
  | '"' :: rest => readString rest
  | _ =>
    match cs.span isNameChar with
    | ([], _) => none
    | (name, rest) => some (String.ofList name, rest)

mutual

/-- A value with the blanks around it; the counter bounds the number of readers entered. -/
def readValue : Nat → List Char → Option (Json × List Char)
  | 0, _ => none
  | n + 1, cs => do
    let (json, rest) ← match skipSpaces cs with
      | 't' :: 'r' :: 'u' :: 'e' :: rest => some (Json.bool true, rest)
      | 'f' :: 'a' :: 'l' :: 's' :: 'e' :: rest => some (.bool false, rest)
      | '{' :: rest => (readFields n [] rest).map fun (fields, rest) => (.obj fields, rest)
      | '[' :: rest => (readItems n rest).map fun (items, rest) => (.arr items, rest)
      | '"' :: rest => (readString rest).map fun (s, rest) => (.str s, rest)
      | '\'' :: c :: '\'' :: rest => some (.str (String.singleton c), rest)
      | '\'' :: _ => none
      | cs =>
        let word := cs.takeWhile fun c => !isSeparator c
        some (ofWord word, cs.drop word.length)
    return (json, skipSpaces rest)

/-- The items of a list up to its closing bracket, which a comma may precede. -/
def readItems : Nat → List Char → Option (List Json × List Char)
  | 0, _ => none
  | _ + 1, ']' :: rest => some ([], rest)
  | n + 1, cs => do
    match ← readValue n cs with
    | (item, ',' :: rest) =>
      let (items, rest) ← readItems n rest
      return (item :: items, rest)
    | (item, ']' :: rest) => return ([item], rest)
    | _ => none

/-- The fields up to the closing brace, which a comma may precede, put over the fields read so far.
    Of two fields with one name the later one counts. -/
def readFields (n : Nat) (read : List (String × Json)) (cs : List Char) :
    Option (List (String × Json) × List Char) :=
  match n, cs with
  | 0, _ => none
  | _ + 1, '}' :: rest => some (read, rest)
  | n + 1, cs => do
    let (name, rest) ← readName (skipSpaces cs)
    match skipSpaces rest with
    | '=' :: rest =>
      let (value, rest) ← readValue n rest
      let read := Json.putField name (fun _ => value) read
      match rest with
      | ',' :: rest => readFields n read rest
      | '}' :: rest => return (read, rest)
      | _ => none
    | _ => none

end

/-- The value that the text of a variable denotes. -/
def value (text : String) : Json :=
  match readValue (2 * text.toList.length + 1) text.toList with
  | some (json, []) => json
  | _ => .str text

/-- The object that the variables denote together; of two for one setting the later one counts. -/
def layer (environment : List (String × String)) : Json :=
  environment.foldl
    (fun below (name, text) =>
      match key? name with
      | none => below
      | some path => Json.overlay (some below) (Json.nest path (value text)))
    (.obj [])

end InheritDoc.Variable
