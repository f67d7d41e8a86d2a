import InheritDoc.Json.Basic
import InheritDoc.Text.Numeral

namespace InheritDoc.Json

open Text (Decimal)

/-!
# Reading JSON

* `parse` : the value a text denotes, or nothing if it is not the text of one value.

Only blank, tab, line feed and carriage return may stand between the parts of a value, and strings
hold no raw control characters.  Three parts are well formed and denote nothing: a number too large
for a double, a string with half of a surrogate pair, and an object with such a name.  Each reader
returns what it read together with the rest of the text.
-/

/-! ### Blanks and numbers -/

/-- The text without the JSON blanks it starts with. -/
def skipBlanks (cs : List Char) : List Char :=
  cs.dropWhile fun c => c = ' ' || c = '\t' || c = '\n' || c = '\r'

/-- The decimal digits a text starts with, and the rest. -/
def takeDigits (cs : List Char) : List Char × List Char :=
  cs.span Char.isDigit

/-- The value of a row of decimal digits. -/
def digitsToNat (digits : List Char) : Nat :=
  digits.foldl (fun n d => 10 * n + (d.toNat - 48)) 0

/-- The fraction a text starts with; nothing if a point is not followed by a digit. -/
def takeFraction : List Char → Option (List Char × List Char)
  | '.' :: cs =>
    match takeDigits cs with
    | ([], _) => none
    | (digits, rest) => some ('.' :: digits, rest)
  | cs => some ([], cs)

/-- The exponent a text starts with; nothing if its mark is not followed by a number. -/
def takeExponent : List Char → Option (List Char × List Char)
  | [] => some ([], [])
  | e :: cs =>
    if e = 'e' ∨ e = 'E' then
      let (sign, body) := match cs with
        | '+' :: body => (['+'], body)
        | '-' :: body => (['-'], body)
        | _ => ([], cs)
      match takeDigits body with
      | ([], _) => none
      | (digits, rest) => some (e :: (sign ++ digits), rest)
    else some ([], e :: cs)

/-- The number of a literal is too large for a double.  An integer of 64 bits never is. -/
def isTooLarge (literal : List Char) : Bool :=
  (Decimal.condensed (.ofChars literal)).isHugeInSteps

/-- A number: an optional minus sign, digits without a needless leading zero, then optionally a
    fraction and an exponent. -/
def readNumber (cs : List Char) : Option (Json × List Char) :=
  let (sign, body) := match cs with
    | '-' :: body => (['-'], body)
    | _ => ([], cs)
  let (digits, rest) := takeDigits body
  if digits.isEmpty ∨ (digits.head? = some '0' ∧ digits ≠ ['0']) then none
  else
    (takeFraction rest).bind fun (fraction, rest) =>
    (takeExponent rest).bind fun (exponent, rest) =>
    let literal := sign ++ digits ++ fraction ++ exponent
    if fraction.isEmpty ∧ exponent.isEmpty then
      let n := digitsToNat digits
      if UInt64.size ≤ n ∧ isTooLarge literal then some (.void, rest)
      else if sign.isEmpty then some (.int n, rest)
      else if digits = ['0'] then some (.real "-0", rest)
      else some (.int (-(n : Int)), rest)
    else if isTooLarge literal then some (.void, rest)
    else some (.real (String.ofList literal), rest)

/-! ### Strings -/

/-- The value of a hexadecimal digit of either case. -/
def hexValue? (c : Char) : Option Nat :=
  if '0' ≤ c ∧ c ≤ '9' then some (c.toNat - 48)
  else if 'a' ≤ c ∧ c ≤ 'f' then some (c.toNat - 87)
  else if 'A' ≤ c ∧ c ≤ 'F' then some (c.toNat - 55)
  else none

/-- The value of four hexadecimal digits. -/
def hex4? (a b c d : Char) : Option Nat := do
  let a ← hexValue? a
  let b ← hexValue? b
  let c ← hexValue? c
  let d ← hexValue? d
  return ((a * 16 + b) * 16 + c) * 16 + d

/-- The character of a letter that follows a backslash. -/
def escaped? : Char → Option Char
  | '"' => some '"'
  | '\\' => some '\\'
  | '/' => some '/'
  | 'b' => some '\x08'
  | 'f' => some '\x0c'
  | 'n' => some '\n'
  | 'r' => some '\x0d'
  | 't' => some '\t'
  | _ => none

/-- What follows the opening quote of a string: the codes of its characters, half of a surrogate
    pair counting as one, and the text after the closing quote. -/
def readString : List Char → Option (List Nat × List Char)
  | [] => none
  | '"' :: rest => some ([], rest)
  | '\\' :: 'u' :: a :: b :: c :: d :: rest =>
    match hex4? a b c d with
    | none => none
    | some code => (readString rest).map fun (codes, rest) => (code :: codes, rest)
  | '\\' :: e :: rest =>
    match escaped? e with
    | none => none
    | some c => (readString rest).map fun (codes, rest) => (c.toNat :: codes, rest)
  | c :: rest =>
    if c = '\\' ∨ c.toNat < 0x20 then none
    else (readString rest).map fun (codes, rest) => (c.toNat :: codes, rest)

/-- The character that the two halves of a surrogate pair stand for. -/
def surrogatePair? (high low : Nat) : Option Char :=
  if 0xD800 ≤ high ∧ high < 0xDC00 ∧ 0xDC00 ≤ low ∧ low < 0xE000 then
    some (Char.ofNat (0x10000 + (high - 0xD800) * 0x400 + (low - 0xDC00)))
  else none

/-- The character of a code by itself; nothing for half of a surrogate pair. -/
def single? (code : Nat) : Option Char :=
  if code.isValidChar then some (Char.ofNat code) else none

/-- The characters of codes; nothing if half of a surrogate pair lacks the other half. -/
def decode? : List Nat → Option (List Char)
  | [] => some []
  | [code] => (single? code).map ([·])
  | high :: low :: codes =>
    match surrogatePair? high low with
    | some c => (decode? codes).map (c :: ·)
    | none => (single? high).bind fun c => (decode? (low :: codes)).map (c :: ·)

/-- The string of codes. -/
def ofCodes (codes : List Nat) : Json :=
  match decode? codes with
  | some cs => .str (String.ofList cs)
  | none => .void

/-- The object of fields whose names are given by codes. -/
def ofFields (fields : List (List Nat × Json)) : Json :=
  match fields.mapM fun (name, value) => (decode? name).map fun cs => (String.ofList cs, value) with
  | some fields => .obj fields
  | none => .void

/-! ### Values -/

mutual

/-- A value after any blanks; the counter bounds the number of readers entered. -/
def readValue : Nat → List Char → Option (Json × List Char)
  | 0, _ => none
  | n + 1, cs =>
    match skipBlanks cs with
    | 'n' :: 'u' :: 'l' :: 'l' :: rest => some (.null, rest)
    | 't' :: 'r' :: 'u' :: 'e' :: rest => some (.bool true, rest)
    | 'f' :: 'a' :: 'l' :: 's' :: 'e' :: rest => some (.bool false, rest)
    | '"' :: rest => (readString rest).map fun (codes, rest) => (ofCodes codes, rest)
    | '[' :: rest =>
      match skipBlanks rest with
      | ']' :: rest => some (.arr [], rest)
      | _ => (readItems n rest).map fun (items, rest) => (.arr items, rest)
    | '{' :: rest =>
      match skipBlanks rest with
      | '}' :: rest => some (.obj [], rest)
      | _ => (readFields n rest).map fun (fields, rest) => (ofFields fields, rest)
    | cs => readNumber cs

/-- The items of an array up to its closing bracket, at least one. -/
def readItems : Nat → List Char → Option (List Json × List Char)
  | 0, _ => none
  | n + 1, cs =>
    match readValue n cs with
    | none => none
    | some (item, rest) =>
      match skipBlanks rest with
      | ',' :: rest => (readItems n rest).map fun (items, rest) => (item :: items, rest)
      | ']' :: rest => some ([item], rest)
      | _ => none

/-- The fields of an object up to its closing brace, at least one. -/
def readFields : Nat → List Char → Option (List (List Nat × Json) × List Char)
  | 0, _ => none
  | n + 1, cs =>
    match skipBlanks cs with
    | '"' :: rest =>
      match readString rest with
      | none => none
      | some (name, rest) =>
        match skipBlanks rest with
        | ':' :: rest =>
          match readValue n rest with
          | none => none
          | some (value, rest) =>
            match skipBlanks rest with
            | ',' :: rest =>
              (readFields n rest).map fun (fields, rest) => ((name, value) :: fields, rest)
            | '}' :: rest => some ([(name, value)], rest)
            | _ => none
        | _ => none
    | _ => none

end

/-- The value that a text denotes.  At most two readers are entered for each character, so the
    counter is never exhausted. -/
def parse (text : String) : Option Json :=
  let cs := text.toList
  match readValue (2 * cs.length + 1) cs with
  | some (value, rest) => if (skipBlanks rest).isEmpty then some value else none
  | none => none

end InheritDoc.Json
