import InheritDoc.Json.Basic
import InheritDoc.Text.Numeral
import InheritDoc.Toml.Edition

namespace InheritDoc.Toml

open Text (Decimal digitValue? digitsValue?)

/-!
# The small parts of TOML texts

* `skipBlanks`, `endLine?`, `skipGaps` : what may stand between the parts of a text;
* `readString` : a string in any of its four notations;
* `readKey`    : a key with its dots;
* `scalar?`    : the value of a word: a truth value, a number or a date.

The edition of the format decides where they differ.  Each reader returns what it read together with
the rest of the text.
-/

/-! ### Blanks, comments and line ends -/

/-- The text without the spaces and tabs it starts with. -/
def skipBlanks (cs : List Char) : List Char :=
  cs.dropWhile fun c => c = ' ' || c = '\t'

/-- The character may stand in comments and strings as it is. -/
def isPlain (c : Char) : Bool :=
  c = '\t' || (0x20 ≤ c.toNat && c.toNat ≠ 0x7F)

/-- The text after a line end. -/
def newline? : List Char → Option (List Char)
  | '\n' :: rest => some rest
  | '\x0d' :: '\n' :: rest => some rest
  | _ => none

/-- The text without the comment it starts with. -/
def skipComment : List Char → List Char
  | '#' :: rest => rest.dropWhile isPlain
  | cs => cs

/-- The text of the next line, when the current one holds no more than blanks and a comment. -/
def endLine? (cs : List Char) : Option (List Char) :=
  match skipComment (skipBlanks cs) with
  | [] => some []
  | rest => newline? rest

/-- The text after all blanks, comments and line ends, passing at most so many lines. -/
def skipLines : Nat → List Char → List Char
  | 0, cs => cs
  | n + 1, cs =>
    match newline? (skipComment (skipBlanks cs)) with
    | some rest => skipLines n rest
    | none => skipBlanks cs

/-- The text after all blanks, comments and line ends it starts with. -/
def skipGaps (cs : List Char) : List Char :=
  skipLines cs.length cs

/-! ### Strings -/

/-- The character of a letter that follows a backslash. -/
def escaped? : Char → Option Char
  | '"' => some '"'
  | '\\' => some '\\'
  | 'b' => some '\x08'
  | 'f' => some '\x0c'
  | 'n' => some '\n'
  | 'r' => some '\x0d'
  | 't' => some '\t'
  | _ => none

/-- The character whose code is written in exactly so many hexadecimal digits. -/
def codePoint? (count : Nat) (cs : List Char) : Option (Char × List Char) := do
  let digits := cs.take count
  let code ← if digits.length = count then digitsValue? 16 0 digits else none
  if code.isValidChar then some (Char.ofNat code, cs.drop count) else none

/-- The character that follows a backslash. -/
def readEscape (e : Edition) : List Char → Option (Char × List Char)
  | 'u' :: rest => codePoint? 4 rest
  | 'U' :: rest => codePoint? 8 rest
  | 'x' :: rest => if e.hasShortEscapes then codePoint? 2 rest else none
  | 'e' :: rest => if e.hasShortEscapes then some ('\x1b', rest) else none
  | c :: rest => (escaped? c).map (·, rest)
  | [] => none

/-- What follows a backslash at the end of a line: the text after all blanks and line ends. -/
def joinLines? (cs : List Char) : Option (List Char) :=
  (newline? (skipBlanks cs)).map fun rest =>
    rest.dropWhile fun c => c = ' ' || c = '\t' || c = '\n' || c = '\x0d'

/-- The rest of a string on one line after its opening quote, which also ends it.  Only a string in
    double quotes has escapes.  The counter bounds the number of characters. -/
def readLineString (e : Edition) (quote : Char) : Nat → List Char → Option (List Char × List Char)
  | 0, _ => none
  | _ + 1, [] => none
  | n + 1, c :: cs =>
    if c = quote then some ([], cs)
    else if c = '\\' ∧ quote = '"' then do
      let (c, rest) ← readEscape e cs
      let (text, rest) ← readLineString e quote n rest
      return (c :: text, rest)
    else if isPlain c then do
      let (text, rest) ← readLineString e quote n cs
      return (c :: text, rest)
    else none

/-- The rest of a string over several lines after its opening quotes.  It ends at three quotes; one
    or two more right before them belong to it. -/
def readBlockString (e : Edition) (quote : Char) : Nat → List Char → Option (List Char × List Char)
  | 0, _ => none
  | _ + 1, [] => none
  | n + 1, c :: cs =>
    let quotes := (cs.takeWhile (· = quote)).length + 1
    if c = quote ∧ 3 ≤ quotes then
      let kept := min quotes 5 - 3
      some (List.replicate kept quote, cs.drop (kept + 2))
    else if c = '\\' ∧ quote = '"' then
      match joinLines? cs with
      | some rest => readBlockString e quote n rest
      | none => do
        let (c, rest) ← readEscape e cs
        let (text, rest) ← readBlockString e quote n rest
        return (c :: text, rest)
    else
      match newline? (c :: cs) with
      | some rest => do
        let (text, rest) ← readBlockString e quote n rest
        return ('\n' :: text, rest)
      | none =>
        if isPlain c then do
          let (text, rest) ← readBlockString e quote n cs
          return (c :: text, rest)
        else none

/-- A string on one line, with its quotes. -/
def readQuoted (e : Edition) : List Char → Option (String × List Char)
  | quote :: cs =>
    if quote = '"' ∨ quote = '\'' then
      (readLineString e quote (cs.length + 1) cs).map fun (text, rest) => (String.ofList text, rest)
    else none
  | [] => none

/-- A string in any notation, with its quotes.  A line end right after three opening quotes does not
    belong to the string. -/
def readString (e : Edition) (cs : List Char) : Option (String × List Char) :=
  match cs with
  | '"' :: '"' :: '"' :: body =>
    (readBlockString e '"' (body.length + 1) ((newline? body).getD body)).map
      fun (text, rest) => (String.ofList text, rest)
  | '\'' :: '\'' :: '\'' :: body =>
    (readBlockString e '\'' (body.length + 1) ((newline? body).getD body)).map
      fun (text, rest) => (String.ofList text, rest)
  | _ => readQuoted e cs

/-! ### Keys -/

/-- The character may stand in a key without quotes. -/
def isKeyChar (c : Char) : Bool :=
  c.isAlphanum || c = '_' || c = '-'

/-- One part of a key: without quotes, or a string on one line. -/
def readKeyPart (e : Edition) (cs : List Char) : Option (String × List Char) :=
  match cs.span isKeyChar with
  | ([], _) => readQuoted e cs
  | (name, rest) => some (String.ofList name, rest)

/-- A key: parts with dots between them, and blanks around the dots.  The counter bounds the number
    of parts. -/
def readKeyParts (e : Edition) : Nat → List Char → Option (List String × List Char)
  | 0, _ => none
  | n + 1, cs => do
    let (part, rest) ← readKeyPart e (skipBlanks cs)
    match skipBlanks rest with
    | '.' :: rest =>
      let (parts, rest) ← readKeyParts e n rest
      return (part :: parts, rest)
    | rest => return ([part], rest)

/-- A key with the blanks around it. -/
def readKey (e : Edition) (cs : List Char) : Option (List String × List Char) :=
  (readKeyParts e (cs.length + 1) cs).filter fun (parts, _) => parts.length ≤ e.keyParts

/-! ### Numbers and dates -/

/-- Digits with single underscores between them, the underscores left out. -/
def plainDigits? (base : Nat) : List Char → Option (List Char)
  | [] => none
  | [d] => (digitValue? base d).map fun _ => [d]
  | d :: '_' :: rest => do
    let _ ← digitValue? base d
    return d :: (← plainDigits? base rest)
  | d :: rest => do
    let _ ← digitValue? base d
    return d :: (← plainDigits? base rest)

/-- A sign and what follows it. -/
def takeSign : List Char → List Char × List Char
  | '+' :: rest => ([], rest)
  | '-' :: rest => (['-'], rest)
  | cs => ([], cs)

/-- The value of a row of decimal digits without a needless leading zero. -/
def decimal? (cs : List Char) : Option Nat := do
  let digits ← plainDigits? 10 cs
  if digits.head? = some '0' ∧ digits ≠ ['0'] then none else digitsValue? 10 0 digits

/-- The value of a row of digits in a base. -/
def based? (base : Nat) (cs : List Char) : Option Int :=
  ((plainDigits? base cs).bind (digitsValue? base 0)).map fun n => (n : Int)

/-- An integer: decimal with an optional sign, or without sign in base sixteen, eight or two. -/
def integer? (e : Edition) (cs : List Char) : Option Int := do
  let value : Int ← match cs with
    | '0' :: 'x' :: digits => based? 16 digits
    | '0' :: 'o' :: digits => based? 8 digits
    | '0' :: 'b' :: digits => based? 2 digits
    | _ =>
      match takeSign cs with
      | (['-'], digits) => (decimal? digits).map fun n => -(n : Int)
      | (_, digits) => (decimal? digits).map fun n => (n : Int)
  if e.leastInteger ≤ value ∧ value ≤ e.greatestInteger then some value else none

/-- The word is an exponent, or empty. -/
def isExponent : List Char → Bool
  | [] => true
  | e :: cs => (e = 'e' || e = 'E') && (plainDigits? 10 (takeSign cs).2).isSome

/-- The word is a number with a fraction or an exponent, or one that is not finite. -/
def isReal (cs : List Char) : Bool :=
  let body := (takeSign cs).2
  let whole := body.takeWhile fun c => c.isDigit || c = '_'
  match body.drop whole.length with
  | [] => false
  | '.' :: rest =>
    let fraction := rest.takeWhile fun c => c.isDigit || c = '_'
    (decimal? whole).isSome && (plainDigits? 10 fraction).isSome &&
      isExponent (rest.drop fraction.length)
  | rest =>
    body = "inf".toList || body = "nan".toList || ((decimal? whole).isSome && isExponent rest)

/-- The word is a number that the edition takes for too large. -/
def isTooLarge (e : Edition) (cs : List Char) : Bool :=
  !(e.hasHugeNegatives && cs.head? = some '-') &&
    (Decimal.exact (.ofChars (cs.filter (· ≠ '_')))).isHuge

/-- The value of exactly two digits, within bounds. -/
def twoDigits? (least most : Nat) (a b : Char) : Option Nat := do
  let n := 10 * (← digitValue? 10 a) + (← digitValue? 10 b)
  if least ≤ n ∧ n ≤ most then some n else none

/-- The number of days of a month. -/
def daysIn (year month : Nat) : Nat :=
  if month = 2 then
    if year % 4 = 0 ∧ (year % 100 ≠ 0 ∨ year % 400 = 0) then 29 else 28
  else if month ∈ [4, 6, 9, 11] then 30
  else 31

/-- The text after a date. -/
def afterDate? : List Char → Option (List Char)
  | y₁ :: y₂ :: y₃ :: y₄ :: '-' :: m₁ :: m₂ :: '-' :: d₁ :: d₂ :: rest => do
    let year ← digitsValue? 10 0 [y₁, y₂, y₃, y₄]
    let month ← twoDigits? 1 12 m₁ m₂
    let _ ← twoDigits? 1 (daysIn year month) d₁ d₂
    return rest
  | _ => none

/-- The text after the seconds of a time of day, with or without a fraction. -/
def afterSeconds? : List Char → Option (List Char)
  | s₁ :: s₂ :: rest => do
    let _ ← twoDigits? 0 60 s₁ s₂
    match rest with
    | '.' :: rest =>
      if (rest.takeWhile Char.isDigit).isEmpty then none else some (rest.dropWhile Char.isDigit)
    | _ => some rest
  | _ => none

/-- The text after a time of day. -/
def afterTime? (e : Edition) : List Char → Option (List Char)
  | h₁ :: h₂ :: ':' :: m₁ :: m₂ :: rest => do
    let _ ← twoDigits? 0 23 h₁ h₂
    let _ ← twoDigits? 0 59 m₁ m₂
    match rest with
    | ':' :: rest => afterSeconds? rest
    | _ => if e.hasShortTimes then some rest else none
  | _ => none

/-- The word is a distance from universal time, or empty. -/
def isOffset : List Char → Bool
  | [] => true
  | ['Z'] | ['z'] => true
  | [sign, h₁, h₂, ':', m₁, m₂] =>
    (sign = '+' || sign = '-') && (twoDigits? 0 23 h₁ h₂).isSome && (twoDigits? 0 59 m₁ m₂).isSome
  | _ => false

/-- The word is a date, a time of day, or both. -/
def isDateTime (e : Edition) (cs : List Char) : Bool :=
  match afterDate? cs with
  | some [] => true
  | some (mark :: rest) =>
    (mark = 'T' || mark = 't' || mark = ' ') && (afterTime? e rest).any isOffset
  | none => afterTime? e cs = some []

/-- The value of a word.  A date is an object that holds its text. -/
def scalar? (e : Edition) (word : List Char) : Option Json :=
  if word = "true".toList then some (.bool true)
  else if word = "false".toList then some (.bool false)
  else
    match integer? e word with
    | some n => some (.int n)
    | none =>
      if isReal word then
        if isTooLarge e word then none else some (.real (String.ofList word))
      else if isDateTime e word then some (.obj [("date", .str (String.ofList word))])
      else none

/-- The character may stand in a word. -/
def isWordChar (c : Char) : Bool :=
  c.isAlphanum || c = '+' || c = '-' || c = '_' || c = '.' || c = ':'

/-- The value of the word that a text starts with.  A blank may stand between a date and a time. -/
def readScalar (e : Edition) (cs : List Char) : Option (Json × List Char) :=
  let (word, rest) := cs.span isWordChar
  let (word, rest) :=
    match afterDate? word, rest with
    | some [], ' ' :: more =>
      let (time, after) := more.span isWordChar
      if time.head?.any Char.isDigit then (word ++ ' ' :: time, after) else (word, rest)
    | _, _ => (word, rest)
  (scalar? e word).map (·, rest)

end InheritDoc.Toml
