namespace InheritDoc.Text

/-!
# Numerals

Reading natural numbers written in a positional base, within a bound, and telling in exact
arithmetic whether a decimal literal is too large for a double.

* `digitValue?`       : the value of one digit;
* `numeral?`          : the value of a row of digits, with one optional plus sign before it;
* `Decimal`           : digits times a power of ten, the sign left aside;
* `Decimal.exact`     : the number that a literal denotes;
* `Decimal.condensed` : the same with no more digits than fit 64 bits;
* `Decimal.isHuge`    : the number rounds to infinity;
* `Decimal.isHugeInSteps` : the number rounds to infinity when it is computed in doubles.
-/

/-! ### Digits -/

/-- The value of a digit, letters of either case standing for ten and more. -/
def digitValue? (base : Nat) (c : Char) : Option Nat :=
  let n := c.toNat
  let value :=
    if '0' ≤ c ∧ c ≤ '9' then some (n - 48)
    else if 'a' ≤ c ∧ c ≤ 'z' then some (n - 87)
    else if 'A' ≤ c ∧ c ≤ 'Z' then some (n - 55)
    else none
  value.filter (· < base)

/-- The value of a row of digits, `acc` standing for the digits already read. -/
def digitsValue? (base : Nat) : Nat → List Char → Option Nat
  | acc, [] => some acc
  | acc, c :: cs => (digitValue? base c).bind fun d => digitsValue? base (acc * base + d) cs

/-- The value of a numeral: one optional plus sign and at least one digit.  A value of `bound` or
    more counts as no numeral. -/
def numeral? (base bound : Nat) (cs : List Char) : Option Nat :=
  let digits := match cs with
    | '+' :: rest => rest
    | _ => cs
  if digits.isEmpty then none else (digitsValue? base 0 digits).filter (· < bound)

/-! ### Decimal literals -/

/-- The number `significand * 10 ^ exponent`. -/
structure Decimal where
  significand : Nat
  exponent : Int
  deriving DecidableEq, Repr, Inhabited

/-- The parts of a decimal literal: the digits before and after its point, and its exponent. -/
structure DecimalParts where
  whole : List Char
  fraction : List Char
  exponent : Int
  deriving DecidableEq, Repr, Inhabited

namespace DecimalParts

/-- The text without a sign. -/
def dropSign : List Char → List Char
  | '+' :: rest => rest
  | '-' :: rest => rest
  | cs => cs

/-- The value of a row of decimal digits. -/
def value (digits : List Char) : Nat :=
  (digitsValue? 10 0 digits).getD 0

/-- The exponent that follows the digits of a literal. -/
def exponentOf : List Char → Int
  | _ :: '-' :: digits => -(value digits : Int)
  | _ :: cs => value (dropSign cs)
  | [] => 0

/-- The parts of a literal.  Its form has been checked before. -/
def ofChars (literal : List Char) : DecimalParts :=
  let body := dropSign literal
  let whole := body.takeWhile Char.isDigit
  match body.dropWhile Char.isDigit with
  | '.' :: rest =>
    ⟨whole, rest.takeWhile Char.isDigit, exponentOf (rest.dropWhile Char.isDigit)⟩
  | rest => ⟨whole, [], exponentOf rest⟩

end DecimalParts

namespace Decimal

/-! ### Numbers of literals -/

/-- The number that a literal denotes. -/
def exact (p : DecimalParts) : Decimal :=
  ⟨DecimalParts.value (p.whole ++ p.fraction), p.exponent - p.fraction.length⟩

/-- A number with digits appended to it while it fits 64 bits, and how many digits are left. -/
def append64 : Nat → List Char → Nat × Nat
  | n, [] => (n, 0)
  | n, d :: digits =>
    let longer := 10 * n + DecimalParts.value [d]
    if longer < UInt64.size then append64 longer digits else (n, digits.length + 1)

/-- The number of a literal whose digits are kept as long as they fit 64 bits.  Digits left before
    the point count as zeros, and digits left after it are dropped. -/
def condensed (p : DecimalParts) : Decimal :=
  let (whole, dropped) := append64 0 p.whole
  let (significand, left) := append64 whole p.fraction
  ⟨significand, p.exponent + dropped - (p.fraction.length - left : Nat)⟩

/-! ### The range of doubles -/

/-- The least number that rounds to infinity: half a step above the greatest double. -/
def hugeBound : Nat :=
  Nat.pow 2 1024 - Nat.pow 2 970

/-- The greatest power of ten that is no larger than the greatest double. -/
def greatestPower : Nat := 308

/-- The nearest number of at most 53 significant bits; of two such numbers the even one. -/
def round53 (n : Nat) : Nat :=
  if n < 0x20000000000000 then n
  else
    let unit := Nat.pow 2 (n.log2 - 52)
    let count := n / unit
    let twice := 2 * (n % unit)
    let up := unit < twice || (unit = twice && count % 2 = 1)
    (if up then count + 1 else count) * unit

/-- The number rounds to infinity. -/
def isHuge (d : Decimal) : Bool :=
  match d.exponent with
  | .ofNat e =>
    d.significand ≠ 0 && (greatestPower < e || hugeBound ≤ d.significand * Nat.pow 10 e)
  | .negSucc e =>
    e + 1 < (Nat.toDigits 10 d.significand).length &&
      hugeBound * Nat.pow 10 (e + 1) ≤ d.significand

/-- The number rounds to infinity when its digits and the power of ten are rounded first and then
    multiplied.  A negative exponent divides, which never leads there. -/
def isHugeInSteps (d : Decimal) : Bool :=
  match d.exponent with
  | .ofNat e =>
    d.significand ≠ 0 &&
      (greatestPower < e || hugeBound ≤ round53 d.significand * round53 (Nat.pow 10 e))
  | .negSucc _ => false

end Decimal

end InheritDoc.Text
