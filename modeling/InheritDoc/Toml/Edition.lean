namespace InheritDoc.Toml

/-!
# Editions of TOML

The two editions of the format, each with the bounds that its reader sets.

* `Edition`      : what the editions differ in;
* `Edition.v1_0` : the first edition, with integers of 64 bits;
* `Edition.v1_1` : the second edition, with integers of up to 128 bits.
-/

/-- What the editions of the format differ in. -/
structure Edition where
  /-- Line ends, comments and a last comma may stand between braces. -/
  hasOpenBraces : Bool
  /-- A string may have the escapes with the letters `e` and `x`. -/
  hasShortEscapes : Bool
  /-- A time of day may lack its seconds. -/
  hasShortTimes : Bool
  /-- The least integer. -/
  leastInteger : Int
  /-- The greatest integer. -/
  greatestInteger : Int
  /-- A negative number may be too large for a double. -/
  hasHugeNegatives : Bool
  /-- How many parts a key may have. -/
  keyParts : Nat
  /-- How many arrays and inline tables may be nested. -/
  nesting : Nat
  deriving DecidableEq, Repr, Inhabited

namespace Edition

/-- The first edition. -/
def v1_0 : Edition where
  hasOpenBraces := false
  hasShortEscapes := false
  hasShortTimes := false
  leastInteger := -0x8000000000000000
  greatestInteger := 0x7FFFFFFFFFFFFFFF
  hasHugeNegatives := true
  keyParts := 79
  nesting := 79

/-- The second edition. -/
def v1_1 : Edition where
  hasOpenBraces := true
  hasShortEscapes := true
  hasShortTimes := true
  leastInteger := -0x80000000000000000000000000000000
  greatestInteger := 0xFFFFFFFFFFFFFFFFFFFFFFFFFFFFFFFF
  hasHugeNegatives := false
  keyParts := 80
  nesting := 80

end Edition

end InheritDoc.Toml
