import InheritDoc.Json.Basic

namespace InheritDoc.Json

/-!
# Records in JSON

Reading values of known shapes out of JSON.

* `string?`, `bool?`, `uint32?`, `list?`, `name?` : values of one shape;
* `isKept` : a value can be kept without knowing its shape;
* `fields?` : the values given for the fields of a record;
* `required`, `withDefault`, `optional` : what it means that a field is not given.

A record is an object whose unknown fields are ignored and whose known fields do not repeat, or an
array of its fields in order, of which the last ones may be left out.

A reader of nested values has a counter for the levels that it may descend, one for each array or
object it enters.  What it skips may be nested as deeply as it likes.
-/

/-! ### Values of one shape -/

/-- A string. -/
def string? : Json → Option String
  | .str s => some s
  | _ => none

/-- A truth value. -/
def bool? : Json → Option Bool
  | .bool b => some b
  | _ => none

/-- An integer that fits 32 bits. -/
def uint32? : Json → Option UInt32
  | .int n => if 0 ≤ n ∧ n.toNat < UInt32.size then some (UInt32.ofNat n.toNat) else none
  | _ => none

/-- An array whose items all have one shape. -/
def list? {α : Type} (item? : Json → Option α) : Json → Option (List α)
  | .arr items => items.mapM item?
  | _ => none

/-- An array whose items all have one shape, descending at most so many levels. -/
def listWithin? {α : Type} (item? : Nat → Json → Option α) : Nat → Json → Option (List α)
  | n + 1, .arr items => items.mapM (item? n)
  | _, _ => none

/-- A name out of a fixed set: a string, or an object with that one name and nothing under it. -/
def name? : Nat → Json → Option String
  | _, .str s => some s
  | _ + 1, .obj [(s, .null)] => some s
  | _, _ => none

/-- A name out of a fixed set, in a value that was kept before its shape was known.  An empty object
    also counts as nothing under the name. -/
def keptName? : Json → Option String
  | .obj [(s, .obj [])] => some s
  | j => name? j.depth j

/-- The value can be kept without knowing its shape: every part of it denotes something, and it is
    nested at most so many levels deep. -/
def isKept (levels : Nat) (j : Json) : Bool :=
  j.isWhole && j.depth ≤ levels

/-- A pair of two strings. -/
def stringPair? : Json → Option (String × String)
  | .arr [.str a, .str b] => some (a, b)
  | _ => none

/-! ### Fields of a record -/

/-- The value of a field of an object; nothing at all if the field repeats. -/
def lookup? (fields : List (String × Json)) (name : String) : Option (Option Json) :=
  match fields.filter (·.1 = name) with
  | [] => some none
  | [(_, value)] => some (some value)
  | _ => none

/-- The values given for the fields of a record, in the order of `names`. -/
def fields? (names : List String) : Json → Option (List (Option Json))
  | .obj fields => names.mapM (lookup? fields)
  | .arr items =>
    if items.length ≤ names.length then
      some (items.map some ++ List.replicate (names.length - items.length) none)
    else none
  | _ => none

/-- A field that must be given. -/
def required {α : Type} (shape? : Json → Option α) : Option Json → Option α
  | none => none
  | some value => shape? value

/-- A field with a value for when it is not given. -/
def withDefault {α : Type} (default : α) (shape? : Json → Option α) : Option Json → Option α
  | none => some default
  | some value => shape? value

/-- A field that may be left out or be null. -/
def optional {α : Type} (shape? : Json → Option α) : Option Json → Option (Option α)
  | none => some none
  | some .null => some none
  | some value => (shape? value).map some

end InheritDoc.Json
