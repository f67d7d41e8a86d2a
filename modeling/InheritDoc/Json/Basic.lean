namespace InheritDoc

/-!
# JSON values

The values that descriptor files, settings and exports are made of.

* `Json`         : a value; the fields of an object keep their order and may repeat;
* `Json.depth`   : how deeply arrays and objects are nested in a value;
* `Json.isWhole` : every part of a value denotes something;
* `Json.overlay` : one value laid over another: two objects merge field by field, and any other
  value replaces what it is laid over;
* `Json.nest`    : the object that holds a value under a path of names.
-/

/-- A JSON value.  A number is kept as an integer where its literal is one, and as its literal
    otherwise.  A part of a text may be well formed and yet denote nothing, such as a string with
    half of a surrogate pair; it is `void`. -/
inductive Json where
  | null
  | bool (value : Bool)
  | int (value : Int)
  | real (literal : String)
  | str (value : String)
  | arr (items : List Json)
  | obj (fields : List (String × Json))
  | void
  deriving Inhabited

namespace Json

/-! ### Nesting -/

mutual

/-- How deeply arrays and objects are nested: `0` for a value that is neither. -/
def depth : Json → Nat
  | .arr items => depthOfItems items + 1
  | .obj fields => depthOfFields fields + 1
  | _ => 0

/-- The greatest nesting among the items of an array. -/
def depthOfItems : List Json → Nat
  | [] => 0
  | item :: items => max (depth item) (depthOfItems items)

/-- The greatest nesting among the values of an object. -/
def depthOfFields : List (String × Json) → Nat
  | [] => 0
  | (_, value) :: fields => max (depth value) (depthOfFields fields)

end

/-! ### Parts that denote nothing -/

mutual

/-- Every part of the value denotes something. -/
def isWhole : Json → Bool
  | .void => false
  | .arr items => areWhole items
  | .obj fields => fieldsAreWhole fields
  | _ => true

/-- Every part of the items denotes something. -/
def areWhole : List Json → Bool
  | [] => true
  | item :: items => isWhole item && areWhole items

/-- Every part of the fields denotes something. -/
def fieldsAreWhole : List (String × Json) → Bool
  | [] => true
  | (_, value) :: fields => isWhole value && fieldsAreWhole fields

end

/-! ### Building objects -/

/-- A number that is a natural number. -/
def nat (n : Nat) : Json := .int n

/-- A field that is written only when there is a value for it. -/
def optionalField {α : Type} (name : String) (form : α → Json) : Option α → List (String × Json)
  | none => []
  | some a => [(name, form a)]

/-- A field that holds a list and is written only when the list has an item. -/
def listField (name : String) : List Json → List (String × Json)
  | [] => []
  | items => [(name, .arr items)]

/-! ### Laying one value over another -/

/-- The fields with a value put under a name, made out of what stood there. -/
def putField (name : String) (value : Option Json → Json) :
    List (String × Json) → List (String × Json)
  | [] => [(name, value none)]
  | (other, old) :: fields =>
    if other = name then (name, value (some old)) :: fields
    else (other, old) :: putField name value fields

mutual

/-- The value `top` laid over the value `base`, if there is one. -/
def overlay (base : Option Json) : Json → Json
  | .obj fields =>
    match base with
    | some (.obj below) => .obj (overlayFields below fields)
    | _ => .obj (overlayFields [] fields)
  | top => top

/-- The fields of an object laid over the fields `below`. -/
def overlayFields (below : List (String × Json)) : List (String × Json) → List (String × Json)
  | [] => below
  | (name, value) :: fields =>
    overlayFields (putField name (fun old => overlay old value) below) fields

end

/-- The object that holds a value under a path of names. -/
def nest (path : List String) (value : Json) : Json :=
  path.foldr (fun name inner => .obj [(name, inner)]) value

end Json

end InheritDoc
