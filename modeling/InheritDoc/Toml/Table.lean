import InheritDoc.Json.Basic

namespace InheritDoc.Toml

/-!
# Tables under construction

The statements of a TOML text fill tables step by step, and no value may be given twice.

* `Part`   : what stands under a key so far;
* `Origin` : how a table came to be, which decides what may still be added to it;
* `assign` : give a value to a dotted key of a table;
* `openTable`, `appendTable` : what the two kinds of table headers do;
* `Part.toJson` : the finished value.
-/

/-- How a table came to be: on the way to another table, by a header of its own, or by a dotted
    key. -/
inductive Origin where
  | passed
  | header
  | dotted
  deriving DecidableEq, Repr, Inhabited

/-- What stands under a key: a finished value, a table, or a list of tables, newest first. -/
inductive Part where
  | value (json : Json)
  | table (origin : Origin) (fields : List (String × Part))
  | tables (items : List (List (String × Part)))
  deriving Inhabited

/-- The fields of a table in the order in which they came to be. -/
abbrev Fields := List (String × Part)

/-- Change what stands under a name. -/
def change (name : String) (f : Option Part → Option Part) (fields : Fields) : Option Fields :=
  match fields.lookup name with
  | none => (f none).map fun part => fields ++ [(name, part)]
  | some old =>
    (f (some old)).map fun part =>
      fields.map fun field => if field.1 = name then (name, part) else field

/-- Give a value to a dotted key.  A table that the dots lead through may not have a header of its
    own, and the one that takes the value came to be by a dotted key too. -/
def assign (json : Json) : List String → Fields → Option Fields
  | [] => fun _ => none
  | [name] => change name fun
    | none => some (.value json)
    | some _ => none
  | name :: inner :: rest => change name fun
    | none => (assign json (inner :: rest) []).map (.table .dotted)
    | some (.table .dotted fields) => (assign json (inner :: rest) fields).map (.table .dotted)
    | some (.table .passed fields) =>
      if rest.isEmpty then none else (assign json (inner :: rest) fields).map (.table .passed)
    | some (.tables (newest :: older)) =>
      if rest.isEmpty then none
      else (assign json (inner :: rest) newest).map fun fields => .tables (fields :: older)
    | some _ => none

/-- Work in the table that the names of a header lead to; of several tables in the newest. -/
def within (work : Fields → Option Fields) : List String → Fields → Option Fields
  | [] => work
  | name :: names => change name fun
    | none => (within work names []).map (.table .passed)
    | some (.table origin fields) => (within work names fields).map (.table origin)
    | some (.tables (newest :: older)) =>
      (within work names newest).map fun fields => .tables (fields :: older)
    | some _ => none

/-- Give a table its own header. -/
def openTable (name : String) : Fields → Option Fields :=
  change name fun
    | none => some (.table .header [])
    | some (.table .passed fields) => some (.table .header fields)
    | some _ => none

/-- Add an empty table to a list of tables. -/
def appendTable (name : String) : Fields → Option Fields :=
  change name fun
    | none => some (.tables [[]])
    | some (.tables items) => some (.tables ([] :: items))
    | some _ => none

namespace Part

mutual

/-- The value that a part has become. -/
def toJson : Part → Json
  | .value json => json
  | .table _ fields => .obj (fieldsToJson fields)
  | .tables items => .arr (tablesToJson items).reverse

/-- The fields that the parts of a table have become. -/
def fieldsToJson : List (String × Part) → List (String × Json)
  | [] => []
  | (name, part) :: fields => (name, toJson part) :: fieldsToJson fields

/-- The objects that several tables have become. -/
def tablesToJson : List (List (String × Part)) → List Json
  | [] => []
  | fields :: items => .obj (fieldsToJson fields) :: tablesToJson items

end

end Part

end InheritDoc.Toml
