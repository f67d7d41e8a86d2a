import InheritDoc.Inheritance.Expansion
import InheritDoc.Json.Record

namespace InheritDoc

open Json (withDefault)

/-!
# Settings

* `Settings`        : what a user may choose;
* `Settings.toJson` : all settings, grouped in sections;
* `ofJson?`         : settings out of their JSON form, with a default for each one left out.
-/

/-- The settings of the program. -/
structure Settings where
  version : UInt32 := 1
  debug : Bool := false
  logUnmatched : Bool := false
  resolution : Options := {}
  prettyOutput : Bool := true
  deriving DecidableEq, Repr, Inhabited

namespace Options

/-- The JSON form of the options. -/
def toJson (o : Options) : Json :=
  .obj [("resolve_crefs", .bool o.followCrefs),
    ("inherit_undocumented_members", .bool o.inheritUndocumented)]

/-- The options of a JSON form. -/
def ofJson? (j : Json) : Option Options := do
  match ← j.fields? ["resolve_crefs", "inherit_undocumented_members"] with
  | [crefs, undocumented] =>
    return {
      followCrefs := ← withDefault true Json.bool? crefs
      inheritUndocumented := ← withDefault true Json.bool? undocumented }
  | _ => none

end Options

namespace Settings

/-- The JSON form of a section that holds one switch. -/
def switchToJson (name : String) (value : Bool) : Json :=
  .obj [(name, .bool value)]

/-- The switch of a section that holds one. -/
def switchOfJson? (name : String) (default : Bool) (j : Json) : Option Bool := do
  match ← j.fields? [name] with
  | [value] => withDefault default Json.bool? value
  | _ => none

/-- The JSON form of the settings. -/
def toJson (s : Settings) : Json :=
  .obj [("version", .nat s.version.toNat), ("debug", .bool s.debug),
    ("attach", switchToJson "log_unmatched" s.logUnmatched),
    ("resolution", s.resolution.toJson),
    ("output", switchToJson "pretty" s.prettyOutput)]

/-- The settings of a JSON form. -/
def ofJson? (j : Json) : Option Settings := do
  match ← j.fields? ["version", "debug", "attach", "resolution", "output"] with
  | [version, debug, attach, resolution, output] =>
    return {
      version := ← withDefault 1 Json.uint32? version
      debug := ← withDefault false Json.bool? debug
      logUnmatched := ← withDefault false (switchOfJson? "log_unmatched" false) attach
      resolution := ← withDefault {} Options.ofJson? resolution
      prettyOutput := ← withDefault true (switchOfJson? "pretty" true) output }
  | _ => none

end Settings

end InheritDoc
