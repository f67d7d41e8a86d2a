import InheritDoc.Id.Encode
import InheritDoc.Markup.Token

namespace InheritDoc

open Markup (ReadError)

/-!
# Why a run fails

* `RunError` : the causes, each with what it is about;
* `code`, `message`, `cause?`, `suggestions` : how a cause is presented.
-/

/-- Why a run fails. -/
inductive RunError where
  | fileRead (path reason : String)
  | markup (path : String) (error : ReadError Nat)
  | descriptors (path reason : String)
  | encode (error : EncodeError)
  | config (reason : String)
  | general (reason : String)
  deriving Inhabited

namespace RunError

/-- A failure that says what was being done. -/
def inContext (context reason : String) : RunError :=
  .general (context ++ ": " ++ reason)

/-- The stable name of the kind of failure. -/
def code : RunError → String
  | .fileRead _ _ => "FILE_READ_ERROR"
  | .markup _ _ => "XML_ERROR"
  | .descriptors _ _ => "DESCRIPTOR_ERROR"
  | .encode _ => "INVALID_DESCRIPTOR"
  | .config _ => "CONFIG_ERROR"
  | .general _ => "GENERAL_ERROR"

/-- The wording of a failure. -/
def message : RunError → String
  | .fileRead path reason => "Failed to read file '" ++ path ++ "': " ++ reason
  | .markup path e => "Failed to parse documentation file '" ++ path ++ "': " ++ e.message
  | .descriptors path reason => "Failed to read descriptors from '" ++ path ++ "': " ++ reason
  | .encode e => "Invalid descriptor: " ++ e.message
  | .config reason => "Invalid configuration: " ++ reason
  | .general reason => reason

/-- What lies behind a failure, if it is the failure of a part. -/
def cause? : RunError → Option String
  | .fileRead _ reason => some reason
  | .markup _ e => some e.message
  | .descriptors _ reason => some reason
  | .encode e => some e.message
  | .config _ => none
  | .general _ => none

/-- What the user can do about a failure. -/
def suggestions : RunError → List String
  | .fileRead _ _ =>
    ["Check that the file exists and you have read permissions",
      "Ensure the file is not locked by another process"]
  | .markup _ _ =>
    ["Regenerate the documentation file with the compiler's documentation output enabled",
      "Check the file for truncated or hand-edited member entries"]
  | .descriptors _ _ | .encode _ =>
    ["The descriptor file was produced by an incompatible analyzer",
      "Re-run the structural analysis for this assembly"]
  | .config _ => ["Run 'docweave init --force' to regenerate the configuration"]
  | .general _ => []

end RunError

end InheritDoc
