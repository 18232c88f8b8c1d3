import VersionedContent.Json.Fragment
import VersionedContent.Options

/-!
What can go wrong outside the engine: a file that cannot be read or written, a malformed dump, a
malformed options file, or a value that cannot be used.
-/

set_option autoImplicit false

namespace VersionedContent

/-- A failure that is reported to the caller. -/
inductive Failure
  /-- A file could not be read or written. -/
  | file
  | json (problem : Json.Problem)
  /-- Malformed options file. -/
  | config
  | invalid (misuse : Misuse)
deriving DecidableEq, Repr

/-- The text of a failure. -/
def Failure.message : Failure → String
  | .file => "IO"
  | .json _ => "json"
  | .config => "config"
  | .invalid misuse => misuse.message

end VersionedContent
