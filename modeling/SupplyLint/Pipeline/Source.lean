import SupplyLint.Failure
import SupplyLint.Pipeline.Problem
import SupplyLint.Yaml.Load

/-! Where the raw mappings of pipelines come from: the content of documents, and other files of the
same repository. What is no YAML is a problem of its document; a scalar that is no value of its kind
ends the whole reading. -/
set_option autoImplicit false

namespace SupplyLint

/-- The content of a file of the repository, by its path from the root; none where there is no
file. -/
abbrev Resolver := String → Except Failure (Option (List UInt8))

abbrev Normalizing (α : Type) := ExceptT Failure Noted α

/-- The longest chain of files, each opened for the one before it. -/
def maxFiles : Nat := 5

namespace Source

def none : Resolver :=
  fun _ => .ok .none

def documents (path : String) (content : List UInt8) : Normalizing (Option (List Value)) :=
  match Yaml.load content with
  | .ok values => pure (some values)
  | .error .malformed => do
    Noted.note .unparsable path ("invalid YAML: " ++ Yaml.detail) ""
    return .none
  | .error (.fault fault) => throw (.fault fault)

/-- The entries of the document that a file is read for. -/
def mapping (path : String) : List Value → Noted (Option Entries)
  | .map entries :: _ => pure (some entries)
  | _ => do
    Noted.note .unparsable path "document is not a YAML mapping" ""
    return .none

end Source

end SupplyLint
