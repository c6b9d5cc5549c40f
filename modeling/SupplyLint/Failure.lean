import SupplyLint.Fault

/-! Failures: why a whole operation ends without a result. A repository can not be fetched, the scan
is cancelled, the settings make no sense, or a value is refused where nothing catches the fault. -/
set_option autoImplicit false

namespace SupplyLint

inductive Failure
  | configuration (message : String)
  | fetch (message repository : String)
  | cancelled (message repository : String)
  | audit (message : String)
  | fault (fault : Fault)

namespace Failure

def message : Failure → String
  | .configuration message => message
  | .fetch message _ => message
  | .cancelled message _ => message
  | .audit message => message
  | .fault cause => cause.message

/-- Whether a repository or the list of them could not be had; a cancelled scan counts. -/
def isFetch : Failure → Bool
  | .fetch _ _ | .cancelled _ _ => true
  | _ => false

def isConfiguration : Failure → Bool
  | .configuration _ => true
  | _ => false

end Failure

/-- A fault that nothing catches ends the whole operation. -/
def uncaught {α : Type} (outcome : Except Fault α) : Except Failure α :=
  outcome.mapError .fault

instance : MonadLift (Except Fault) (Except Failure) :=
  ⟨uncaught⟩

end SupplyLint
