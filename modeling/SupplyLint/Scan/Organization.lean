import SupplyLint.Scan.Run

/-! The scan of all repositories of an organization. At most a given number of scans are under way;
once it is reached, the next repository waits until one of them has ended. A failure of one
repository is put into its outcome; only a failure of the configuration ends the scan of the others.
Once the scan is cancelled, no further repository is taken up, and what is under way is waited for.

Which scan ends next is not determined. A schedule names one by its place among those under way. -/
set_option autoImplicit false

namespace SupplyLint.Scan

/-- What a listing gives before it ends, and the failure that it ends with. -/
structure Listing where
  repositories : List Repository
  failure : Option Failure := none

/-- A scan that is under way, numbered in the order of the listing. -/
structure Started where
  number : Nat
  repository : Repository

structure Dispatch where
  underWay : List Started := []
  outcomes : List Outcome := []
  handedOut : Nat := 0
  workdirs : List (Nat × WorkDir) := []
  cancelled : Bool := false
  schedule : List Nat := []

/-- The outcome of a repository whose scan failed, unless the failure is one of the
configuration. -/
def isolated (repository : String) : Except Failure Outcome → Except Failure Outcome
  | .ok outcome => .ok outcome
  | .error failure =>
    if failure.isConfiguration then .error failure
    else .ok { repository := repository, failure := some failure }

namespace Dispatch

/-- The place in a list of the scan that ends next. -/
def turn (dispatch : Dispatch) : Nat :=
  dispatch.schedule.headD 0 % dispatch.underWay.length

def finishOne (config : Config) (rules : List Rule) (dispatch : Dispatch) :
    Dispatch × Option Failure :=
  match dispatch.underWay[dispatch.turn]? with
  | none => (dispatch, none)
  | some started =>
    let (scene, outcome) :=
      scanRepository config rules started.repository false { cancelled := dispatch.cancelled }
    let next :=
      { dispatch with
        underWay := dispatch.underWay.eraseIdx dispatch.turn
        workdirs := dispatch.workdirs ++ [(started.number, scene.workdir)]
        cancelled := scene.cancelled
        schedule := dispatch.schedule.tail }
    match isolated started.repository.name outcome with
    | .ok outcome => ({ next with outcomes := dispatch.outcomes ++ [outcome] }, none)
    | .error failure => (next, some failure)

def makeRoom (config : Config) (rules : List Rule) (parallelism : Nat) (dispatch : Dispatch) :
    Dispatch × Option Failure :=
  if dispatch.underWay.length < parallelism then (dispatch, none)
  else finishOne config rules dispatch

/-- Lets all scans end that are under way; the first failure counts, or else the given one. -/
def drain (config : Config) (rules : List Rule) :
    Nat → Option Failure → Dispatch → Dispatch × Option Failure
  | 0, failure, dispatch => (dispatch, failure)
  | count + 1, failure, dispatch =>
    let (next, failed) := finishOne config rules dispatch
    match failed with
    | none => drain config rules count failure next
    | some first => ((drain config rules count none next).1, some first)

def takeUp (dispatch : Dispatch) (repository : Repository) : Dispatch :=
  { dispatch with
    underWay := dispatch.underWay ++ [⟨dispatch.handedOut - 1, repository⟩] }

/-- Takes up the repositories of a listing until it ends, fails or is cancelled. -/
def takeAll (config : Config) (rules : List Rule) (parallelism : Nat) (ending : Option Failure) :
    List Repository → Dispatch → Dispatch × Option Failure
  | [], dispatch =>
    match ending with
    | some failure =>
      (dispatch, if failure.isFetch && dispatch.cancelled then none else some failure)
    | none => (dispatch, none)
  | repository :: rest, dispatch =>
    let counted := { dispatch with handedOut := dispatch.handedOut + 1 }
    match makeRoom config rules parallelism counted with
    | (next, some failure) => (next, some failure)
    | (next, none) =>
      if next.cancelled then (next, none)
      else takeAll config rules parallelism ending rest (next.takeUp repository)

end Dispatch

def byRepository (outcomes : List Outcome) : List Outcome :=
  outcomes.mergeSort fun x y => !(y.repository < x.repository)

def scanOrganization (config : Config) (rules : List Rule) (parallelism : Int) (listing : Listing)
    (cancelled : Bool) (schedule : List Nat) : Dispatch × Except Failure (List Outcome) :=
  if parallelism < 1 then
    ({ cancelled := cancelled }, .error (.configuration
      ("parallelism must be at least 1, got " ++ toString parallelism)))
  else
    let (taken, failure) :=
      Dispatch.takeAll config rules parallelism.toNat listing.failure listing.repositories
        { cancelled := cancelled, schedule := schedule }
    match Dispatch.drain config rules taken.underWay.length failure taken with
    | (ended, some failure) => (ended, .error failure)
    | (ended, none) => (ended, .ok (byRepository ended.outcomes))

end SupplyLint.Scan
