import SupplyLint.Proofs.Scan.Cleanup
import SupplyLint.Scan.Organization

/-! # Scans that go on at once

The repositories of a listing are taken up one after another while the scans of
those taken up before go on, end in any order, and are cancelled at any time.
What may happen next is a relation between states. `dispatch_is_safe` says what
holds in every state that is reached: how many scans are in flight, when one is
taken up, and what there is at the end. -/
set_option autoImplicit false

namespace SupplyLint.Scan

/-! ## What a scan comes to -/

/-- The same happenings with cancellations among them. -/
inductive Interrupted : List Happening → List Happening → Prop
  | nil : Interrupted [] []
  | keep {happening : Happening} {plain interrupted : List Happening}
      (rest : Interrupted plain interrupted) :
      Interrupted (happening :: plain) (happening :: interrupted)
  | cancel {plain interrupted : List Happening} (rest : Interrupted plain interrupted) :
      Interrupted plain (.cancel :: interrupted)

theorem interrupted_refl (happenings : List Happening) : Interrupted happenings happenings := by
  induction happenings with
  | nil => exact .nil
  | cons happening rest ih => exact .keep ih

/-- What the scan of a repository comes to when nothing goes on beside it. -/
def aloneResult (config : Config) (rules : List Rule) (repository : Repository) :
    Except Failure Outcome :=
  (scanRepository config rules repository false {}).2

/-- What the scan of a repository may come to among others: what it comes to alone, or, once they
are cancelled, what it comes to with a cancellation before it or anywhere within it. A repository
that cancels the scans by itself does so for all of them. -/
inductive MayComeTo (config : Config) (rules : List Rule) (repository : Repository) :
    Bool → Except Failure Outcome → Prop
  | alone (cancelled : Bool)
      (quiet : (scanRepository config rules repository false {}).1.cancelled = false) :
      MayComeTo config rules repository cancelled (aloneResult config rules repository)
  | interrupted {documents : List Happening} (before cancelledThen : Bool)
      (among : Interrupted (repository.documents repository.needsClone) documents) :
      MayComeTo config rules repository true
        (scanRepository config rules { repository with documents := fun _ => documents }
          cancelledThen { cancelled := before }).2

theorem MayComeTo.eq_alone {config : Config} {rules : List Rule} {repository : Repository}
    {result : Except Failure Outcome} (comes : MayComeTo config rules repository false result) :
    result = aloneResult config rules repository := by
  cases comes with
  | alone => rfl

theorem repository_of_scanRepository {config : Config} {rules : List Rule} {repository : Repository}
    {cancelledThen : Bool} {scene : Scene} {outcome : Outcome}
    (scan : (scanRepository config rules repository cancelledThen scene).2 = .ok outcome) :
    outcome.repository = repository.name := by
  cases cancelled : scene.cancelled with
  | true =>
    rw [scanRepository_of_cancelled _ _ _ _ cancelled] at scan
    cases scan
  | false =>
    rw [scanRepository_of_not_cancelled _ _ _ _ cancelled] at scan
    unfold scanFrom at scan
    split at scan
    · cases scan
    · unfold finish at scan
      split at scan
      · cases scan
      · simp only [bind_eq_ok] at scan
        obtain ⟨normalized, -, -, -, findings, -, made⟩ := scan
        obtain rfl := Except.ok.inj made
        rfl

theorem MayComeTo.repository {config : Config} {rules : List Rule} {repository : Repository}
    {cancelled : Bool} {outcome : Outcome}
    (comes : MayComeTo config rules repository cancelled (.ok outcome)) :
    outcome.repository = repository.name := by
  generalize result : Except.ok outcome = ended at comes
  cases comes with
  | alone => exact repository_of_scanRepository result.symm
  | interrupted before cancelledThen among =>
    have named := repository_of_scanRepository result.symm
    exact named

theorem repository_of_isolated {repository : String} {result : Except Failure Outcome}
    {outcome : Outcome} (named : ∀ outcome, result = .ok outcome → outcome.repository = repository)
    (ended : isolated repository result = .ok outcome) : outcome.repository = repository := by
  cases result with
  | ok own =>
    obtain rfl := Except.ok.inj ended
    exact named _ rfl
  | error failure =>
    simp only [isolated] at ended
    split at ended
    · cases ended
    · obtain rfl := Except.ok.inj ended
      rfl

/-! ## States -/

/-- Where the dispatcher is: between two repositories of the listing, with a repository that was
handed out, with one that there is room for, behind the listing, behind the scans that it waits for,
or at the end. A failure is what it ends with. -/
inductive Phase
  | listing (rest : List Repository)
  | holding (repository : Repository) (rest : List Repository)
  | ready (repository : Repository) (rest : List Repository)
  | draining (failure : Option Failure)
  | closing (failure : Option Failure)
  | closed (result : Except Failure (List Outcome))

structure Ended where
  started : Started
  result : Except Failure Outcome

def Ended.outcome? (ended : Ended) : Option Outcome :=
  ended.result.toOption

/-- The failure of a listing, and whether the scan was cancelled when it came. -/
structure Break where
  failure : Failure
  cancelled : Bool

/-- Scans in flight are running, or they have ended and the dispatcher did not look at them yet. -/
structure Pool where
  phase : Phase
  cancelled : Bool
  running : List Started := []
  waiting : List Ended := []
  seen : List Ended := []
  outcomes : List Outcome := []
  submitted : List Started := []
  broken : Option Break := none

namespace Pool

def start (listing : Listing) (cancelled : Bool) : Pool :=
  { phase := .listing listing.repositories, cancelled := cancelled }

def inFlight (pool : Pool) : Nat :=
  pool.running.length + pool.waiting.length

def ended (pool : Pool) : List Ended :=
  pool.seen ++ pool.waiting

def isOver (pool : Pool) : Bool :=
  match pool.phase with
  | .closed _ => true
  | _ => false

def submit (pool : Pool) (repository : Repository) (rest : List Repository) : Pool :=
  let started : Started := ⟨pool.submitted.length, repository⟩
  { pool with
    phase := .listing rest
    running := pool.running ++ [started]
    submitted := pool.submitted ++ [started] }

/-- A running scan ends. Its outcome is there at once; the dispatcher looks at it later. -/
def finish (pool : Pool) (others : List Started) (last : Ended) : Pool :=
  { pool with
    running := others
    waiting := pool.waiting ++ [last]
    outcomes := pool.outcomes ++ last.outcome?.toList }

/-- The dispatcher looks at scans that have ended, which leaves the others. -/
def look (pool : Pool) (phase : Phase) (looked others : List Ended) : Pool :=
  { pool with phase := phase, waiting := others, seen := pool.seen ++ looked }

end Pool

/-- The end of a listing: its failure does not count if it is to fetch it and the scan is
cancelled. -/
def afterBreak (failure : Failure) (cancelled : Bool) : Option Failure :=
  if failure.isFetch && cancelled then none else some failure

def resultOf (failure : Option Failure) (outcomes : List Outcome) : Except Failure (List Outcome) :=
  match failure with
  | none => .ok (byRepository outcomes)
  | some failure => .error failure

section Steps
variable (config : Config) (rules : List Rule) (parallelism : Nat) (ending : Option Failure)

/-- What may happen next. The dispatcher waits only when as many scans as allowed are in flight, and
then only once; to see that the scan is not cancelled and to take up a repository is one step. -/
inductive Step : Pool → Pool → Prop
  | handOut {pool : Pool} {repository : Repository} {rest : List Repository}
      (place : pool.phase = .listing (repository :: rest)) :
      Step pool { pool with phase := .holding repository rest }
  | listed {pool : Pool} (place : pool.phase = .listing []) (whole : ending = none) :
      Step pool { pool with phase := .draining none }
  | breaks {pool : Pool} {failure : Failure} (place : pool.phase = .listing [])
      (failed : ending = some failure) :
      Step pool
        { pool with
          phase := .draining (afterBreak failure pool.cancelled)
          broken := some ⟨failure, pool.cancelled⟩ }
  | pass {pool : Pool} {repository : Repository} {rest : List Repository}
      (place : pool.phase = .holding repository rest) (room : pool.inFlight < parallelism) :
      Step pool { pool with phase := .ready repository rest }
  | look {pool : Pool} {repository : Repository} {rest : List Repository}
      {looked others : List Ended}
      (place : pool.phase = .holding repository rest) (full : parallelism ≤ pool.inFlight)
      (any : looked ≠ []) (parts : pool.waiting.Perm (looked ++ others))
      (fine : ∀ ended ∈ looked, Returns ended.result) :
      Step pool (pool.look (.ready repository rest) looked others)
  | lookFatal {pool : Pool} {repository : Repository} {rest : List Repository}
      {looked others : List Ended} {last : Ended} {failure : Failure}
      (place : pool.phase = .holding repository rest) (full : parallelism ≤ pool.inFlight)
      (parts : pool.waiting.Perm (looked ++ others)) (member : last ∈ looked)
      (fatal : last.result = .error failure) :
      Step pool (pool.look (.draining (some failure)) looked others)
  | submit {pool : Pool} {repository : Repository} {rest : List Repository}
      (place : pool.phase = .ready repository rest) (quiet : pool.cancelled = false) :
      Step pool (pool.submit repository rest)
  | breakOff {pool : Pool} {repository : Repository} {rest : List Repository}
      (place : pool.phase = .ready repository rest) (cancelled : pool.cancelled = true) :
      Step pool { pool with phase := .draining none }
  | finish {pool : Pool} {started : Started} {others : List Started}
      {result : Except Failure Outcome} (open' : pool.isOver = false)
      (parts : pool.running.Perm (started :: others))
      (comes : MayComeTo config rules started.repository pool.cancelled result) :
      Step pool (pool.finish others ⟨started, isolated started.repository.name result⟩)
  | cancel {pool : Pool} (open' : pool.isOver = false) : Step pool { pool with cancelled := true }
  | drain {pool : Pool} {failure : Option Failure} {last : Ended} {others : List Ended}
      (place : pool.phase = .draining failure) (parts : pool.waiting.Perm (last :: others))
      (fine : Returns last.result) : Step pool (pool.look (.draining failure) [last] others)
  | drainFatal {pool : Pool} {failure : Option Failure} {last : Ended} {others : List Ended}
      {fatal : Failure} (place : pool.phase = .draining failure)
      (parts : pool.waiting.Perm (last :: others)) (isFatal : last.result = .error fatal) :
      Step pool (pool.look (.closing (some fatal)) [last] others)
  | close {pool : Pool} {failure : Option Failure} (place : pool.phase = .draining failure)
      (ended : pool.running = []) (looked : pool.waiting = []) :
      Step pool { pool with phase := .closing failure }
  | finally {pool : Pool} {failure : Option Failure} (place : pool.phase = .closing failure)
      (ended : pool.running = []) :
      Step pool { pool with phase := .closed (resultOf failure pool.outcomes) }

end Steps

/-- A state that is reached from the beginning of a listing. -/
def Reaches (config : Config) (rules : List Rule) (parallelism : Nat) (listing : Listing)
    (cancelled : Bool) (pool : Pool) : Prop :=
  Relation.ReflTransGen (Step config rules parallelism listing.failure)
    (Pool.start listing cancelled) pool

end SupplyLint.Scan
