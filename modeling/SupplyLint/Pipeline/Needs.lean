import SupplyLint.Pipeline.Basic
import SupplyLint.Pipeline.Problem

/-! The needs of jobs. Each job names the jobs that it waits for; names of no job and needs that
would close a cycle are taken out, with a problem for each, so that what is left orders the jobs.

The cycles are looked for by walks that start at the jobs in their order and go from a job to its
needs. A need closes a cycle when it is on the way of the walk that meets it. -/
set_option autoImplicit false

namespace SupplyLint.Needs

/-- The jobs that a walk is through with, and the needs that they keep. -/
abbrev Finished := Keyed String (List String)

def location (name : String) : String :=
  "jobs." ++ name ++ ".needs"

def unknownMessage (name need : String) : String :=
  "job '" ++ name ++ "' needs unknown job '" ++ need ++ "'"

def cycleMessage (name need : String) : String :=
  "dependency cycle: '" ++ name ++ "' needs '" ++ need ++ "'"

def keepKnown (jobs : Jobs) (path name : String) : List String → Noted (List String)
  | [] => pure []
  | need :: rest => do
    if jobs.has need then
      return need :: (← keepKnown jobs path name rest)
    else
      Noted.note .unresolved path (unknownMessage name need) (location name)
      keepKnown jobs path name rest

def dropUnknown (jobs : Jobs) (path : String) : Jobs → Noted Jobs
  | [] => pure []
  | (key, job) :: rest => do
    let needs ← keepKnown jobs path job.name job.needs
    return (key, { job with needs := needs }) :: (← dropUnknown jobs path rest)

def needsOf (jobs : Jobs) (name : String) : List String :=
  (jobs.get? name).elim [] (·.needs)

/-- Follows the needs of a job one by one. `way` holds the job and those that led to it. -/
def follow (walk : Finished → String → Noted Finished) (path name : String) (way : List String) :
    List String → Finished → Noted (List String × Finished)
  | [], finished => pure ([], finished)
  | need :: rest, finished => do
    if way.contains need then
      Noted.note .unresolved path (cycleMessage name need) (location name)
      follow walk path name way rest finished
    else
      let reached ← if finished.has need then pure finished else walk finished need
      let (kept, last) ← follow walk path name way rest reached
      return (need :: kept, last)

/-- Walks from a job. No way is longer than the number of jobs, so that number is budget enough. -/
def walkFrom (jobs : Jobs) (path : String) :
    Nat → List String → Finished → String → Noted Finished
  | 0, _, finished, _ => pure finished
  | budget + 1, above, finished, name => do
    let way := name :: above
    let (kept, last) ←
      follow (walkFrom jobs path budget way) path name way (needsOf jobs name) finished
    return last.put name kept

def walkAll (jobs : Jobs) (path : String) : List String → Finished → Noted Finished
  | [], finished => pure finished
  | name :: rest, finished => do
    let reached ←
      if finished.has name then pure finished
      else walkFrom jobs path jobs.length [] finished name
    walkAll jobs path rest reached

def withNeeds (finished : Finished) (jobs : Jobs) : Jobs :=
  jobs.map fun entry =>
    (entry.1, { entry.2 with needs := (finished.get? entry.2.name).getD entry.2.needs })

/-- The jobs with the needs that name jobs and close no cycle. -/
def validate (jobs : Jobs) (path : String) : Noted Jobs := do
  let known ← dropUnknown jobs path jobs
  let finished ← walkAll known path (known.ordered.map (·.name)) []
  return withNeeds finished known

end SupplyLint.Needs
