import SupplyLint.Pipeline.Field
import SupplyLint.Pipeline.Source

/-! Jobs that extend others. A job is merged over the jobs that it names, in the order in which it
names them, each with what it extends itself. A job that is on the way already, or that does not
exist, is noted and passed over. -/
set_option autoImplicit false

namespace SupplyLint.Gitlab

/-- The top-level entries of a configuration that may be jobs, by name. -/
abbrev RawJobs := Keyed String Value

def rawJob (jobs : RawJobs) (name : String) : Option Entries :=
  match jobs.get? name with
  | some (.map entries) => some entries
  | _ => none

def noteExtends (path name base reason : String) (ending : String) : Noted Unit :=
  Noted.note .unresolved path
    ("'" ++ name ++ "' extends " ++ reason ++ "'" ++ base ++ "'" ++ ending)
    (name ++ ".extends")

/-- Merges the bases of a job one by one. `way` holds the job and those that led to it. -/
def mergeBases (resolveBase : String → Normalizing Entries) (jobs : RawJobs) (path name : String)
    (way : List String) : List String → Entries → Normalizing Entries
  | [], merged => pure merged
  | base :: rest, merged => do
    if way.contains base then
      noteExtends path name base "" " in a cycle"
      mergeBases resolveBase jobs path name way rest merged
    else if (rawJob jobs base).isNone then
      noteExtends path name base "unknown job " ""
      mergeBases resolveBase jobs path name way rest merged
    else
      let resolved ← resolveBase base
      mergeBases resolveBase jobs path name way rest (Field.merge merged resolved)

/-- The entries of a job with those that it extends. A way holds no job twice, so the number of jobs
is budget enough. -/
def resolveWithin (jobs : RawJobs) (path : String) :
    Nat → List String → String → Normalizing Entries
  | 0, _, _ => pure []
  | budget + 1, above, name => do
    let way := above ++ [name]
    let own := (rawJob jobs name).getD []
    let bases ← Field.texts (Value.field own "extends")
    let merged ← mergeBases (resolveWithin jobs path budget way) jobs path name way bases []
    return Field.merge merged (Keyed.erase own (.text "extends"))

def resolveExtends (jobs : RawJobs) (path name : String) : Normalizing Entries :=
  resolveWithin jobs path (jobs.length + 1) [] name

end SupplyLint.Gitlab
