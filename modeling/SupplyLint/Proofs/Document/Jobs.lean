import SupplyLint.Pipeline.Document
import SupplyLint.Proofs.Github.JobNames
import SupplyLint.Proofs.Gitlab.JobNames

/-! # The jobs of the pipeline of a document

The jobs of a pipeline stand under their own names, and their needs order them.
`pipeline_keeps_jobs_iff`: they stand at their places and none of them is lost
exactly when no two jobs that the document holds, calls or triggers have one
name. -/
set_option autoImplicit false

namespace SupplyLint.Document

open SupplyLint.Jobs
open SupplyLint.Needs

/-- The names of the jobs that a document holds and of those that it calls or triggers. -/
def jobNames (resolve : Resolver) (document : Document) : Except Failure (List String) :=
  match document.platform with
  | .github => Github.documentNames resolve document.path document.content
  | .gitlab => Gitlab.documentNames resolve document.path document.content
  | .other value => .error (unknownPlatform value)

theorem pipeline_settled {resolve : Resolver} {document : Document} {pipeline : Pipeline}
    (read : outcome (document.pipeline resolve) = .ok pipeline) :
    ∃ names, document.jobNames resolve = .ok names ∧ Settled names pipeline.jobs := by
  unfold Document.pipeline at read
  unfold jobNames
  cases platform : document.platform with
  | github =>
    rw [platform] at read
    exact Github.normalize_settled read
  | gitlab =>
    rw [platform] at read
    exact Gitlab.normalize_settled read
  | other value =>
    rw [platform, outcome_throw] at read
    cases read

/-! ## Needs -/

/-- What is left of needs orders the jobs, and leaves nothing to take out: of any jobs that are
keyed by their names, and so of the jobs of every document. -/
theorem needs_order_jobs :
    (∀ (jobs : Jobs) (path : String), WellKeyed jobs →
      Validated jobs path (validate jobs path) ∧
        ∀ again, validate (validate jobs path).value again = pure (validate jobs path).value) ∧
    ∀ (resolve : Resolver) (document : Document) (pipeline : Pipeline),
      outcome (document.pipeline resolve) = .ok pipeline →
        (∀ entry ∈ pipeline.jobs, ∀ need ∈ entry.2.needs, pipeline.jobs.has need = true) ∧
          Acyclic (Waits pipeline.jobs) := by
  constructor
  · intro jobs path keyed
    have validated := validate_validated keyed path
    refine ⟨validated, ?_⟩
    obtain ⟨finished, problems, -, value⟩ := validate_value keyed path
    have keyedOut : WellKeyed (validate jobs path).value := by
      rw [value]
      exact wellKeyed_mapNeeds keyed (fun job => settle finished (restrict jobs job)) (fun _ => rfl)
    exact validate_of_acyclic keyedOut validated.known validated.acyclic
  · intro resolve document pipeline read
    obtain ⟨names, -, before, path, placed, jobs⟩ := pipeline_settled read
    have validated := validate_validated placed.keyed path
    rw [jobs]
    exact ⟨validated.known, validated.acyclic⟩

def ofText (platform : Platform) (path text : String) : Document :=
  ⟨platform, path, text.toUTF8.data.toList⟩

def crossedJobs : Jobs :=
  [("a", { name := "a", index := 0, needs := ["b", "x", "a"] }),
   ("b", { name := "b", index := 1, needs := ["a"] })]

def crossedDocument : Document :=
  ofText .github "w.yml" "jobs:\n a:\n  needs: [b, x, a]\n b:\n  needs: a\n"

theorem crossed_jobs_in_order :
    WellKeyed crossedJobs ∧
      Acyclic (Waits (validate crossedJobs "w.yml").value) ∧
      validate (validate crossedJobs "w.yml").value "w.yml" =
        pure (validate crossedJobs "w.yml").value ∧
      ∃ pipeline, outcome (crossedDocument.pipeline Source.none) = .ok pipeline ∧
        pipeline.jobs.keys = ["a", "b"] ∧ Acyclic (Waits pipeline.jobs) := by
  have keyed : WellKeyed crossedJobs := ⟨by decide, by simp [crossedJobs]⟩
  obtain ⟨validated, again⟩ := needs_order_jobs.1 crossedJobs "w.yml" keyed
  have keys : ((outcome (crossedDocument.pipeline Source.none)).toOption.map (·.jobs.keys)) =
      some ["a", "b"] := by decide +kernel
  obtain ⟨pipeline, read, found⟩ := toOption_map_eq_some.mp keys
  exact ⟨keyed, validated.acyclic, again "w.yml", pipeline, read, found,
    (needs_order_jobs.2 Source.none crossedDocument pipeline read).2⟩

/-! ## Names and places -/

/-- The jobs of a pipeline stand under their names and in their order, and there are as many as
names. -/
structure KeepsJobs (names : List String) (pipeline : Pipeline) : Prop where
  named : ∀ entry ∈ pipeline.jobs, entry.1 = entry.2.name
  indices : pipeline.jobs.indices = positions pipeline.jobs.length
  ordered : pipeline.orderedJobs = pipeline.jobs.values
  count : pipeline.jobs.length = names.length

theorem pipeline_keeps_jobs_iff (resolve : Resolver) (document : Document) (pipeline : Pipeline)
    (read : outcome (document.pipeline resolve) = .ok pipeline) :
    (∀ entry ∈ pipeline.jobs, entry.1 = entry.2.name) ∧
      ∃ names, document.jobNames resolve = .ok names ∧
        (KeepsJobs names pipeline ↔ names.Nodup) := by
  obtain ⟨names, listed, settled⟩ := pipeline_settled read
  have placed := settled.placed
  refine ⟨placed.keyed.named, names, listed, ?_⟩
  constructor
  · intro keeps
    by_contra collision
    have fewer := placed.fewer collision
    rw [keeps.count] at fewer
    exact Nat.lt_irrefl _ fewer
  · intro distinct
    obtain ⟨keys, indices⟩ := placed.inOrder distinct
    refine ⟨placed.keyed.named, indices, ordered_eq_values indices, ?_⟩
    rw [← keys, Keyed.length_keys]

def oneFile (path text : String) : Resolver := fun wanted =>
  if wanted = path then .ok (some text.toUTF8.data.toList) else .ok none

def triggering (first : String) : Document :=
  ofText .gitlab "a.yml"
    (first ++ ":\n script: b\nt:\n trigger:\n  include: c.yml\nu:\n script: b\n")

def triggered : Resolver :=
  oneFile "c.yml" "x:\n script: a\n"

theorem triggered_jobs_keep_places :
    ∃ pipeline, outcome ((triggering "s").pipeline triggered) = .ok pipeline ∧
      KeepsJobs ["s", "t", "t/x", "u"] pipeline := by
  have returned : (outcome ((triggering "s").pipeline triggered)).toOption.isSome = true := by
    decide +kernel
  have listed : ((triggering "s").jobNames triggered).toOption = some ["s", "t", "t/x", "u"] := by
    decide +kernel
  obtain ⟨pipeline, read⟩ := Option.isSome_iff_exists.mp returned
  have ok := toOption_eq_some.mp read
  obtain ⟨-, names, found, keeps⟩ := pipeline_keeps_jobs_iff triggered (triggering "s") pipeline ok
  rw [found] at listed
  obtain rfl := Option.some.inj listed
  exact ⟨pipeline, ok, keeps.mpr (by decide)⟩

/-- The triggered job takes the place of a job of the name that it gets: there are three jobs for
four names, and two of them have one index. -/
theorem colliding_name_loses_job :
    ∃ pipeline, outcome ((triggering "t/x").pipeline triggered) = .ok pipeline ∧
      (triggering "t/x").jobNames triggered = .ok ["t/x", "t", "t/x", "u"] ∧
      pipeline.jobs.keys = ["t/x", "t", "u"] ∧ pipeline.jobs.indices = [2, 1, 2] ∧
      ¬ KeepsJobs ["t/x", "t", "t/x", "u"] pipeline := by
  have found : ((outcome ((triggering "t/x").pipeline triggered)).toOption.map fun pipeline =>
      (pipeline.jobs.keys, pipeline.jobs.indices)) = some (["t/x", "t", "u"], [2, 1, 2]) := by
    decide +kernel
  have listed : ((triggering "t/x").jobNames triggered).toOption =
      some ["t/x", "t", "t/x", "u"] := by
    decide +kernel
  obtain ⟨pipeline, read, jobs⟩ := toOption_map_eq_some.mp found
  obtain ⟨keys, indices⟩ := Prod.mk.inj jobs
  refine ⟨pipeline, read, toOption_eq_some.mp listed, keys, indices, ?_⟩
  intro keeps
  have count := keeps.count
  rw [← Keyed.length_keys, keys] at count
  exact absurd count (by decide)

end SupplyLint.Document
