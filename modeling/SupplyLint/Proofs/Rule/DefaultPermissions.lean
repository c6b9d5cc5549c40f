import SupplyLint.Proofs.Document.Calls
import SupplyLint.Proofs.Github.Permissions
import SupplyLint.Proofs.Rule.Checks
import SupplyLint.Rule.DefaultPermissions

/-! # Which jobs run with the default permissions

A job of a workflow is reported exactly if nothing on the way to it declares
permissions: not its own mapping, none of the files through which it is called, and
not the workflow (`check_reports_undeclared`). -/
set_option autoImplicit false

namespace SupplyLint.Rule.DefaultPermissions

open SupplyLint.Document (ofText callsOf)
open SupplyLint.Github (ComesWith Declares declared entriesOf isActionMetadata nearest)
open SupplyLint.Text

/-- A pipeline that a privileged event starts, in whatever case it is written. -/
def IsRisky (pipeline : Pipeline) : Prop :=
  ∃ trigger ∈ pipeline.triggers, lower trigger.event ∈ privilegedEvents

/-- A job that calls no other workflow; an empty text calls none. -/
def RunsSteps (job : Job) : Prop :=
  job.uses = none ∨ job.uses = some ""

theorem lower_privilegedEvents : ∀ event ∈ privilegedEvents, lower event = event := by
  decide +kernel

theorem hasAnyEvent_iff {pipeline : Pipeline} :
    hasAnyEvent pipeline privilegedEvents = true ↔ IsRisky pipeline := by
  rw [hasAnyEvent_eq_true_iff]
  refine exists_congr fun trigger => and_congr_right fun _ => ⟨?_, fun privileged => ?_⟩
  · rintro ⟨event, privileged, same⟩
    rw [same, lower_privilegedEvents event privileged]
    exact privileged
  · exact ⟨_, privileged, (lower_privilegedEvents _ privileged).symm⟩

theorem hasDefault_iff {job : Job} :
    hasDefault job = true ↔ job.permissions = none ∧ RunsSteps job := by
  unfold hasDefault RunsSteps
  cases job.uses <;> simp

theorem check_eq (pipeline : Pipeline) (github : pipeline.platform.isGithub = true) :
    ∃ reported : List Job, reported.Sublist pipeline.orderedJobs ∧
      check pipeline = .ok (reported.map (finding pipeline (riskyEvents pipeline))) ∧
      ∀ job ∈ pipeline.orderedJobs, (job ∈ reported ↔
        pipeline.permissions = none ∧ IsRisky pipeline ∧
        job.permissions = none ∧ RunsSteps job) := by
  have guard : (pipeline.platform.isGithub && pipeline.permissions.isNone &&
      hasAnyEvent pipeline privilegedEvents) = true ↔
        pipeline.permissions = none ∧ IsRisky pipeline := by
    rw [github, Bool.true_and, Bool.and_eq_true, Option.isNone_iff_eq_none, hasAnyEvent_iff]
  unfold check
  by_cases holds : pipeline.permissions = none ∧ IsRisky pipeline
  · rw [if_pos (guard.mpr holds)]
    refine ⟨_, List.filter_sublist, rfl, fun job member => ?_⟩
    rw [List.mem_filter, hasDefault_iff]
    exact ⟨fun ⟨_, own⟩ => ⟨holds.1, holds.2, own⟩, fun ⟨_, _, own⟩ => ⟨member, own⟩⟩
  · rw [if_neg (mt guard.mp holds)]
    refine ⟨[], List.nil_sublist _, rfl, fun job _ => ?_⟩
    exact iff_of_false List.not_mem_nil fun ⟨granted, risky, _⟩ => holds ⟨granted, risky⟩

/-- Permissions go down from a called file to the jobs that are called through it, the nearest
first, and a job is reported if none are declared from the workflow down to it. -/
theorem check_reports_undeclared {resolve : Resolver} {path : String} {content : List UInt8}
    {raw : Entries} {pipeline : Pipeline} (holds : entriesOf path content = .ok (some raw))
    (isWorkflow : isActionMetadata path = false)
    (read : outcome (Github.normalize resolve path content) = .ok pipeline) :
    ∃ reported : List Job, reported.Sublist pipeline.orderedJobs ∧
      check pipeline = .ok (reported.map (finding pipeline (riskyEvents pipeline))) ∧
      ∀ job ∈ pipeline.orderedJobs, ∃ callers files mapping,
        ComesWith resolve ⟨[path], raw⟩ callers files mapping job ∧
        job.permissions = nearest mapping files ∧
        (job ∈ reported ↔ ¬ Declares raw ∧ IsRisky pipeline ∧ RunsSteps job ∧
          ¬ Declares mapping ∧ ∀ file ∈ files, ¬ Declares file.entries) := by
  obtain ⟨platform, own, every⟩ := Github.normalize_nearest holds isWorkflow read
  obtain ⟨reported, inOrder, made, exactly⟩ := check_eq pipeline (by rw [platform]; rfl)
  refine ⟨reported, inOrder, made, fun job member => ?_⟩
  obtain ⟨callers, files, mapping, comes⟩ := every.of_mem_values (List.mem_mergeSort.mp member)
  refine ⟨callers, files, mapping, comes, comes.permissions, ?_⟩
  rw [exactly job member, own, comes.permissions, Github.declared_eq_none_iff,
    Github.nearest_eq_none_iff]
  constructor
  · rintro ⟨top, risky, undeclared, steps⟩
    exact ⟨top, risky, steps, undeclared⟩
  · rintro ⟨top, risky, steps, undeclared⟩
    exact ⟨top, risky, undeclared, steps⟩

/-! ## Two calls, one of a file that declares permissions -/

def riskyDocument : Document :=
  ofText .github "r.yml"
    ("on: [Workflow_Run]\njobs:\n a:\n  uses: ./v.yml\n" ++
      " b:\n  uses: ./w.yml\n c:\n  permissions: read-all\n")

def grantingDocument : Document :=
  ofText .github "v.yml" "permissions: {}\njobs:\n x:\n  runs-on: l\n"

def silentDocument : Document :=
  ofText .github "w.yml" "permissions: [x]\njobs:\n x:\n  runs-on: l\n"

def riskyFiles : Resolver :=
  Document.resolver [riskyDocument, grantingDocument, silentDocument] Source.none

theorem called_job_without_permissions_is_reported :
    ∃ raw pipeline, ∃ reported : List Job,
      entriesOf riskyDocument.path riskyDocument.content = .ok (some raw) ∧
      outcome (riskyDocument.pipeline riskyFiles) = .ok pipeline ∧
      check pipeline = .ok (reported.map (finding pipeline (riskyEvents pipeline))) ∧
      pipeline.jobs.keys = ["a", "a/x", "b", "b/x", "c"] ∧
      ∀ job ∈ pipeline.orderedJobs, ∃ callers files mapping,
        ComesWith riskyFiles ⟨["r.yml"], raw⟩ callers files mapping job ∧
        (job ∈ reported ↔ job.name = "b/x") := by
  have loaded : (callsOf riskyDocument).isSome = true := by decide +kernel
  have facts : (outcome (riskyDocument.pipeline riskyFiles)).toOption.map (fun pipeline =>
      (pipeline.jobs.keys, pipeline.permissions.isNone, hasAnyEvent pipeline privilegedEvents,
        pipeline.jobs.values.all fun job => hasDefault job == (job.name == "b/x"))) =
          some (["a", "a/x", "b", "b/x", "c"], true, true, true) := by decide +kernel
  obtain ⟨calls, found⟩ := Option.isSome_iff_exists.mp loaded
  obtain ⟨raw, holds, -⟩ := Document.callsOf_eq_some found
  obtain ⟨pipeline, read, facts⟩ := toOption_map_eq_some.mp facts
  simp only [Prod.mk.injEq, Option.isNone_iff_eq_none, hasAnyEvent_iff, List.all_eq_true] at facts
  obtain ⟨keys, ungranted, risky, defaults⟩ := facts
  obtain ⟨reported, inOrder, made, exactly⟩ :=
    check_reports_undeclared holds (by decide) read
  refine ⟨raw, pipeline, reported, holds, read, made, keys, fun job member => ?_⟩
  obtain ⟨callers, files, mapping, comes, nearest, reports⟩ := exactly job member
  refine ⟨callers, files, mapping, comes, ?_⟩
  have undeclared : ¬ Declares raw := by
    rw [← Github.declared_eq_none_iff, ← (Github.normalize_nearest holds (by decide) read).2.1]
    exact ungranted
  have own : hasDefault job = true ↔ job.name = "b/x" := by
    rw [eq_of_beq (defaults job (List.mem_mergeSort.mp member)), beq_iff_eq]
  rw [reports, ← own, hasDefault_iff, nearest, Github.nearest_eq_none_iff]
  constructor
  · rintro ⟨-, -, steps, silent⟩
    exact ⟨silent, steps⟩
  · rintro ⟨silent, steps⟩
    exact ⟨undeclared, risky, steps, silent⟩

end SupplyLint.Rule.DefaultPermissions
