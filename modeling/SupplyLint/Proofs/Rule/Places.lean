import SupplyLint.Proofs.Placement
import SupplyLint.Proofs.Rule.Checks

/-! # What findings are about

A finding of the standard rules is about the pipeline, about one of its jobs or
about a step of a job, and its file and its line are those of what it is about. -/
set_option autoImplicit false

namespace SupplyLint

/-- What a finding can be about: the pipeline, one of its jobs, or a step of such a job. -/
inductive Pipeline.Holds (pipeline : Pipeline) : Option Job → Option Step → Prop
  | whole : Holds pipeline none none
  | job {job : Job} : job ∈ pipeline.jobs.values → Holds pipeline (some job) none
  | step {job : Job} {step : Step} : job ∈ pipeline.jobs.values → step ∈ job.steps →
      Holds pipeline (some job) (some step)

/-- A finding that is made for something that a pipeline holds. -/
def Finding.IsAbout (pipeline : Pipeline) (finding : Finding) : Prop :=
  ∃ rule title message job step evidence, pipeline.Holds job step ∧
    finding = Finding.make rule title message pipeline job step evidence

theorem Pipeline.mem_orderedJobs {pipeline : Pipeline} {job : Job} :
    job ∈ pipeline.orderedJobs ↔ job ∈ pipeline.jobs.values := by
  rw [Pipeline.orderedJobs, Jobs.ordered, List.mem_mergeSort]

theorem Finding.isAbout_make {pipeline : Pipeline} {job : Option Job} {step : Option Step}
    (holds : pipeline.Holds job step) (rule title message : String) (evidence : Evidence) :
    (Finding.make rule title message pipeline job step evidence).IsAbout pipeline :=
  ⟨rule, title, message, job, step, evidence, holds, rfl⟩

theorem Finding.IsAbout.path {pipeline : Pipeline} {finding : Finding}
    (about : finding.IsAbout pipeline) :
    finding.path = pipeline.path ∨ ∃ job ∈ pipeline.jobs.values, finding.path = job.originPath := by
  obtain ⟨rule, title, message, job, step, evidence, holds, rfl⟩ := about
  have reported (job : Job) (member : job ∈ pipeline.jobs.values) :
      (Finding.make rule title message pipeline (some job) step evidence).path = pipeline.path ∨
        ∃ other ∈ pipeline.jobs.values,
          (Finding.make rule title message pipeline (some job) step evidence).path =
            other.originPath := by
    by_cases nameless : job.originPath = ""
    · exact Or.inl (if_pos nameless)
    · exact Or.inr ⟨job, member, if_neg nameless⟩
  cases holds with
  | whole => exact Or.inl rfl
  | job member => exact reported _ member
  | step member inside => exact reported _ member

namespace Rule

/-- A rule whose findings are about what a pipeline holds. -/
def Locates (rule : Rule) : Prop :=
  ∀ pipeline, Yields (Finding.IsAbout pipeline) (rule.check pipeline)

/-! ## The standard rules -/

namespace UnpinnedPackage

theorem yields_findingsFor {pipeline : Pipeline} {job : Option Job} {step : Option Step}
    (holds : pipeline.Holds job step) (refs : List PackageRef) :
    Yields (Finding.IsAbout pipeline) (findingsFor pipeline job step refs) := by
  refine yields_bind fun unpinned _ => yields_mapM fun ref _ made found => ?_
  obtain ⟨title, message, evidence, rfl⟩ := finding_eq_ok found
  exact Finding.isAbout_make holds _ _ _ _

theorem locates : Locates ⟨id, check⟩ := by
  intro pipeline
  refine yields_append_flatten (yields_findingsFor .whole _) fun job ordered => ?_
  have member := Pipeline.mem_orderedJobs.mp ordered
  exact yields_append_flatten (yields_findingsFor (.job member) _) fun step inside =>
    yields_findingsFor (.step member inside) _

end UnpinnedPackage

theorem SelfHostedRunner.locates : Locates ⟨id, check⟩ := by
  intro pipeline
  refine yields_flatten fun job ordered => ?_
  unfold jobFindings
  split
  · exact yields_ok (by simp)
  · refine yields_bind fun labels _ => yields_bind fun unknown _ => ?_
    split
    · exact yields_ok (by simp)
    · refine yields_bind fun made found => yields_ok fun other member => ?_
      simp only [finding, bind_eq_ok, pure_eq_ok] at found
      obtain ⟨shown, -, texts, -, rfl⟩ := found
      rw [List.mem_singleton.mp member]
      exact Finding.isAbout_make (.job (Pipeline.mem_orderedJobs.mp ordered)) _ _ _ _

theorem UntrustedCheckout.locates : Locates ⟨id, check⟩ := by
  intro pipeline
  show Yields _ (check pipeline)
  unfold check
  split
  · refine yields_flatten fun job ordered => ?_
    refine yields_bind fun first _ => ?_
    cases first with
    | none => exact yields_ok (by simp)
    | some checkout =>
      refine yields_ok fun made member => ?_
      obtain ⟨step, later, rfl⟩ := List.mem_map.mp member
      have inside : step ∈ job.steps := (List.mem_filter.mp later).1
      exact Finding.isAbout_make (.step (Pipeline.mem_orderedJobs.mp ordered) inside) _ _ _ _
  · exact yields_ok (by simp)

theorem ScriptInjection.locates : Locates ⟨id, check⟩ := by
  intro pipeline
  refine yields_ok fun made member => ?_
  obtain ⟨job, ordered, member⟩ := List.mem_flatMap.mp member
  obtain ⟨step, inside, member⟩ := List.mem_flatMap.mp member
  unfold stepFindings at member
  split at member
  · exact absurd member List.not_mem_nil
  · rw [List.mem_singleton.mp member]
    exact Finding.isAbout_make (.step (Pipeline.mem_orderedJobs.mp ordered) inside) _ _ _ _

theorem AllSecrets.locates : Locates ⟨id, check⟩ := by
  intro pipeline
  show Yields _ (check pipeline)
  unfold check
  split
  · refine yields_ok fun made member => ?_
    obtain ⟨job, found, rfl⟩ := List.mem_map.mp member
    have ordered := (List.mem_filter.mp found).1
    exact Finding.isAbout_make (.job (Pipeline.mem_orderedJobs.mp ordered)) _ _ _ _
  · exact yields_ok (by simp)

namespace DebugLogging

theorem yields_findingsFor {pipeline : Pipeline} {job : Option Job} {step : Option Step}
    (holds : pipeline.Holds job step) (env : Keyed String Value) :
    Yields (Finding.IsAbout pipeline) (findingsFor pipeline job step env) := by
  refine yields_bind fun names _ => ?_
  split
  · exact yields_ok (by simp)
  · refine yields_ok fun made member => ?_
    rw [List.mem_singleton.mp member]
    exact Finding.isAbout_make holds _ _ _ _

theorem locates : Locates ⟨id, check⟩ := by
  intro pipeline
  refine yields_append_flatten (yields_findingsFor .whole _) fun job ordered => ?_
  have member := Pipeline.mem_orderedJobs.mp ordered
  exact yields_append_flatten (yields_findingsFor (.job member) _) fun step inside =>
    yields_findingsFor (.step member inside) _

end DebugLogging

theorem DefaultPermissions.locates : Locates ⟨id, check⟩ := by
  intro pipeline
  show Yields _ (check pipeline)
  unfold check
  split
  · refine yields_ok fun made member => ?_
    obtain ⟨job, found, rfl⟩ := List.mem_map.mp member
    have ordered := (List.mem_filter.mp found).1
    exact Finding.isAbout_make (.job (Pipeline.mem_orderedJobs.mp ordered)) _ _ _ _
  · exact yields_ok (by simp)

theorem locates_standardRules : ∀ rule ∈ standardRules, rule.Locates := by
  simp only [standardRules, List.forall_mem_cons]
  exact ⟨UnpinnedPackage.locates, SelfHostedRunner.locates, UntrustedCheckout.locates,
    ScriptInjection.locates, AllSecrets.locates, DebugLogging.locates, DefaultPermissions.locates,
    fun _ none => absurd none List.not_mem_nil⟩

theorem isAbout_of_mem_evaluate {rules : List Rule} (locates : ∀ rule ∈ rules, rule.Locates)
    {pipeline : Pipeline} {finding : Finding} (member : finding ∈ evaluate rules pipeline) :
    finding.IsAbout pipeline := by
  rw [evaluate, Finding.sorted, List.mem_mergeSort] at member
  obtain ⟨rule, inside, member⟩ := List.mem_flatMap.mp member
  unfold contribution at member
  split at member
  · next findings checked => exact locates rule inside pipeline findings checked finding member
  · rw [List.mem_singleton.mp member]
    exact Finding.isAbout_make .whole _ _ _ _

theorem mem_evaluate_of_check {rules : List Rule} {rule : Rule} (listed : rule ∈ rules)
    {pipeline : Pipeline} {findings : List Finding} (checked : rule.check pipeline = .ok findings)
    {finding : Finding} (member : finding ∈ findings) : finding ∈ evaluate rules pipeline := by
  rw [evaluate, Finding.sorted, List.mem_mergeSort, List.mem_flatMap]
  refine ⟨rule, listed, ?_⟩
  rw [contribution, checked]
  exact member

namespace SelfHostedRunner

def reported {α : Type} (sees : Finding → α) (pipeline : Pipeline) : List Int × Option (List α) :=
  (pipeline.jobs.indices,
    (pipeline.jobs.values.mapM (jobFindings pipeline)).toOption.map fun found =>
    found.flatten.map sees)

theorem check_of_reported {α : Type} {sees : Finding → α} {pipeline : Pipeline} {indices : List Int}
    {seen : List α} (found : reported sees pipeline = (indices, some seen))
    (atPlaces : indices = Jobs.positions indices.length) :
    ∃ findings, check pipeline = .ok findings ∧ findings.map sees = seen := by
  obtain ⟨rfl, checked⟩ := Prod.mk.inj found
  obtain ⟨lists, each, same⟩ := toOption_map_eq_some.mp checked
  have count : pipeline.jobs.indices.length = pipeline.jobs.length := by
    simp [Jobs.indices, Keyed.values]
  rw [count] at atPlaces
  have ordered : pipeline.orderedJobs = pipeline.jobs.values := Jobs.ordered_eq_values atPlaces
  refine ⟨lists.flatten, ?_, same⟩
  rw [check, ordered, each]
  rfl

end SelfHostedRunner

end Rule

end SupplyLint
