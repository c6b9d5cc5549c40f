import SupplyLint.Proofs.Document.Jobs
import SupplyLint.Proofs.Github.Plain
import SupplyLint.Proofs.Gitlab.Plain

/-! # The standard rules on the pipelines of documents

`standard_rules_report_no_fault_iff`: every standard rule gives a result on the
pipeline of a document exactly when the refs of the projects that it includes or
triggers can be looked up for a variable and a hash, and the debug variables
that it sets have a text. Nothing else in a document can keep a rule from giving
its findings. -/
set_option autoImplicit false

namespace SupplyLint.Document

open SupplyLint.Jobs
open SupplyLint.PackageRef
open SupplyLint.Rule

theorem pipeline_plain {resolve : Resolver} {document : Document} {pipeline : Pipeline}
    (read : outcome (document.pipeline resolve) = .ok pipeline) :
    pipeline.jobs.ArePlain IsHashed ∧ ∀ ref ∈ pipeline.includes, ref.IsHashed := by
  unfold Document.pipeline at read
  cases platform : document.platform with
  | github =>
    rw [platform] at read
    obtain ⟨plain, includes⟩ := Github.normalize_plain read
    refine ⟨fun entry member => ?_, by simp [includes]⟩
    have own := plain entry member
    exact ⟨own.labels, own.steps, own.images, fun ref package => (own.package ref package).1⟩
  | gitlab =>
    rw [platform] at read
    exact Gitlab.normalize_plain read
  | other value =>
    rw [platform, outcome_throw] at read
    cases read

def projectRefs (pipeline : Pipeline) : List PackageRef :=
  pipeline.includes ++ pipeline.jobs.values.filterMap (·.package)

theorem forall_pipelineRefs {pipeline : Pipeline} (plain : pipeline.jobs.ArePlain IsHashed) :
    (∀ ref ∈ UnpinnedPackage.pipelineRefs pipeline, ref.IsCheckable) ↔
      ∀ ref ∈ projectRefs pipeline, ref.IsCheckable := by
  simp only [UnpinnedPackage.pipelineRefs, projectRefs, List.mem_append, List.mem_flatMap,
    List.mem_filterMap, UnpinnedPackage.jobRefs]
  constructor
  · rintro all ref (inIncludes | ⟨job, member, package⟩)
    · exact all ref (Or.inl inIncludes)
    · exact all ref (Or.inr ⟨job, member, Or.inl (Or.inr (Option.mem_toList.mpr package))⟩)
  · rintro all ref (inIncludes | ⟨job, member, (inImages | package) | ⟨step, inSteps, inStep⟩⟩)
    · exact all ref (Or.inl inIncludes)
    · exact Or.inr (Or.inl ((plain.of_mem_values member).images ref inImages).2)
    · exact all ref (Or.inr ⟨job, member, Option.mem_toList.mp package⟩)
    · exact Or.inr (Or.inl (((plain.of_mem_values member).steps step inSteps).refs ref inStep).2)

theorem sound_standardRules : ∀ rule ∈ standardRules, Sound rule := by
  simp only [standardRules, List.forall_mem_cons]
  exact ⟨UnpinnedPackage.sound, SelfHostedRunner.sound, UntrustedCheckout.sound,
    sound_scriptInjection, sound_allSecrets, DebugLogging.sound, sound_defaultPermissions,
    by simp⟩

theorem standard_rules : standard.rules = standardRules := rfl

theorem standard_rules_report_no_fault_iff (resolve : Resolver) (document : Document)
    (pipeline : Pipeline) (read : outcome (document.pipeline resolve) = .ok pipeline) :
    (∀ finding ∈ evaluate standard.rules pipeline, finding.rule ≠ evaluationError) ↔
      (∀ ref ∈ projectRefs pipeline, ref.IsCheckable) ∧
        ∀ env ∈ DebugLogging.environments pipeline, DebugLogging.IsReadable env := by
  obtain ⟨plain, includes⟩ := pipeline_plain read
  have packages := (UnpinnedPackage.returns_check
      (plain.forall_pipelineRefs includes fun _ textual => textual.1)).trans
    (forall_pipelineRefs plain)
  have runners : Returns (SelfHostedRunner.check pipeline) :=
    SelfHostedRunner.returns_check fun job member => (plain.of_mem_values member).labels
  have checkouts : Returns (UntrustedCheckout.check pipeline) :=
    UntrustedCheckout.returns_check fun job member step inside =>
      ((plain.of_mem_values member).steps step inside).script
  rw [standard_rules, evaluate_reports_no_fault_iff sound_standardRules]
  simp only [standardRules, List.forall_mem_cons, packages, DebugLogging.returns_check, runners,
    checkouts, returns_scriptInjection, returns_allSecrets, returns_defaultPermissions, true_and,
    List.not_mem_nil, false_implies, implies_true, and_true]

def including (ref : String) : Document :=
  ofText .gitlab "a.yml" ("include:\n project: g/p\n ref: " ++ ref ++ "\n")

theorem text_ref_reports_no_fault :
    ∃ pipeline, outcome ((including "v1").pipeline Source.none) = .ok pipeline ∧
      pipeline.includes.length = 1 ∧
      ∀ finding ∈ evaluate standard.rules pipeline, finding.rule ≠ evaluationError := by
  have found : ((outcome ((including "v1").pipeline Source.none)).toOption.map fun pipeline =>
      (pipeline.includes.map fun ref => ref.ref.searchable.toOption, pipeline.jobs.length,
        pipeline.env.length)) = some ([some "v1"], 0, 0) := by
    decide +kernel
  obtain ⟨pipeline, read, parts⟩ := toOption_map_eq_some.mp found
  simp only [Prod.mk.injEq, List.length_eq_zero_iff] at parts
  obtain ⟨refs, noJobs, noEnv⟩ := parts
  refine ⟨pipeline, read, by simpa using congrArg List.length refs, ?_⟩
  rw [standard_rules_report_no_fault_iff Source.none (including "v1") pipeline read]
  constructor
  · intro ref member
    simp only [projectRefs, noJobs, Keyed.values, List.map_nil, List.filterMap_nil,
      List.append_nil] at member
    have written : ref.ref.searchable.toOption ∈ [some "v1"] :=
      refs ▸ List.mem_map_of_mem (f := fun ref => ref.ref.searchable.toOption) member
    have searched := toOption_eq_some.mp (List.mem_singleton.mp written)
    exact Or.inr (Or.inl (Or.inr ((returns_searchable ref.ref).mp ⟨"v1", searched⟩)))
  · intro env member
    simp only [DebugLogging.environments, noJobs, noEnv, Keyed.values, List.map_nil,
      List.flatMap_nil, List.mem_singleton] at member
    subst member
    intro name _ value found
    cases found

/-- A ref that is a number keeps the rule for pinned packages from giving its findings. -/
theorem numeric_ref_reports_fault :
    ∃ pipeline, outcome ((including "1.1").pipeline Source.none) = .ok pipeline ∧
      ∃ finding ∈ evaluate standard.rules pipeline, finding.rule = evaluationError := by
  have found : ((outcome ((including "1.1").pipeline Source.none)).toOption.map fun pipeline =>
      (UnpinnedPackage.check pipeline).toOption.isNone) = some true := by
    decide +kernel
  obtain ⟨pipeline, read, fails⟩ := toOption_map_eq_some.mp found
  refine ⟨pipeline, read, ?_⟩
  cases checked : UnpinnedPackage.check pipeline with
  | ok findings =>
    rw [checked] at fails
    cases fails
  | error fault =>
    let rule : Rule := ⟨UnpinnedPackage.id, UnpinnedPackage.check⟩
    refine ⟨rule.diagnostic pipeline fault, ?_, rfl⟩
    rw [standard_rules, evaluate, Finding.sorted, List.mem_mergeSort, List.mem_flatMap]
    refine ⟨rule, by simp [rule, standardRules], ?_⟩
    rw [contribution, show rule.check pipeline = .error fault from checked]
    exact List.mem_singleton_self _

end SupplyLint.Document
