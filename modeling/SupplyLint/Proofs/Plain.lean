import SupplyLint.Proofs.Placement
import SupplyLint.Proofs.Rule.Checks

/-! # What jobs hold

Whatever a document gives them, the labels and the scripts of a job are texts,
and its actions and images are written references. What else is known of the
package that a job is put together from depends on the platform: a job that
triggers another project keeps a ref of any kind. -/
set_option autoImplicit false

namespace SupplyLint

open SupplyLint.PackageRef
open SupplyLint.Rule

structure Step.IsPlain (step : Step) : Prop where
  script : UntrustedCheckout.HasTextScript step
  refs : ∀ ref ∈ UnpinnedPackage.stepRefs step, ref.IsTextual

structure Job.IsPlain (kept : PackageRef → Prop) (job : Job) : Prop where
  labels : SelfHostedRunner.HasTextLabels job
  steps : ∀ step ∈ job.steps, step.IsPlain
  images : ∀ ref ∈ job.images, ref.IsTextual
  package : ∀ ref, job.package = some ref → kept ref

theorem Step.isPlain_of_run {step : Step} {text : String} {shell : Value}
    (runs : step.action = .run (.text text) shell) : step.IsPlain where
  script := by
    intro script shell action
    rw [runs] at action
    cases action
    exact ⟨text, rfl⟩
  refs := by
    intro ref member
    rw [UnpinnedPackage.stepRefs, runs] at member
    exact absurd member List.not_mem_nil

theorem Step.isPlain_of_uses {step : Step} {text : String} {arguments : Entries}
    (uses : step.action = .uses text (ofAction text) arguments) : step.IsPlain where
  script := by
    intro script shell action
    rw [uses] at action
    cases action
  refs := by
    intro ref member
    rw [UnpinnedPackage.stepRefs, uses] at member
    cases made : ofAction text with
    | none =>
      rw [made] at member
      exact absurd member List.not_mem_nil
    | some package =>
      rw [made] at member
      rw [List.mem_singleton.mp member]
      exact ofAction_eq_some made

theorem isWritten_of_mem_images {texts : List String} {ref : PackageRef}
    (member : ref ∈ texts.filterMap ofImage) : ref.IsTextual := by
  obtain ⟨text, -, made⟩ := List.mem_filterMap.mp member
  obtain ⟨scheme, written⟩ := ofImage_eq_some made
  exact ⟨by simp [IsHashed, hashedSchemes, scheme], written⟩

/-! ## Lists of plain jobs -/

namespace Jobs

def ArePlain (kept : PackageRef → Prop) (jobs : Jobs) : Prop :=
  ∀ entry ∈ jobs, entry.2.IsPlain kept

variable {kept : PackageRef → Prop} {jobs : Jobs}

theorem arePlain_nil : ArePlain kept [] := by
  intro entry member
  exact absurd member List.not_mem_nil

theorem ArePlain.put (plain : jobs.ArePlain kept) (name : String) {job : Job}
    (own : job.IsPlain kept) :
    ArePlain kept (jobs.put name job) := by
  intro entry member
  rcases Keyed.mem_put member with rfl | old
  · exact own
  · exact plain entry old

theorem ArePlain.of_mem_values (plain : jobs.ArePlain kept) {job : Job}
    (member : job ∈ jobs.values) :
    job.IsPlain kept := by
  obtain ⟨entry, inside, rfl⟩ := List.mem_map.mp member
  exact plain entry inside

theorem ArePlain.placeAll (more : List Job) {jobs : Jobs} (plain : jobs.ArePlain kept)
    (each : ∀ job ∈ more, job.IsPlain kept) : ArePlain kept (more.foldl Jobs.place jobs) := by
  induction more generalizing jobs with
  | nil => exact plain
  | cons job rest ih =>
    rw [List.forall_mem_cons] at each
    have own := each.1
    exact ih (plain.put job.name ⟨own.labels, own.steps, own.images, own.package⟩) each.2

theorem ArePlain.adoptAll (plain : jobs.ArePlain kept) {called : Jobs}
    (inner : called.ArePlain kept)
    {adopted : Job → Job} (keeps : ∀ job, job.IsPlain kept → (adopted job).IsPlain kept) :
    ArePlain kept ((called.ordered.map adopted).foldl Jobs.place jobs) := by
  refine plain.placeAll _ ?_
  intro job member
  obtain ⟨old, inside, rfl⟩ := List.mem_map.mp member
  exact keeps old (inner.of_mem_values (List.mem_mergeSort.mp inside))

theorem ArePlain.validate (plain : jobs.ArePlain kept) (path : String) :
    ArePlain kept (Needs.validate jobs path).value := by
  intro entry member
  simp only [Needs.validate, Noted.value_bind, Noted.value_pure, Needs.dropUnknown_value,
    Needs.withNeeds, List.map_map, List.mem_map] at member
  obtain ⟨old, inside, rfl⟩ := member
  have own := plain old inside
  exact ⟨own.labels, own.steps, own.images, own.package⟩

theorem ArePlain.forall_pipelineRefs {pipeline : Pipeline} (plain : pipeline.jobs.ArePlain kept)
    (includes : ∀ ref ∈ pipeline.includes, kept ref)
    (written : ∀ ref : PackageRef, ref.IsTextual → kept ref) :
    ∀ ref ∈ UnpinnedPackage.pipelineRefs pipeline, kept ref := by
  simp only [UnpinnedPackage.pipelineRefs, List.mem_append, List.mem_flatMap,
    UnpinnedPackage.jobRefs]
  rintro ref (inIncludes | ⟨job, member, (inImages | package) | ⟨step, inSteps, inStep⟩⟩)
  · exact includes ref inIncludes
  · exact written ref ((plain.of_mem_values member).images ref inImages)
  · exact (plain.of_mem_values member).package ref (Option.mem_toList.mp package)
  · exact written ref (((plain.of_mem_values member).steps step inSteps).refs ref inStep)

end Jobs

end SupplyLint
