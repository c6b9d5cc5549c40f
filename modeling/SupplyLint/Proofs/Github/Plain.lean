import SupplyLint.Proofs.Github.Workflow
import SupplyLint.Proofs.Plain

/-! # What the jobs of workflows hold

`normalize_plain`: the jobs of a workflow and of what it calls are plain, with
written packages, and a workflow includes nothing. -/
set_option autoImplicit false

namespace SupplyLint.Github

open SupplyLint.Jobs
open SupplyLint.PackageRef

theorem stepAction_isPlain {uses run : Value} {entries : Entries} {found : Step}
    (read : stepAction uses run entries = .ok found.action) : found.IsPlain := by
  unfold stepAction at read
  split at read
  · simp only [bind_eq_ok, pure_eq_ok] at read
    obtain ⟨text, -, action⟩ := read
    exact Step.isPlain_of_run action.symm
  · simp only [bind_eq_ok, pure_eq_ok] at read
    obtain ⟨text, -, action⟩ := read
    exact Step.isPlain_of_uses action.symm

theorem step_isPlain {path job : String} {position : Nat} {raw : Value} {found : Step}
    (read : outcome (step path job position raw) = .ok (some found)) : found.IsPlain := by
  obtain ⟨entries, env, action, -, -, acts, rfl⟩ := step_eq_ok read
  exact stepAction_isPlain acts

theorem stepsFrom_isPlain {path job : String} (items : List Value) {position : Nat}
    {found : List Step} (read : outcome (stepsFrom path job position items) = .ok found) :
    ∀ step ∈ found, step.IsPlain := by
  induction items generalizing position found with
  | nil =>
    simp only [stepsFrom, outcome_pure, Except.ok.injEq] at read
    subst read
    simp
  | cons raw rest ih =>
    simp only [stepsFrom, outcome_bind, bind_eq_ok, outcome_pure, Except.ok.injEq] at read
    obtain ⟨first, firstRead, others, othersRead, rfl⟩ := read
    intro step member
    rcases List.mem_append.mp member with here | later
    · rw [Option.mem_toList] at here
      rw [here] at firstRead
      exact step_isPlain firstRead
    · exact ih othersRead step later

theorem steps_isPlain {path job : String} {raw : Value} {found : List Step}
    (read : outcome (steps path job raw) = .ok found) : ∀ step ∈ found, step.IsPlain := by
  unfold steps at read
  split at read
  · simp only [outcome_pure, Except.ok.injEq] at read
    subst read
    simp
  · split at read
    · exact stepsFrom_isPlain _ read
    · simp only [outcome_bind, bind_eq_ok, outcome_pure, Except.ok.injEq] at read
      obtain ⟨-, -, rfl⟩ := read
      simp

/-! ## Jobs -/

theorem images_isWritten (raw : Entries) :
    ∀ ref ∈ images raw, ref.IsTextual := by
  intro ref member
  obtain ⟨field, -, made⟩ := List.mem_filterMap.mp member
  cases field with
  | text image =>
    obtain ⟨scheme, written⟩ := ofImage_eq_some made
    exact ⟨by simp [IsHashed, hashedSchemes, scheme], written⟩
  | _ => cases made

theorem job_isPlain {path name : String} {index : Nat} {raw : Entries} {written : Job}
    (read : outcome (job path name index raw) = .ok written) : written.IsPlain IsTextual := by
  obtain ⟨lines, uses, labels, granted, env, waited, linesRead, -, -, -, -, -, rfl⟩ :=
    job_eq_ok read
  refine ⟨⟨labels, rfl⟩, steps_isPlain linesRead, images_isWritten raw, ?_⟩
  intro ref package
  obtain ⟨text, -, made⟩ := Option.bind_eq_some_iff.mp package
  exact ofAction_eq_some made

def FollowsPlain (follow : Follow) : Prop :=
  ∀ path caller target called, outcome (follow path caller target) = .ok (some called) →
    called.jobs.ArePlain IsTextual

theorem inlined_arePlain {follow : Follow} (follows : FollowsPlain follow) {path name : String}
    {caller : Job} {called : Option Pipeline} {jobs : Jobs} (plain : jobs.ArePlain IsTextual)
    (followed : Followed follow path caller called) :
    (inlined name called jobs).ArePlain IsTextual := by
  cases called with
  | none => exact plain
  | some called =>
    obtain ⟨target, -, read⟩ := followed.exists_target
    have inner : called.jobs.ArePlain IsTextual := follows path caller target called read
    rw [inlined_eq]
    exact plain.adoptAll inner fun job own => ⟨own.labels, own.steps, own.images, own.package⟩

theorem parseJobs_arePlain {follow : Follow} (follows : FollowsPlain follow) (path : String)
    (entries : Entries) {jobs result : Jobs} (plain : jobs.ArePlain IsTextual)
    (read : outcome (parseJobs follow path entries jobs) = .ok result) :
      result.ArePlain IsTextual := by
  refine parseJobs_keeps (Jobs.ArePlain IsTextual) entries ?_ plain read
  intro key own _ name written called before _ wrote followed plain
  have put := plain.put name (job_isPlain wrote)
  exact inlined_arePlain follows put followed

theorem jobsOf_arePlain {follow : Follow} (follows : FollowsPlain follow) {path : String}
    {raw : Value} {jobs : Jobs} (read : outcome (jobsOf follow path raw) = .ok jobs) :
    jobs.ArePlain IsTextual := by
  obtain ⟨found, parsed, rfl⟩ := jobsOf_eq_ok read
  exact (parseJobs_arePlain follows path _ arePlain_nil parsed).validate path

theorem workflow_arePlain (resolve : Resolver) (room : Nat) (chain : List String) (path : String)
    (raw : Entries) {pipeline : Pipeline}
    (read : outcome (workflow resolve room chain path raw) = .ok pipeline) :
    pipeline.jobs.ArePlain IsTextual := by
  induction room using Nat.strongRecOn generalizing chain path raw pipeline with
  | ind room ih =>
    rw [workflow_eq] at read
    obtain ⟨_, _, jobs, -, jobsRead, rfl⟩ := workflowWith_eq_ok read
    refine jobsOf_arePlain ?_ jobsRead
    intro path caller target called followed
    obtain ⟨below, raw, less, calledRead⟩ := followCall_eq_ok followed
    exact ih below (less ▸ Nat.lt_succ_self below) _ _ _ calledRead

theorem actionJobs_arePlain {path : String} {raw : Entries} {jobs : Jobs}
    (read : outcome (actionJobs path raw) = .ok jobs) : jobs.ArePlain IsTextual := by
  rcases actionJobs_eq_ok read with ⟨-, rfl⟩ | ⟨runs, kind, -, -, kinds⟩
  · exact arePlain_nil
  · rcases kinds with ⟨written, -, wrote, rfl⟩ | ⟨image, -, rfl⟩ | ⟨-, -, rfl⟩
    · have own := job_isPlain wrote
      intro entry member
      rw [List.mem_singleton.mp member]
      exact ⟨own.labels, own.steps, own.images, own.package⟩
    · intro entry member
      rw [List.mem_singleton.mp member]
      refine ⟨⟨[], rfl⟩, ?_, by simp, by simp⟩
      intro step inside
      dsimp only at inside
      split at inside
      · rw [List.mem_singleton.mp inside]
        exact Step.isPlain_of_uses rfl
      · exact absurd inside List.not_mem_nil
    · exact arePlain_nil

theorem normalize_plain {resolve : Resolver} {path : String} {content : List UInt8}
    {pipeline : Pipeline} (read : outcome (normalize resolve path content) = .ok pipeline) :
    pipeline.jobs.ArePlain IsTextual ∧ pipeline.includes = [] := by
  rcases normalize_eq_ok read with ⟨-, rfl⟩ | ⟨raw, -, ⟨jobs, -, jobsRead, rfl⟩ | ⟨-, read⟩⟩
  · exact ⟨arePlain_nil, rfl⟩
  · exact ⟨actionJobs_arePlain jobsRead, rfl⟩
  · refine ⟨workflow_arePlain resolve _ _ path raw read, ?_⟩
    rw [workflow_eq] at read
    obtain ⟨_, _, _, -, -, rfl⟩ := workflowWith_eq_ok read
    rfl

theorem isTextual_of_mem_pipelineRefs {resolve : Resolver} {path : String} {content : List UInt8}
    {pipeline : Pipeline} (read : outcome (normalize resolve path content) = .ok pipeline) :
    ∀ ref ∈ Rule.UnpinnedPackage.pipelineRefs pipeline, ref.IsTextual := by
  obtain ⟨plain, includes⟩ := normalize_plain read
  exact plain.forall_pipelineRefs (by simp [includes]) fun _ textual => textual

end SupplyLint.Github
