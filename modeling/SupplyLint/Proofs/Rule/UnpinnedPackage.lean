import SupplyLint.Proofs.Github.Plain
import SupplyLint.Proofs.Outcome
import SupplyLint.Proofs.Pinning
import SupplyLint.Proofs.Rule.Checks
import SupplyLint.Proofs.Rule.Jobs

/-! # Which steps use packages that are not pinned

A reference made of texts is reported unless it is pinned or holds a variable
(`decides_isUnpinned`), and what a step is reported for stands between what the rest of the
pipeline is reported for (`Place.check_inserts`). So a step that calls an action is
reported once if its owner can move what it names, and never else, and no workflow
keeps the check from its result. -/
set_option autoImplicit false

namespace SupplyLint.Rule.UnpinnedPackage

open SupplyLint.PackageRef
open SupplyLint.Text

/-- A reference of texts is reported exactly if its ref does not pin it and no variable stands in
it. -/
theorem decides_isUnpinned {scheme : String} (known : scheme ∈ hashedSchemes) (name : String)
    (ref subpath : Option String) :
    Decides (isUnpinned (ofTexts scheme name ref subpath))
      (¬ Pins scheme ref ∧ IsPlain name ref) := by
  obtain ⟨templated, tested, tells⟩ := decides_isTemplated scheme name ref subpath
  obtain ⟨pinned, found, hashed⟩ := decides_isPinned scheme name ref subpath
  cases templated with
  | true =>
    rw [isUnpinned_of_templated tested]
    exact decides_ok (by simpa using fun _ => tells.mp rfl)
  | false =>
    have plain : IsPlain name ref := not_not.mp fun held => Bool.false_ne_true (tells.mpr held)
    rw [isUnpinned_of_plain tested known, found]
    refine decides_ok ?_
    rw [← hashed]
    simp [plain]

theorem findingsFor_singleton (pipeline : Pipeline) (job : Job) (step : Step) {package : PackageRef}
    {unpinned : Bool} (tested : isUnpinned package = .ok unpinned) :
    ∃ made, findingsFor pipeline (some job) (some step) [package] = .ok made ∧
      (unpinned = false → made = []) ∧
      (unpinned = true →
        ∃ reported, finding pipeline (some job) (some step) package = .ok reported ∧
        made = [reported]) := by
  have kept : [package].filterM isUnpinned = .ok (if unpinned then [package] else []) := by
    simp only [List.filterM, List.filterAuxM, tested, ok_bind]
    cases unpinned <;> rfl
  unfold findingsFor
  rw [kept, ok_bind]
  cases unpinned with
  | false => exact ⟨[], rfl, fun _ => rfl, by simp⟩
  | true =>
    obtain ⟨reported, found⟩ :=
      returns_finding pipeline (some job) (some step) (isWritten_of_isUnpinned tested)
    refine ⟨[reported], ?_, by simp, fun _ => ⟨reported, found, rfl⟩⟩
    rw [if_pos rfl, List.mapM_cons, found]
    rfl

def ofStep (pipeline : Pipeline) (job : Job) (step : Step) : Except Fault (List Finding) :=
  findingsFor pipeline (some job) (some step) (stepRefs step)

/-- A step that calls an action is reported if its owner can move what is called, and once only. -/
theorem ofStep_uses (pipeline : Pipeline) (job : Job) {step : Step}
    {text : String} {arguments : Entries}
    (uses : step.action = .uses text (ofAction text) arguments) (plain : '$' ∉ text.toList) :
    ∃ made, ofStep pipeline job step = .ok made ∧
      (IsMovable (trimBy isBlank text.toList) → ∃ package reported, ofAction text = some package ∧
        finding pipeline (some job) (some step) package = .ok reported ∧ made = [reported]) ∧
      (¬ IsMovable (trimBy isBlank text.toList) → made = []) := by
  obtain ⟨ofSome, ofNone⟩ := isMovable_of_ofAction text
  unfold ofStep stepRefs
  rw [uses]
  cases made : ofAction text with
  | none => exact ⟨[], rfl, fun movable => absurd movable (ofNone made), fun _ => rfl⟩
  | some package =>
    obtain ⟨scheme, known, name, ref, subpath, same, isPlain, pins⟩ := ofSome package made
    obtain ⟨unpinned, tested, tells⟩ := decides_isUnpinned known name ref subpath
    rw [← same] at tested
    rw [pins, not_not, and_iff_left (isPlain plain)] at tells
    obtain ⟨findings, found, never, once⟩ := findingsFor_singleton pipeline job step tested
    refine ⟨findings, found, fun movable => ?_, fun fixed => never ?_⟩
    · obtain ⟨reported, shown, single⟩ := once (tells.mpr movable)
      exact ⟨package, reported, rfl, shown, single⟩
    · exact Bool.eq_false_iff.mpr fun holds => fixed (tells.mp holds)

/-! ## A step in its place -/

/-- A step of a job of a pipeline, and what stands around it. -/
structure Place (pipeline : Pipeline) where
  before : Jobs
  key : String
  job : Job
  after : Jobs
  earlier : List Step
  step : Step
  later : List Step
  jobs : pipeline.jobs = before ++ (key, job) :: after
  steps : job.steps = earlier ++ step :: later

namespace Place
variable {pipeline : Pipeline} (place : Place pipeline)

def jobWithout : Job :=
  { place.job with steps := place.earlier ++ place.later }

def without : Pipeline :=
  { pipeline with jobs := place.before ++ (place.key, place.jobWithout) :: place.after }

end Place

theorem jobFindings_eq (pipeline : Pipeline) (job : Job) :
    jobFindings pipeline job =
      joined (findingsFor pipeline (some job) none (job.images ++ job.package.toList))
        (gathered (ofStep pipeline job) job.steps) := by
  simp only [jobFindings, joined, gathered, bind_assoc, pure_bind]
  rfl

theorem check_eq (pipeline : Pipeline) :
    check pipeline = joined (findingsFor pipeline none none pipeline.includes)
      (gathered (jobFindings pipeline) pipeline.orderedJobs) := by
  simp [check, joined, gathered]

/-- What a step is reported for is put between what all else is reported for. -/
theorem Place.check_inserts {pipeline : Pipeline} (place : Place pipeline) {made : List Finding}
    (found : ofStep pipeline place.job place.step = .ok made) :
    Inserts made (check pipeline) (check place.without) := by
  obtain ⟨left, right, whole, inPlace⟩ :=
    Jobs.ordered_inPlace place.before place.after place.key place.job
  have without : place.without.orderedJobs = left ++ place.jobWithout :: right :=
    inPlace [(place.key, place.jobWithout)] (by simp [Keyed.values, jobWithout])
  have inJob : Inserts made (jobFindings pipeline place.job)
      (jobFindings pipeline place.jobWithout) := by
    rw [jobFindings_eq, jobFindings_eq, place.steps]
    exact (inserts_gathered found place.earlier place.later).after _
  rw [check_eq, check_eq, without, Pipeline.orderedJobs, place.jobs, whole]
  exact (inJob.gathered left right).after _

theorem action_of_step {path job text : String} {position : Nat} {raw : Entries} {step : Step}
    (uses : Value.field raw "uses" = .text text)
    (read : outcome (Github.step path job position (.map raw)) = .ok (some step)) :
    step.action = .uses text (ofAction text) (Field.entries (Value.field raw "with")) := by
  simp only [Github.step, outcome_bind, bind_eq_ok] at read
  obtain ⟨-, -, read⟩ := read
  split at read
  · simp only [outcome_bind, bind_eq_ok, outcome_pure, Except.ok.injEq] at read
    obtain ⟨-, -, missing⟩ := read
    cases missing
  · simp only [outcome_bind, bind_eq_ok, outcome_fault, uncaught_eq_ok,
      outcome_pure, Except.ok.injEq, Option.some.injEq] at read
    obtain ⟨-, -, action, acts, rfl⟩ := read
    rw [uses] at acts
    exact (Except.ok.inj acts).symm

theorem isCheckable_of_mem_pipelineRefs {resolve : Resolver} {path : String} {content : List UInt8}
    {pipeline : Pipeline} (read : outcome (Github.normalize resolve path content) = .ok pipeline) :
    ∀ ref ∈ pipelineRefs pipeline, ref.IsHashed ∧ ref.IsCheckable := by
  intro ref member
  obtain ⟨hashed, written⟩ := Github.isTextual_of_mem_pipelineRefs read ref member
  exact ⟨hashed, Or.inr (Or.inl written)⟩

/-- A step that calls an action adds one finding to those of its pipeline if the owner of what is
called can move it, and none else, in every workflow and in every other pipeline whose references
can be looked up. A reference made of texts is unpinned exactly if it is not pinned and holds no
variable. -/
theorem movable_uses_are_reported :
    (∀ (pipeline : Pipeline) (place : Place pipeline) (path job text : String) (position : Nat)
      (raw : Entries), (∀ ref ∈ pipelineRefs pipeline, ref.IsHashed ∧ ref.IsCheckable) →
      outcome (Github.step path job position (.map raw)) = .ok (some place.step) →
      Value.field raw "uses" = .text text → '$' ∉ text.toList →
      ∃ left made right, check pipeline = .ok (left ++ (made ++ right)) ∧
        check place.without = .ok (left ++ right) ∧
        (IsMovable (trimBy isBlank text.toList) → ∃ package reported, ofAction text = some package ∧
          finding pipeline (some place.job) (some place.step) package = .ok reported ∧
          made = [reported]) ∧
        (¬ IsMovable (trimBy isBlank text.toList) → made = [])) ∧
    (∀ (resolve : Resolver) (path : String) (content : List UInt8) (pipeline : Pipeline),
      outcome (Github.normalize resolve path content) = .ok pipeline →
      ∀ ref ∈ pipelineRefs pipeline, ref.IsHashed ∧ ref.IsCheckable) ∧
    ∀ scheme ∈ hashedSchemes, ∀ name ref subpath, ∃ pinned,
      (ofTexts scheme name ref subpath).isPinned = .ok pinned ∧ (pinned = true ↔ Pins scheme ref) ∧
      Decides (isUnpinned (ofTexts scheme name ref subpath))
        (pinned = false ∧ IsPlain name ref) := by
  refine ⟨?_, fun _ _ _ _ read => isCheckable_of_mem_pipelineRefs read, ?_⟩
  · intro pipeline place path job text position raw checkable read uses plain
    obtain ⟨made, found, once, never⟩ :=
      ofStep_uses pipeline place.job (action_of_step uses read) plain
    have returns : Returns (check pipeline) :=
      (returns_check fun ref member => (checkable ref member).1).mpr fun ref member =>
        (checkable ref member).2
    obtain ⟨left, right, whole, others⟩ := (place.check_inserts found).of_returns returns
    exact ⟨left, made, right, whole, others, once, never⟩
  · intro scheme known name ref subpath
    obtain ⟨pinned, found, tells⟩ := decides_isPinned scheme name ref subpath
    refine ⟨pinned, found, tells, (decides_isUnpinned known name ref subpath).congr ?_⟩
    rw [← tells, Bool.not_eq_true]

/-! ### A tag -/

def tagged : String := " actions/checkout@v4"

def taggedRaw : Entries := [(.text "uses", .text tagged)]

def taggedStep : Step :=
  { position := 0, action := .uses tagged (ofAction tagged) [] }

def taggedJob : Job :=
  { name := "build", index := 0, steps := [taggedStep] }

def taggedPipeline : Pipeline :=
  { platform := .github, path := "ci.yml", jobs := [("build", taggedJob)] }

def taggedPlace : Place taggedPipeline :=
  ⟨[], "build", taggedJob, [], [], taggedStep, [], rfl, rfl⟩

theorem isMovable_tagged : IsMovable (trimBy isBlank tagged.toList) := by
  have trimmed : trimBy isBlank tagged.toList = "actions/checkout@v4".toList := by decide
  have noImage (image : List Char) :
      "actions/checkout@v4".toList ≠ "docker://".toList ++ image := by
    simp
  rw [trimmed, isMovable_path (by decide) noImage]
  constructor
  · exact ⟨"actions/checkout".toList, some "v4".toList, by decide, by simp, by simp,
      "actions".toList, "checkout".toList, [], by decide, by decide, by decide, by simp⟩
  · have split : splitRef "actions/checkout@v4".toList =
        ("actions/checkout".toList, some "v4".toList) := by decide
    rw [hasCommit_iff, split]
    rintro ⟨hash, given, length, -⟩
    obtain rfl := Option.some.inj given
    exact absurd length (by decide)

theorem isCheckable_tagged :
    ∀ ref ∈ pipelineRefs taggedPipeline, ref.IsHashed ∧ ref.IsCheckable := by
  intro ref member
  have inStep : ref ∈ stepRefs taggedStep := by
    simpa [pipelineRefs, jobRefs, taggedPipeline, taggedJob, Keyed.values] using member
  obtain ⟨hashed, written⟩ := (Step.isPlain_of_uses rfl).refs ref inStep
  exact ⟨hashed, Or.inr (Or.inl written)⟩

def taggedWorkflow : List UInt8 :=
  "jobs: \x7bbuild: \x7bsteps: [\x7buses: ' actions/checkout@v4'\x7d]\x7d\x7d".toUTF8.data.toList

theorem tag_is_reported :
    (∀ ref ∈ pipelineRefs taggedPipeline, ref.IsHashed ∧ ref.IsCheckable) ∧
      outcome (Github.step "ci.yml" "build" 0 (.map taggedRaw)) = .ok (some taggedPlace.step) ∧
      Value.field taggedRaw "uses" = .text tagged ∧ '$' ∉ tagged.toList ∧
      (∃ package reported, ofAction tagged = some package ∧
        finding taggedPipeline (some taggedJob) (some taggedStep) package = .ok reported ∧
        check taggedPipeline = .ok [reported] ∧ check taggedPlace.without = .ok []) ∧
      (∃ pipeline, outcome (Github.normalize Source.none "ci.yml" taggedWorkflow) = .ok pipeline ∧
        ∀ ref ∈ pipelineRefs pipeline, ref.IsHashed ∧ ref.IsCheckable) ∧
      imageScheme ∈ hashedSchemes ∧ ∃ pinned,
        (ofTexts imageScheme "alpine" (some "3.19") none).isPinned = .ok pinned ∧
        (pinned = true ↔ Pins imageScheme (some "3.19")) ∧
        Decides (isUnpinned (ofTexts imageScheme "alpine" (some "3.19") none))
          (pinned = false ∧ IsPlain "alpine" (some "3.19")) := by
  have plain : '$' ∉ tagged.toList := by decide
  have known : imageScheme ∈ hashedSchemes := by decide
  obtain ⟨reports, workflows, decides⟩ := movable_uses_are_reported
  obtain ⟨left, made, right, whole, others, once, -⟩ := reports taggedPipeline taggedPlace "ci.yml"
    "build" tagged 0 taggedRaw isCheckable_tagged rfl rfl plain
  obtain ⟨package, reported, found, shown, rfl⟩ := once isMovable_tagged
  have ordered : taggedPlace.without.orderedJobs = [taggedPlace.jobWithout] :=
    List.mergeSort_singleton _
  have nothing : check taggedPlace.without = .ok [] := by
    rw [check_eq, ordered]
    rfl
  obtain ⟨rfl, rfl⟩ : left = [] ∧ right = [] := by
    rw [nothing, Except.ok.injEq, eq_comm, List.append_eq_nil_iff] at others
    exact others
  have read : (outcome (Github.normalize Source.none "ci.yml" taggedWorkflow)).toOption.isSome =
      true := by
    decide +kernel
  obtain ⟨pipeline, found'⟩ := Option.isSome_iff_exists.mp read
  have normalized := toOption_eq_some.mp found'
  exact ⟨isCheckable_tagged, rfl, rfl, plain, ⟨package, reported, found, shown, whole, nothing⟩,
    ⟨pipeline, normalized, workflows _ _ _ _ normalized⟩, known,
    decides imageScheme known "alpine" (some "3.19") none⟩

end SupplyLint.Rule.UnpinnedPackage
