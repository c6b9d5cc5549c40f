import SupplyLint.Proofs.Package
import SupplyLint.Proofs.Rule.Evaluation
import SupplyLint.Proofs.Value.Text

/-! # What the checks refuse

The standard rules one by one: whose id their findings carry, and which values
of a pipeline keep them from giving a result. -/
set_option autoImplicit false

namespace SupplyLint.Rule

open SupplyLint.PackageRef

theorem forall_orderedJobs {pipeline : Pipeline} {holds : Job → Prop} :
    (∀ job ∈ pipeline.orderedJobs, holds job) ↔ ∀ job ∈ pipeline.jobs.values, holds job := by
  simp only [Pipeline.orderedJobs, Jobs.ordered, List.mem_mergeSort]

theorem hasAnyEvent_eq_true_iff {pipeline : Pipeline} {events : List String} :
    hasAnyEvent pipeline events = true ↔
      ∃ trigger ∈ pipeline.triggers, ∃ event ∈ events, Text.lower trigger.event =
        Text.lower event := by
  simp only [hasAnyEvent, Pipeline.events, List.any_map, List.any_eq_true, Function.comp_apply,
    List.contains_iff_mem, List.mem_map]
  exact exists_congr fun trigger => and_congr_right fun _ =>
    exists_congr fun event => and_congr_right fun _ => eq_comm

/-! ## Packages -/

namespace UnpinnedPackage

theorem isUnpinned_of_plain {ref : PackageRef} (plain : ref.isTemplated = .ok false)
    (known : ref.scheme ∈ hashedSchemes) : isUnpinned ref = (!·) <$> ref.isPinned := by
  unfold isUnpinned isPinned
  rw [plain, ok_bind, if_neg Bool.false_ne_true]
  by_cases image : ref.scheme = imageScheme
  · rw [if_pos image, if_pos image]
    rfl
  · have hashed : (ref.scheme = actionScheme || ref.scheme = gitlabScheme) = true := by
      simpa [hashedSchemes, image] using known
    rw [if_neg image, if_neg image, if_pos (by simpa using hashed)]
    rfl

theorem isUnpinned_of_not_templated {ref : PackageRef} (plain : ref.isTemplated = .ok false)
    (known : ref.scheme ∈ hashedSchemes) : Returns (isUnpinned ref) ↔ ref.IsWritten := by
  rw [isUnpinned_of_plain plain known, returns_map, isPinned]
  split
  · exact returns_refHas _ ref
  · exact returns_refHas _ ref

theorem isUnpinned_of_templated {ref : PackageRef} (templated : ref.isTemplated = .ok true) :
    isUnpinned ref = .ok false := by
  unfold isUnpinned
  rw [templated]
  rfl

theorem returns_isUnpinned {ref : PackageRef} (known : ref.scheme ∈ hashedSchemes) :
    Returns (isUnpinned ref) ↔ ref.IsCheckable := by
  constructor
  · intro returns
    cases templated : ref.isTemplated with
    | error fault =>
      rw [isUnpinned, templated] at returns
      exact absurd returns (not_returns_error fault)
    | ok holds =>
      cases holds with
      | true =>
        rcases (isTemplated_eq_true_iff ref).mp templated with inName | ⟨-, inRef⟩
        · exact Or.inl inName
        · exact Or.inr (Or.inr inRef)
      | false => exact Or.inr (Or.inl ((isUnpinned_of_not_templated templated known).mp returns))
  · intro checkable
    by_cases templated : ref.isTemplated = .ok true
    · exact ⟨false, isUnpinned_of_templated templated⟩
    · have written : ref.IsWritten := by
        rcases checkable with inName | written | inRef
        · exact absurd ((isTemplated_eq_true_iff ref).mpr (Or.inl inName)) templated
        · exact written
        · left
          by_contra present
          rw [Bool.not_eq_false] at present
          exact templated ((isTemplated_eq_true_iff ref).mpr (Or.inr ⟨present, inRef⟩))
      have plain := isTemplated_eq_false_of_isWritten written templated
      exact (isUnpinned_of_not_templated plain known).mpr written

theorem isWritten_of_isUnpinned {ref : PackageRef} (unpinned : isUnpinned ref = .ok true) :
    ref.IsWritten := by
  cases templated : ref.isTemplated with
  | error fault =>
    rw [isUnpinned, templated] at unpinned
    cases unpinned
  | ok holds =>
    cases holds with
    | true =>
      rw [isUnpinned_of_templated templated] at unpinned
      cases unpinned
    | false =>
      have known : ref.scheme ∈ hashedSchemes := by
        by_contra unknown
        simp only [hashedSchemes, List.mem_cons, List.not_mem_nil, or_false, not_or] at unknown
        unfold isUnpinned at unpinned
        rw [templated] at unpinned
        simp [unknown, bind, Except.bind, pure, Except.pure] at unpinned
      exact (isUnpinned_of_not_templated templated known).mp ⟨true, unpinned⟩

theorem returns_finding (pipeline : Pipeline) (job : Option Job) (step : Option Step)
    {ref : PackageRef} (written : ref.IsWritten) : Returns (finding pipeline job step ref) := by
  obtain ⟨address, found⟩ := returns_address written
  unfold finding
  dsimp only
  rw [found]
  rcases written with absent | ⟨text, same⟩
  · simp [absent, bind, Except.bind, pure, Except.pure]
  · rw [same]
    split
    · exact returns_ok _
    · exact returns_ok _

theorem returns_findingsFor (pipeline : Pipeline) (job : Option Job) (step : Option Step)
    (refs : List PackageRef) (known : ∀ ref ∈ refs, ref.scheme ∈ hashedSchemes) :
    Returns (findingsFor pipeline job step refs) ↔ ∀ ref ∈ refs, ref.IsCheckable := by
  unfold findingsFor
  rw [returns_bind_of_forall, returns_filterM]
  · exact forall₂_congr fun ref member => returns_isUnpinned (known ref member)
  · intro unpinned found
    rw [returns_mapM]
    intro ref member
    exact returns_finding pipeline job step
      (isWritten_of_isUnpinned (mem_of_mem_filterM found member).2)

theorem finding_eq_ok {pipeline : Pipeline} {job : Option Job} {step : Option Step}
    {ref : PackageRef} {made : Finding} (found : finding pipeline job step ref = .ok made) :
    ∃ title message evidence, made = Finding.make id title message pipeline job step evidence := by
  unfold finding at found
  dsimp only at found
  simp only [bind_eq_ok] at found
  obtain ⟨address, -, found⟩ := found
  split at found
  all_goals
    simp only [bind_eq_ok, pure_eq_ok] at found
    obtain ⟨written, -, rfl⟩ := found
    exact ⟨_, _, _, rfl⟩

theorem carries_findingsFor (pipeline : Pipeline) (job : Option Job) (step : Option Step)
    (refs : List PackageRef) : Carries id (findingsFor pipeline job step refs) := by
  refine carries_bind fun unpinned => yields_mapM fun ref _ made found => ?_
  obtain ⟨title, message, evidence, rfl⟩ := finding_eq_ok found
  rfl

def jobRefs (job : Job) : List PackageRef :=
  job.images ++ job.package.toList ++ job.steps.flatMap stepRefs

theorem returns_jobFindings (pipeline : Pipeline) {job : Job}
    (known : ∀ ref ∈ jobRefs job, ref.scheme ∈ hashedSchemes) :
    Returns (jobFindings pipeline job) ↔ ∀ ref ∈ jobRefs job, ref.IsCheckable := by
  unfold jobFindings
  have own := returns_findingsFor pipeline (some job) none
    (job.images ++ job.package.toList) (fun ref member => known ref (by
      rw [jobRefs, List.mem_append]
      exact Or.inl member))
  have steps : (∀ step ∈ job.steps,
      Returns (findingsFor pipeline (some job) (some step) (stepRefs step))) ↔
      ∀ step ∈ job.steps, ∀ ref ∈ stepRefs step, ref.IsCheckable := by
    refine forall₂_congr fun step member => returns_findingsFor pipeline (some job) (some step) _ ?_
    intro ref inside
    refine known ref ?_
    rw [jobRefs, List.mem_append]
    exact Or.inr (List.mem_flatMap.mpr ⟨step, member, inside⟩)
  rw [returns_append_mapM, own, steps]
  simp only [jobRefs, List.mem_append, List.mem_flatMap]
  constructor
  · rintro ⟨ownRefs, stepRefs⟩ ref (inOwn | ⟨step, member, inside⟩)
    · exact ownRefs ref inOwn
    · exact stepRefs step member ref inside
  · intro all
    exact ⟨fun ref inOwn => all ref (Or.inl inOwn),
      fun step member ref inside => all ref (Or.inr ⟨step, member, inside⟩)⟩

def pipelineRefs (pipeline : Pipeline) : List PackageRef :=
  pipeline.includes ++ pipeline.jobs.values.flatMap jobRefs

theorem returns_check {pipeline : Pipeline}
    (known : ∀ ref ∈ pipelineRefs pipeline, ref.scheme ∈ hashedSchemes) :
    Returns (check pipeline) ↔ ∀ ref ∈ pipelineRefs pipeline, ref.IsCheckable := by
  unfold check
  have includes := returns_findingsFor pipeline none none pipeline.includes
    (fun ref member => known ref (List.mem_append_left _ member))
  have jobs : (∀ job ∈ pipeline.orderedJobs, Returns (jobFindings pipeline job)) ↔
      ∀ job ∈ pipeline.jobs.values, ∀ ref ∈ jobRefs job, ref.IsCheckable := by
    rw [forall_orderedJobs]
    refine forall₂_congr fun job member => returns_jobFindings pipeline ?_
    intro ref inside
    exact known ref (List.mem_append_right _ (List.mem_flatMap.mpr ⟨job, member, inside⟩))
  rw [returns_append_mapM, includes, jobs]
  simp only [pipelineRefs, List.mem_append, List.mem_flatMap]
  constructor
  · rintro ⟨inIncludes, inJobs⟩ ref (inside | ⟨job, member, inside⟩)
    · exact inIncludes ref inside
    · exact inJobs job member ref inside
  · intro all
    exact ⟨fun ref inside => all ref (Or.inl inside),
      fun job member ref inside => all ref (Or.inr ⟨job, member, inside⟩)⟩

theorem sound : Sound ⟨id, check⟩ where
  ownId := by decide
  carries := by
    intro pipeline
    refine carries_append_flatten (carries_findingsFor pipeline none none _) fun job => ?_
    exact carries_append_flatten (carries_findingsFor pipeline (some job) none _) fun step =>
      carries_findingsFor pipeline (some job) (some step) _

end UnpinnedPackage

/-! ## Runners -/

namespace SelfHostedRunner

def HasTextLabels (job : Job) : Prop :=
  ∃ names : List String, job.labels = .list (names.map .text)

theorem areShort_texts (names : List String) : Value.areShort (names.map .text) = true := by
  induction names with
  | nil => rfl
  | cons name rest ih => simp [Value.areShort, Value.isShort, ih]

theorem returns_jobFindings (pipeline : Pipeline) {job : Job} (labelled : HasTextLabels job) :
    Returns (jobFindings pipeline job) := by
  obtain ⟨names, labels⟩ := labelled
  have texts : ∀ label ∈ names.map Value.text, Returns (isUnknownLabel label) ∧
      label.isShort = true := by
    intro label member
    obtain ⟨name, -, rfl⟩ := List.mem_map.mp member
    exact ⟨returns_ok _, by simp [Value.isShort]⟩
  unfold jobFindings
  rw [labels]
  split
  · exact returns_ok _
  · refine returns_bind.mpr ⟨names.map .text, rfl, ?_⟩
    obtain ⟨unknown, found⟩ := returns_filterM.mpr fun label member => (texts label member).1
    refine returns_bind.mpr ⟨unknown, found, ?_⟩
    split
    · exact returns_pure _
    · rw [returns_bind_pure]
      unfold finding
      obtain ⟨shown, written⟩ := (Value.returns_toText job.labels).mpr (by
        rw [labels, Value.isShort]
        exact areShort_texts names)
      refine returns_bind.mpr ⟨shown, written, ?_⟩
      rw [returns_bind_pure, Value.returns_toTexts]
      intro label member
      exact (texts label member).2

theorem returns_check {pipeline : Pipeline}
    (labelled : ∀ job ∈ pipeline.jobs.values, HasTextLabels job) : Returns (check pipeline) := by
  unfold check
  rw [returns_bind_pure, returns_mapM, forall_orderedJobs]
  exact fun job member => returns_jobFindings pipeline (labelled job member)

theorem sound : Sound ⟨id, check⟩ where
  ownId := by decide
  carries := by
    intro pipeline
    refine carries_flatten fun job => ?_
    unfold jobFindings
    split
    · exact carries_ok (by simp)
    · refine carries_bind fun labels => carries_bind fun unknown => ?_
      split
      · exact carries_ok (by simp)
      · intro findings found
        simp only [finding, bind_eq_ok, pure_eq_ok] at found
        obtain ⟨reported, ⟨shown, -, labels, -, rfl⟩, rfl⟩ := found
        intro finding member
        rw [List.mem_singleton.mp member]
        rfl

end SelfHostedRunner

/-! ## Checkouts -/

namespace UntrustedCheckout

def HasTextScript (step : Step) : Prop :=
  ∀ script shell, step.action = .run script shell → ∃ text, script = .text text

theorem returns_isPrCheckout {step : Step} (written : HasTextScript step) :
    Returns (isPrCheckout step) := by
  unfold isPrCheckout
  cases action : step.action with
  | uses text package arguments =>
    cases package with
    | none => exact returns_ok _
    | some package =>
      dsimp only
      split
      · split
        · exact returns_ok _
        · exact returns_ok _
      · exact returns_ok _
  | run script shell =>
    obtain ⟨text, rfl⟩ := written script shell action
    exact returns_ok _

theorem returns_firstCheckout {steps : List Step} (written : ∀ step ∈ steps, HasTextScript step) :
    Returns (firstCheckout steps) := by
  induction steps with
  | nil => exact returns_ok _
  | cons step rest ih =>
    rw [List.forall_mem_cons] at written
    obtain ⟨checksOut, found⟩ := returns_isPrCheckout written.1
    refine returns_bind.mpr ⟨checksOut, found, ?_⟩
    split
    · exact returns_pure _
    · exact ih written.2

theorem returns_jobFindings (pipeline : Pipeline) {job : Job}
    (written : ∀ step ∈ job.steps, HasTextScript step) : Returns (jobFindings pipeline job) := by
  obtain ⟨first, found⟩ : Returns (firstPrCheckout job) := by
    refine returns_firstCheckout ?_
    intro step member
    exact written step (List.mem_mergeSort.mp member)
  refine returns_bind.mpr ⟨first, found, ?_⟩
  cases first with
  | none => exact returns_pure _
  | some checkout => exact returns_pure _

theorem returns_check {pipeline : Pipeline}
    (written : ∀ job ∈ pipeline.jobs.values, ∀ step ∈ job.steps, HasTextScript step) :
    Returns (check pipeline) := by
  unfold check
  split
  · rw [returns_bind_pure, returns_mapM, forall_orderedJobs]
    exact fun job member => returns_jobFindings pipeline (written job member)
  · exact returns_ok _

theorem sound : Sound ⟨id, check⟩ where
  ownId := by decide
  carries := by
    intro pipeline
    dsimp only
    unfold check
    split
    · refine carries_flatten fun job => ?_
      refine carries_bind fun first => ?_
      cases first with
      | none => exact carries_ok (by simp)
      | some checkout =>
        refine carries_ok ?_
        intro finding member
        obtain ⟨step, -, rfl⟩ := List.mem_map.mp member
        rfl
    · exact carries_ok (by simp)

end UntrustedCheckout

/-! ## Debug logging -/

namespace DebugLogging

/-- An environment whose debug variables have a text. -/
def IsReadable (env : Keyed String Value) : Prop :=
  ∀ name ∈ debugVariables, ∀ value, env.get? name = some value → value.isShort = true

theorem returns_isTruthy (value : Value) : Returns (isTruthy value) ↔ value.isShort = true := by
  cases value with
  | bool b => simp [isTruthy, Value.isShort]
  | _ =>
    rw [← Value.returns_toText]
    exact returns_bind_pure _ _

theorem returns_isEnabled (env : Keyed String Value) (name : String) :
    Returns (isEnabled env name) ↔ ∀ value, env.get? name = some value → value.isShort = true := by
  unfold isEnabled
  cases env.get? name with
  | none => simp
  | some value => simpa using returns_isTruthy value

theorem returns_enabled (env : Keyed String Value) : Returns (enabled env) ↔ IsReadable env := by
  rw [enabled, returns_filterM]
  exact forall₂_congr fun name _ => returns_isEnabled env name

theorem returns_findingsFor (pipeline : Pipeline) (job : Option Job) (step : Option Step)
    (env : Keyed String Value) : Returns (findingsFor pipeline job step env) ↔ IsReadable env := by
  unfold findingsFor
  rw [returns_bind_of_forall, returns_enabled]
  intro names _
  cases names with
  | nil => exact returns_pure _
  | cons name rest => exact returns_pure _

def environments (pipeline : Pipeline) : List (Keyed String Value) :=
  pipeline.env :: pipeline.jobs.values.flatMap fun job => job.env :: job.steps.map (·.env)

theorem returns_check (pipeline : Pipeline) :
    Returns (check pipeline) ↔ ∀ env ∈ environments pipeline, IsReadable env := by
  have jobs : (∀ job ∈ pipeline.orderedJobs, Returns (jobFindings pipeline job)) ↔
      ∀ job ∈ pipeline.jobs.values, ∀ env ∈ job.env :: job.steps.map (·.env), IsReadable env := by
    rw [forall_orderedJobs]
    refine forall₂_congr fun job _ => ?_
    unfold jobFindings
    rw [returns_append_mapM, returns_findingsFor, List.forall_mem_cons, List.forall_mem_map]
    exact and_congr_right fun _ => forall₂_congr fun step _ => returns_findingsFor _ _ _ _
  unfold check
  rw [returns_append_mapM, returns_findingsFor, jobs, environments, List.forall_mem_cons]
  refine and_congr_right fun _ => ?_
  simp only [List.mem_flatMap]
  constructor
  · rintro all env ⟨job, member, inside⟩
    exact all job member env inside
  · intro all job member env inside
    exact all env ⟨job, member, inside⟩

theorem carries_findingsFor (pipeline : Pipeline) (job : Option Job) (step : Option Step)
    (env : Keyed String Value) : Carries id (findingsFor pipeline job step env) := by
  refine carries_bind fun names => ?_
  cases names with
  | nil => exact carries_ok (by simp)
  | cons name rest =>
    refine carries_ok ?_
    intro finding member
    rw [List.mem_singleton.mp member]
    rfl

theorem sound : Sound ⟨id, check⟩ where
  ownId := by decide
  carries := by
    intro pipeline
    refine carries_append_flatten (carries_findingsFor pipeline none none _) fun job => ?_
    exact carries_append_flatten (carries_findingsFor pipeline (some job) none _) fun step =>
      carries_findingsFor pipeline (some job) (some step) _

end DebugLogging

/-! ## Checks that refuse nothing -/

theorem returns_scriptInjection (pipeline : Pipeline) : Returns (ScriptInjection.check pipeline) :=
  returns_ok _

theorem sound_scriptInjection : Sound ⟨ScriptInjection.id, ScriptInjection.check⟩ where
  ownId := by decide
  carries := by
    intro pipeline
    refine carries_ok ?_
    intro finding member
    obtain ⟨job, -, member⟩ := List.mem_flatMap.mp member
    obtain ⟨step, -, member⟩ := List.mem_flatMap.mp member
    unfold ScriptInjection.stepFindings at member
    split at member
    · exact absurd member List.not_mem_nil
    · rw [List.mem_singleton.mp member]
      rfl

theorem returns_allSecrets (pipeline : Pipeline) : Returns (AllSecrets.check pipeline) := by
  unfold AllSecrets.check
  split
  · exact returns_ok _
  · exact returns_ok _

theorem sound_allSecrets : Sound ⟨AllSecrets.id, AllSecrets.check⟩ where
  ownId := by decide
  carries := by
    intro pipeline
    dsimp only
    unfold AllSecrets.check
    split
    · refine carries_ok ?_
      intro finding member
      obtain ⟨job, -, rfl⟩ := List.mem_map.mp member
      rfl
    · exact carries_ok (by simp)

theorem returns_defaultPermissions (pipeline : Pipeline) :
    Returns (DefaultPermissions.check pipeline) := by
  unfold DefaultPermissions.check
  split
  · exact returns_ok _
  · exact returns_ok _

theorem sound_defaultPermissions : Sound ⟨DefaultPermissions.id, DefaultPermissions.check⟩ where
  ownId := by decide
  carries := by
    intro pipeline
    dsimp only
    unfold DefaultPermissions.check
    split
    · refine carries_ok ?_
      intro finding member
      obtain ⟨job, -, rfl⟩ := List.mem_map.mp member
      rfl
    · exact carries_ok (by simp)

end SupplyLint.Rule
