import SupplyLint.Proofs.Rule.Checks
import SupplyLint.Proofs.Rule.Jobs
import SupplyLint.Rule.UntrustedCheckout

/-! # Which steps run after a checkout

The search for a checkout goes through the steps by their positions, so it ends at the
least one (`firstPrCheckout_eq`), and a step is reported exactly if it comes after any
checkout of its own job (`check_reports`). What is reported of a job depends on no other
job (`check_inserts`). -/
set_option autoImplicit false

namespace SupplyLint.Rule.UntrustedCheckout

open SupplyLint.Text

instance (checked : Except Fault Bool) : Decidable (checked = .ok true) :=
  match checked with
  | .ok true => isTrue rfl
  | .ok false => isFalse (by simp)
  | .error _ => isFalse (by simp)

/-! ## Exposed steps -/

/-- A pipeline that an untrusted event starts, in whatever case it is written. -/
def IsUntrusted (pipeline : Pipeline) : Prop :=
  ∃ trigger ∈ pipeline.triggers, ∃ event ∈ untrustedEvents, lower trigger.event = lower event

instance (pipeline : Pipeline) : Decidable (IsUntrusted pipeline) :=
  inferInstanceAs (Decidable (∃ trigger ∈ pipeline.triggers, ∃ event ∈ untrustedEvents,
    lower trigger.event = lower event))

abbrev Placed := Job × Step

/-- All steps, job by job, as often as they occur. -/
def placedSteps (pipeline : Pipeline) : List Placed :=
  pipeline.orderedJobs.flatMap fun job => job.steps.map (job, ·)

/-- A step after a checkout in its job, where an untrusted event starts the pipeline. -/
def IsExposed (pipeline : Pipeline) (placed : Placed) : Prop :=
  IsUntrusted pipeline ∧ ∃ checkout ∈ placed.1.steps,
    isPrCheckout checkout = .ok true ∧ checkout.position < placed.2.position

instance (pipeline : Pipeline) (placed : Placed) : Decidable (IsExposed pipeline placed) :=
  inferInstanceAs (Decidable (IsUntrusted pipeline ∧ ∃ checkout ∈ placed.1.steps,
    isPrCheckout checkout = .ok true ∧ checkout.position < placed.2.position))

structure IsFirst (job : Job) (checkout : Step) : Prop where
  inside : checkout ∈ job.steps
  checksOut : isPrCheckout checkout = .ok true
  least : ∀ other ∈ job.steps, isPrCheckout other = .ok true → checkout.position ≤ other.position

/-- The finding about a step names the position of the first checkout. -/
def IsReport (pipeline : Pipeline) (placed : Placed) (made : Finding) : Prop :=
  ∃ checkout, IsFirst placed.1 checkout ∧ made = finding pipeline placed.1 checkout placed.2 ∧
    made.evidence = [("checkout_step", toString checkout.position)]

theorem hasAnyEvent_iff {pipeline : Pipeline} :
    hasAnyEvent pipeline untrustedEvents = true ↔ IsUntrusted pipeline :=
  hasAnyEvent_eq_true_iff

theorem firstCheckout_spec {steps : List Step}
    (ordered : steps.Pairwise fun earlier later => earlier.position ≤ later.position)
    (written : ∀ step ∈ steps, HasTextScript step) :
    (firstCheckout steps = .ok none ∧ ∀ step ∈ steps, isPrCheckout step ≠ .ok true) ∨
      ∃ checkout ∈ steps, firstCheckout steps = .ok (some checkout) ∧
        isPrCheckout checkout = .ok true ∧
        ∀ other ∈ steps, isPrCheckout other = .ok true → checkout.position ≤ other.position := by
  induction steps with
  | nil => exact Or.inl ⟨rfl, fun step member => absurd member List.not_mem_nil⟩
  | cons step rest ih =>
    rw [List.forall_mem_cons] at written
    rw [List.pairwise_cons] at ordered
    obtain ⟨checksOut, checked⟩ := returns_isPrCheckout written.1
    rw [firstCheckout, checked, ok_bind]
    cases checksOut with
    | true =>
      refine Or.inr ⟨step, List.mem_cons_self, rfl, checked, fun other member _ => ?_⟩
      rcases List.mem_cons.mp member with rfl | later
      · exact le_refl _
      · exact ordered.1 other later
    | false =>
      have passed : isPrCheckout step ≠ .ok true := by simp [checked]
      rcases ih ordered.2 written.2 with ⟨none, never⟩ | ⟨checkout, inside, some, checks, least⟩
      · exact Or.inl ⟨none, List.forall_mem_cons.mpr ⟨passed, never⟩⟩
      · refine Or.inr ⟨checkout, List.mem_cons_of_mem _ inside, some, checks, ?_⟩
        exact List.forall_mem_cons.mpr ⟨fun checks => absurd checks passed, least⟩

/-- The search by position ends at the first checkout, or there is none in any position. -/
theorem firstPrCheckout_eq {job : Job} (written : ∀ step ∈ job.steps, HasTextScript step) :
    (firstPrCheckout job = .ok none ∧ ∀ step ∈ job.steps, isPrCheckout step ≠ .ok true) ∨
      ∃ checkout, firstPrCheckout job = .ok (some checkout) ∧ IsFirst job checkout := by
  have spec := firstCheckout_spec
      (sortsBy_mergeSort Step.position job.steps).ordered fun step member =>
    written step (List.mem_mergeSort.mp member)
  simp only [List.mem_mergeSort] at spec
  rcases spec with never | ⟨checkout, inside, found, checks, least⟩
  · exact Or.inl never
  · exact Or.inr ⟨checkout, found, inside, checks, least⟩

theorem isReport_finding (pipeline : Pipeline) {job : Job} {checkout : Step}
    (first : IsFirst job checkout)
    (step : Step) : IsReport pipeline (job, step) (finding pipeline job checkout step) :=
  ⟨checkout, first, rfl, List.mergeSort_singleton _⟩

/-! ## What is reported -/

section Reported
variable {pipeline : Pipeline}

theorem isExposed_iff {job : Job} {checkout : Step} (untrusted : IsUntrusted pipeline)
    (first : IsFirst job checkout) (step : Step) :
    IsExposed pipeline (job, step) ↔ checkout.position < step.position := by
  constructor
  · rintro ⟨-, other, inside, checks, earlier⟩
    exact lt_of_le_of_lt (first.least other inside checks) earlier
  · intro later
    exact ⟨untrusted, checkout, first.inside, first.checksOut, later⟩

theorem jobFindings_reports {job : Job} (untrusted : IsUntrusted pipeline)
    (written : ∀ step ∈ job.steps, HasTextScript step) :
    ∃ findings, jobFindings pipeline job = .ok findings ∧
      List.Forall₂ (IsReport pipeline)
        ((job.steps.map (job, ·)).filter fun placed => IsExposed pipeline placed) findings := by
  rcases firstPrCheckout_eq written with ⟨none, never⟩ | ⟨checkout, some, first⟩
  · refine ⟨[], by rw [jobFindings, none, ok_bind]; rfl, ?_⟩
    have safe : (job.steps.map (job, ·)).filter
        (fun placed => decide (IsExposed pipeline placed)) = [] := by
      refine List.filter_eq_nil_iff.mpr fun placed member exposed => ?_
      obtain ⟨step, -, rfl⟩ := List.mem_map.mp member
      obtain ⟨-, other, inside, checks, -⟩ := of_decide_eq_true exposed
      exact never other inside checks
    rw [safe]
    exact .nil
  · refine ⟨(job.stepsAfter checkout.position).map (finding pipeline job checkout),
      by rw [jobFindings, some, ok_bind]; rfl, ?_⟩
    have exposed : (job.steps.map (job, ·)).filter
        (fun placed => decide (IsExposed pipeline placed)) =
        (job.stepsAfter checkout.position).map (job, ·) := by
      simp only [Job.stepsAfter, List.filter_map, Function.comp_def, isExposed_iff untrusted first]
    rw [exposed, List.forall₂_map_left_iff, List.forall₂_map_right_iff, List.forall₂_same]
    exact fun step _ => isReport_finding pipeline first step

theorem gathered_reports {jobs : List Job} (untrusted : IsUntrusted pipeline)
    (written : ∀ job ∈ jobs, ∀ step ∈ job.steps, HasTextScript step) :
    ∃ findings, gathered (jobFindings pipeline) jobs = .ok findings ∧
      List.Forall₂ (IsReport pipeline)
        ((jobs.flatMap fun job => job.steps.map (job, ·)).filter fun placed =>
          IsExposed pipeline placed)
        findings := by
  induction jobs with
  | nil => exact ⟨[], rfl, .nil⟩
  | cons job rest ih =>
    rw [List.forall_mem_cons] at written
    obtain ⟨own, found, reports⟩ := jobFindings_reports untrusted written.1
    obtain ⟨others, foundToo, otherReports⟩ := ih written.2
    refine ⟨own ++ others, by rw [gathered_cons, found, foundToo]; rfl, ?_⟩
    rw [List.flatMap_cons, List.filter_append]
    exact List.rel_append reports otherReports

theorem check_of_isUntrusted (untrusted : IsUntrusted pipeline) :
    check pipeline = gathered (jobFindings pipeline) pipeline.orderedJobs := by
  rw [check, if_pos (hasAnyEvent_iff.mpr untrusted)]
  rfl

theorem check_of_not_isUntrusted (trusted : ¬ IsUntrusted pipeline) : check pipeline = .ok [] := by
  rw [check, if_neg (hasAnyEvent_iff.not.mpr trusted)]

/-- The findings are the reports of the exposed steps, one for each in the order of jobs and
steps. -/
theorem check_reports
    (written : ∀ job ∈ pipeline.jobs.values, ∀ step ∈ job.steps, HasTextScript step) :
    ∃ findings, check pipeline = .ok findings ∧
      List.Forall₂ (IsReport pipeline)
        ((placedSteps pipeline).filter fun placed => IsExposed pipeline placed) findings := by
  by_cases untrusted : IsUntrusted pipeline
  · rw [check_of_isUntrusted untrusted]
    exact gathered_reports untrusted (forall_orderedJobs.mpr written)
  · refine ⟨[], check_of_not_isUntrusted untrusted, ?_⟩
    have safe : (placedSteps pipeline).filter
        (fun placed => decide (IsExposed pipeline placed)) = [] :=
      List.filter_eq_nil_iff.mpr fun placed _ exposed => untrusted (of_decide_eq_true exposed).1
    rw [safe]
    exact .nil

end Reported

def withJobs (pipeline : Pipeline) (jobs : Jobs) : Pipeline :=
  { pipeline with jobs := jobs }

theorem orderedJobs_single (pipeline : Pipeline) (entry : String × Job) :
    (withJobs pipeline [entry]).orderedJobs = [entry.2] :=
  List.mergeSort_singleton _

/-- What a job alone is reported for is put between what the other jobs are reported for. -/
theorem check_inserts {pipeline : Pipeline} {before after : Jobs} {entry : String × Job}
    (jobs : pipeline.jobs = before ++ entry :: after)
    (written : ∀ step ∈ entry.2.steps, HasTextScript step) :
    ∃ own, check (withJobs pipeline [entry]) = .ok own ∧
      Inserts own (check pipeline) (check (withJobs pipeline (before ++ after))) := by
  by_cases untrusted : IsUntrusted pipeline
  · obtain ⟨own, found, -⟩ := jobFindings_reports untrusted written
    obtain ⟨left, right, whole, inPlace⟩ := Jobs.ordered_inPlace before after entry.1 entry.2
    have others : (withJobs pipeline (before ++ after)).orderedJobs = left ++ right :=
      inPlace [] (by simp [Keyed.values])
    refine ⟨own, ?_, ?_⟩
    · rw [check_of_isUntrusted (show IsUntrusted (withJobs pipeline [entry]) from untrusted),
        orderedJobs_single, gathered_cons]
      show joined (jobFindings pipeline entry.2) (.ok []) = .ok own
      rw [found]
      exact congrArg Except.ok (List.append_nil own)
    · rw [check_of_isUntrusted untrusted,
        check_of_isUntrusted
          (show IsUntrusted (withJobs pipeline (before ++ after)) from untrusted), others,
        Pipeline.orderedJobs, jobs, whole]
      exact inserts_gathered found left right
  · refine ⟨[], check_of_not_isUntrusted
      (show ¬ IsUntrusted (withJobs pipeline [entry]) from untrusted), ?_⟩
    rw [check_of_not_isUntrusted untrusted,
      check_of_not_isUntrusted
        (show ¬ IsUntrusted (withJobs pipeline (before ++ after)) from untrusted)]
    exact .found [] []

/-- In a pipeline whose scripts are texts exactly the exposed steps are reported, each occurrence
once and with the first checkout of its job; what a job adds to the report is what it is reported
for alone. -/
theorem exposed_steps_are_reported (pipeline : Pipeline)
    (written : ∀ job ∈ pipeline.jobs.values, ∀ step ∈ job.steps, HasTextScript step) :
    (∃ findings, check pipeline = .ok findings ∧
      List.Forall₂ (IsReport pipeline)
        ((placedSteps pipeline).filter fun placed => IsExposed pipeline placed) findings) ∧
    ∀ before entry after, pipeline.jobs = before ++ entry :: after →
      ∃ own, check (withJobs pipeline [entry]) = .ok own ∧
        Inserts own (check pipeline) (check (withJobs pipeline (before ++ after))) := by
  refine ⟨check_reports written, fun before entry after jobs =>
    check_inserts jobs (written entry.2 ?_)⟩
  rw [jobs, Keyed.values, List.map_append, List.map_cons]
  exact List.mem_append_right _ List.mem_cons_self

/-! ### Two checkouts, steps in no order -/

def script (position : Int) (text : String) : Step :=
  { position := position, action := .run (.text text) .null }

def testing : Job :=
  { name := "test", index := 1
    steps := [script 7 "make", script 5 "git fetch origin pull/1/head", script 3 "gh pr checkout 1",
      script 3 "echo done"] }

def linting : Job :=
  { name := "lint", index := 0, steps := [script 9 "make lint"] }

def mixed : Pipeline :=
  { platform := .github, path := "ci.yml", triggers := [{ event := "Pull_Request_Target" }]
    jobs := [("test", testing), ("lint", linting)] }

theorem hasTextScript_script (position : Int) (text : String) : HasTextScript
    (script position text) := by
  intro script shell action
  obtain ⟨rfl, -⟩ := Action.run.inj action
  exact ⟨text, rfl⟩

theorem mixed_written : ∀ job ∈ mixed.jobs.values, ∀ step ∈ job.steps, HasTextScript step := by
  simp [mixed, testing, linting, Keyed.values, hasTextScript_script]

theorem mixed_isUntrusted : IsUntrusted mixed := by
  decide +kernel

theorem isFirst_testing : IsFirst testing (script 3 "gh pr checkout 1") where
  inside := by simp [testing]
  checksOut := by decide +kernel
  least := by
    have least : ∀ other ∈ testing.steps, 3 ≤ other.position := by simp [testing, script]
    exact fun other inside _ => least other inside

theorem exposed_mixed : ((placedSteps mixed).filter fun placed => IsExposed mixed placed) =
    [(testing, script 7 "make"), (testing, script 5 "git fetch origin pull/1/head")] := by
  have ordered : mixed.orderedJobs = [linting, testing] := by
    have sorted : SortsBy Job.index [linting, testing] [linting, testing] :=
      ⟨.refl _, by simp [linting, testing], fun _ => rfl⟩
    exact (Jobs.sortsBy_ordered mixed.jobs).eq_of_perm sorted (.swap _ _ []) (by decide)
  have placed : placedSteps mixed = linting.steps.map
      (linting, ·) ++ testing.steps.map (testing, ·) := by
    rw [placedSteps, ordered]
    rfl
  have quiet : ¬ ∃ step ∈ linting.steps, isPrCheckout step = .ok true := by decide +kernel
  have safe (step : Step) : ¬ IsExposed mixed (linting, step) := by
    rintro ⟨-, checkout, inside, checks, -⟩
    exact quiet ⟨checkout, inside, checks⟩
  have exposed := isExposed_iff mixed_isUntrusted isFirst_testing
  rw [placed]
  simp only [List.filter_append, List.filter_map, Function.comp_def, safe, exposed]
  rfl

theorem mixed_steps_are_reported :
    (∀ job ∈ mixed.jobs.values, ∀ step ∈ job.steps, HasTextScript step) ∧
      (∃ findings, check mixed = .ok findings ∧ List.Forall₂ (IsReport mixed)
        [(testing, script 7 "make"), (testing, script 5 "git fetch origin pull/1/head")] findings) ∧
      ∃ own, check (withJobs mixed [("test", testing)]) = .ok own ∧
        Inserts own (check mixed) (check (withJobs mixed [("lint", linting)])) := by
  obtain ⟨reports, apart⟩ := exposed_steps_are_reported mixed mixed_written
  rw [exposed_mixed] at reports
  exact ⟨mixed_written, reports, apart [] ("test", testing) [("lint", linting)] rfl⟩

end SupplyLint.Rule.UntrustedCheckout
