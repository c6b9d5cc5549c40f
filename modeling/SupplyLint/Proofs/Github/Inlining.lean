import SupplyLint.Proofs.Github.Calls
import SupplyLint.Proofs.Github.JobNames
import SupplyLint.Proofs.Inlined

/-! # Calls agree with the workflows that they are followed to

`normalize_under`: where no other job of a workflow stands under a job that calls
a file, the jobs under it are those of the pipeline of the file, and the problems
of the call are those of the file. -/
set_option autoImplicit false

namespace SupplyLint.Github

open SupplyLint.Jobs
open SupplyLint.Needs

/-! ## A call and the file that it opens -/

def openContent (path : String) (content : List UInt8) : Normalizing (Option Entries) := do
  match ← Source.documents path content with
  | none => return none
  | some values => Source.mapping path values

theorem outcome_openContent (path : String) (content : List UInt8) :
    outcome (openContent path content) = entriesOf path content := by
  unfold openContent entriesOf
  rw [outcome_bind]
  refine congrArg _ (funext fun values => ?_)
  cases values with
  | none => rfl
  | some values => rfl

theorem openTarget_of_found {resolve : Resolver} {target : String} {content : List UInt8}
    (found : resolve target = .ok (some content)) (path : String) (caller : Job) :
    openTarget resolve path caller target = openContent target content := by
  unfold openTarget
  rw [found]
  rfl

theorem normalize_eq (resolve : Resolver) (path : String) (content : List UInt8) :
    normalize resolve path content =
      (openContent path content >>= fun
        | none => pure { platform := .github, path := path }
        | some raw => pipelineOf resolve path raw) := by
  unfold normalize openContent
  simp only [bind_assoc]
  refine congrArg _ (funext fun values => ?_)
  cases values with
  | none => rfl
  | some values => rfl

/-- A file that a workflow calls without being refused, here or further on. -/
structure Callable (resolve : Resolver) (path target : String) (content : List UInt8) : Prop where
  found : resolve target = .ok (some content)
  isWorkflow : isActionMetadata target = false
  elsewhere : target ≠ path
  unrefused : ∀ called, entriesOf target content = .ok (some called) →
    NoneRefused resolve ⟨[path, target], called⟩

abbrev followTop (resolve : Resolver) (path : String) : Follow :=
  followCall resolve (maxFiles - 1) [path]

section Callable
variable {resolve : Resolver} {path target : String} {content : List UInt8}

theorem Callable.pipelineOf_eq (callable : Callable resolve path target content) {raw : Entries}
    (opens : entriesOf target content = .ok (some raw)) :
    pipelineOf resolve target raw = workflow resolve (maxFiles - 2) [path, target] target raw := by
  have noAction : ¬ isActionMetadata target = true := by simp [callable.isWorkflow]
  have shorter : [target] ⊆ [path, target] := List.subset_cons_self path [target]
  rw [pipelineOf, if_neg noAction]
  exact workflow_congr (callable.unrefused raw opens) shorter (Nat.le_succ 1) target

theorem Callable.follow_eq (callable : Callable resolve path target content) (caller : Job) :
    followTop resolve path path caller target =
      (openContent target content >>= fun
        | none => pure none
        | some raw => some <$> pipelineOf resolve target raw) := by
  have outside : target ∉ [path] := by simpa using callable.elsewhere
  show followCall resolve (maxFiles - 2 + 1) [path] path caller target = _
  rw [followCall_of_not_mem _ _ _ _ outside, openTarget_of_found callable.found]
  refine bind_congr_of_outcome fun found opens => ?_
  cases found with
  | none => rfl
  | some raw =>
    rw [outcome_openContent] at opens
    exact congrArg (some <$> ·) (callable.pipelineOf_eq opens).symm

theorem Callable.noted_follow (callable : Callable resolve path target content) (caller : Job) :
    noted (followTop resolve path path caller target) = noted
      (normalize resolve target content) := by
  rw [callable.follow_eq, normalize_eq]
  cases opens : outcome (openContent target content) with
  | error failure => rw [noted_bind_of_error opens, noted_bind_of_error opens]
  | ok found =>
    rw [noted_bind_of_ok opens, noted_bind_of_ok opens]
    cases found with
    | none => rfl
    | some raw => rw [noted_map]

theorem Callable.outcome_follow (callable : Callable resolve path target content) {caller : Job}
    {result : Option Pipeline}
    (followed : outcome (followTop resolve path path caller target) = .ok result) :
    ∃ called, outcome (normalize resolve target content) = .ok called ∧
      calledJobs result = called.jobs ∧ result.elim none (·.permissions) = called.permissions := by
  rw [callable.follow_eq, outcome_bind, bind_eq_ok] at followed
  obtain ⟨found, opens, followed⟩ := followed
  rw [normalize_eq, outcome_bind, opens, ok_bind]
  cases found with
  | none =>
    obtain rfl := Except.ok.inj followed
    exact ⟨_, rfl, rfl, rfl⟩
  | some raw =>
    simp only [outcome_map, map_eq_ok] at followed
    obtain ⟨called, read, rfl⟩ := followed
    exact ⟨called, read, rfl, rfl⟩

end Callable

/-! ## The jobs of a workflow, one entry after another -/

/-- The names of the jobs that an entry stands for: its own, and those of the jobs that it brings
in. -/
def Brings (follow : Follow) (path : String) (entry : Value × Value) (name : String) : Prop :=
  ∃ own raw, entry.1.toText = .ok own ∧ entry.2 = .map raw ∧ (name = own ∨
    ∃ target caller called, EntryCalls entry target ∧
      outcome (follow path caller target) = .ok (some called) ∧
      ∃ job ∈ called.orderedJobs, name = own ++ "/" ++ job.name)

theorem renames_adopted (caller : String) (called : Option (Keyed String String)) :
    Renames caller (adopted caller called) :=
  ⟨fun _ => rfl, fun _ => rfl⟩

section Entries
variable {follow : Follow} {path : String} {jobs result : Jobs}

theorem parseJobs_append (first second : Entries) (jobs : Jobs) :
    parseJobs follow path (first ++ second) jobs =
      parseJobs follow path first jobs >>= parseJobs follow path second := by
  induction first generalizing jobs with
  | nil => exact (pure_bind _ _).symm
  | cons entry rest ih =>
    obtain ⟨key, raw⟩ := entry
    cases raw with
    | map raw =>
      simp only [List.cons_append, parseJobs, bind_assoc]
      refine congrArg _ (funext fun name => congrArg _ (funext fun written => ?_))
      cases callTarget written with
      | none => exact ih _
      | some target =>
        simp only [bind_assoc]
        refine congrArg _ (funext fun called => ?_)
        cases called with
        | none => exact ih _
        | some called => exact ih _
    | _ => simp only [List.cons_append, parseJobs, bind_assoc, ih]

theorem wellKeyed_parseJobs (entries : Entries) {jobs : Jobs} (keyed : WellKeyed jobs)
    (read : outcome (parseJobs follow path entries jobs) = .ok result) : WellKeyed result := by
  refine parseJobs_keeps WellKeyed entries ?_ keyed read
  intro key own _ name written called before _ wrote _ keyed
  obtain ⟨rfl, -, -⟩ := job_identity wrote
  rw [inlined_eq]
  exact wellKeyed_placeAll _ (wellKeyed_put keyed written)

theorem under_parseJobs_of_elsewhere {caller : String} (entries : Entries) {jobs : Jobs}
    (elsewhere : ∀ entry ∈ entries, ∀ name, Brings follow path entry name →
      isUnder caller name = false)
    (read : outcome (parseJobs follow path entries jobs) = .ok result) :
    under caller result = under caller jobs := by
  refine parseJobs_keeps (fun reached => under caller reached = under caller jobs)
    entries ?_ rfl read
  intro key raw member name written called before named wrote followed same
  have brings := elsewhere _ member
  have ownName := brings name ⟨name, raw, named, rfl, Or.inl rfl⟩
  refine Eq.trans ?_ ((under_put ownName written).trans same)
  cases called with
  | none => rfl
  | some called =>
    obtain ⟨target, call, calledRead⟩ := followed.exists_target
    rw [inlined_eq]
    refine under_placeAll_of_elsewhere _ ?_
    intro job adoptedJob
    obtain ⟨old, inside, rfl⟩ := List.mem_map.mp adoptedJob
    exact brings _ ⟨name, raw, named, rfl, Or.inr ⟨target, written, called,
      (entryCalls_iff wrote).mpr call, calledRead, old, inside, rfl⟩⟩

def FollowsSettled (follow : Follow) : Prop :=
  ∀ path caller target result, outcome (follow path caller target) = .ok result →
    ∃ names, Settled names (calledJobs result)

def adoptedJobs (caller : String) (result : Option Pipeline) : List Job :=
  (calledJobs result).ordered.map (adopted caller (result.elim none (·.permissions)))

theorem under_inlined {caller : String} {called : Option Pipeline} {names : List String}
    (settled : Settled names (calledJobs called)) (none : under caller jobs = []) :
    under caller (inlined caller called jobs) = numbered jobs.length
      (adoptedJobs caller called) := by
  rw [inlined_eq]
  exact under_adoptAll (renames_adopted caller _) settled.placed.keyed none

theorem parseJobs_call {caller target : String} {key : Value} {raw before after : Entries}
    (named : key.toText = .ok caller) (calls : EntryCalls (key, .map raw) target)
    (read : outcome (parseJobs follow path (before ++ (key, .map raw) :: after) jobs) =
      .ok result) :
    ∃ earlier written called,
      outcome (parseJobs follow path before jobs) = .ok earlier ∧
      outcome (follow path written target) = .ok called ∧
      outcome (parseJobs follow path after (inlined caller called (earlier.put caller written))) =
        .ok result ∧
      noted (follow path written target) <:+:
        noted (parseJobs follow path (before ++ (key, .map raw) :: after) jobs) := by
  rw [parseJobs_append] at read ⊢
  rw [outcome_bind, bind_eq_ok] at read
  obtain ⟨earlier, earlierRead, read⟩ := read
  obtain ⟨own, written, called, ownNamed, wrote, followed, read'⟩ := parseJobs_cons read
  obtain rfl := Except.ok.inj (named.symm.trans ownNamed)
  have call := (entryCalls_iff wrote).mp calls
  rw [Followed, call] at followed
  refine ⟨earlier, written, called, earlierRead, followed, read', ?_⟩
  refine List.IsInfix.trans ?_ (noted_infix_bind_second earlierRead)
  have toText : outcome (liftM key.toText : Normalizing String) = .ok caller := by
    rw [outcome_fault, named]
    rfl
  simp only [parseJobs]
  refine List.IsInfix.trans ?_ (noted_infix_bind_second toText)
  refine List.IsInfix.trans ?_ (noted_infix_bind_second wrote)
  rw [call]
  exact noted_infix_bind_first _ _

theorem under_parseJobs {caller target : String} {key : Value} {raw before after : Entries}
    (follows : FollowsSettled follow) (named : key.toText = .ok caller)
    (calls : EntryCalls (key, .map raw) target)
    (alone : ∀ entry ∈ before ++ after, ∀ name, Brings follow path entry name →
      isUnder caller name = false)
    (read : outcome (parseJobs follow path (before ++ (key, .map raw) :: after) []) = .ok jobs) :
    ∃ written called first, outcome (follow path written target) = .ok called ∧
      under caller jobs = numbered first (adoptedJobs caller called) ∧
      noted (follow path written target) <:+:
        noted (parseJobs follow path (before ++ (key, .map raw) :: after) []) := by
  obtain ⟨earlier, written, called, earlierRead, followed, laterRead, problems⟩ :=
    parseJobs_call named calls read
  obtain ⟨names, settled⟩ := follows path written target called followed
  have noEarlier : under caller earlier = [] :=
    under_parseJobs_of_elsewhere before
      (fun entry member => alone entry (List.mem_append_left after member)) earlierRead
  have noOwn : under caller (earlier.put caller written) = [] := by
    rw [under_put (isUnder_self caller), noEarlier]
  have atCall := under_inlined settled noOwn
  have later : under caller jobs = under caller
      (inlined caller called (earlier.put caller written)) :=
    under_parseJobs_of_elsewhere after
      (fun entry member => alone entry (List.mem_append_right before member)) laterRead
  exact ⟨written, called, _, followed, later.trans atCall, problems⟩

end Entries

/-! ## Whole workflows -/

theorem noted_jobsOf {follow : Follow} {path : String} {raw : Entries} {pipeline : Pipeline}
    (read : outcome (workflowWith follow path raw) = .ok pipeline) :
    noted (jobsOf follow path (Value.field raw "jobs")) <:+: noted
      (workflowWith follow path raw) := by
  unfold workflowWith at read ⊢
  simp only [outcome_bind, bind_eq_ok] at read
  obtain ⟨_, keys, _, started, _, granted, _, env, -⟩ := read
  refine List.IsInfix.trans ?_ (noted_infix_bind_second keys)
  refine List.IsInfix.trans ?_ (noted_infix_bind_second started)
  refine List.IsInfix.trans ?_ (noted_infix_bind_second granted)
  refine List.IsInfix.trans ?_ (noted_infix_bind_second env)
  exact noted_infix_bind_first _ _

theorem followTop_settled (resolve : Resolver) (path : String) :
    FollowsSettled (followTop resolve path) := by
  intro source caller target result followed
  cases result with
  | none => exact ⟨[], settled_nil⟩
  | some called =>
    obtain ⟨below, raw, -, read⟩ := followCall_eq_ok followed
    obtain ⟨names, -, settled⟩ := workflow_settled resolve below _ target raw read
    exact ⟨names, settled⟩

/-- One job of a workflow calls a file, and no other job of it stands under that job. -/
def CallsAlone (resolve : Resolver) (path : String) (raw : Entries)
    (caller target : String) : Prop :=
  ∃ before entry after, Field.entries (Value.field raw "jobs") = before ++ entry :: after ∧
    entry.1.toText = .ok caller ∧ EntryCalls entry target ∧
    ∀ other ∈ before ++ after, ∀ name, Brings (followTop resolve path) path other name →
      isUnder caller name = false

theorem workflow_under {resolve : Resolver} {path caller target : String} {raw : Entries}
    {pipeline : Pipeline} (calls : CallsAlone resolve path raw caller target)
    (read : outcome (workflow resolve (maxFiles - 1) [path] path raw) = .ok pipeline) :
    ∃ written called, outcome (followTop resolve path path written target) = .ok called ∧
      StandUnder caller pipeline.jobs (adoptedJobs caller called) ∧
      noted (followTop resolve path path written target) <:+:
        noted (workflow resolve (maxFiles - 1) [path] path raw) := by
  obtain ⟨before, ⟨key, value⟩, after, entries, named, entryCalls, alone⟩ := calls
  have same := entryCalls
  obtain ⟨own, -, rfl, -, -⟩ := same
  rw [workflow_eq] at read ⊢
  have problems := noted_jobsOf read
  obtain ⟨_, _, jobs, -, jobsRead, rfl⟩ := workflowWith_eq_ok read
  cases field : Value.field raw "jobs" with
  | map all =>
    rw [field] at entries
    rw [field, jobsOf, entries] at jobsRead problems
    simp only [outcome_bind, bind_eq_ok, outcome_noted, Except.ok.injEq] at jobsRead
    obtain ⟨found, parsed, rfl⟩ := jobsRead
    obtain ⟨written, called, first, followed, placed, inside⟩ :=
      under_parseJobs (followTop_settled resolve path) named entryCalls alone parsed
    obtain ⟨names, settled⟩ := followTop_settled resolve path _ _ _ _ followed
    have keyed := wellKeyed_parseJobs _ placed_nil.keyed parsed
    refine ⟨written, called, followed, ?_, ?_⟩
    · exact standUnder_validate (renames_adopted caller _) keyed settled placed path
    · exact inside.trans ((noted_infix_bind_first _ _).trans problems)
  | _ =>
    rw [field] at entries
    exact absurd entries (by simp [Field.entries])

/-- The jobs under a job that calls a file are those of the file, and the problems of the call are
those of the file. -/
theorem normalize_under {resolve : Resolver} {path caller target : String}
    {content called : List UInt8} {raw : Entries} {pipeline : Pipeline}
    (holds : entriesOf path content = .ok (some raw)) (isWorkflow : isActionMetadata path = false)
    (calls : CallsAlone resolve path raw caller target)
    (callable : Callable resolve path target called)
    (read : outcome (normalize resolve path content) = .ok pipeline) :
    ∃ own, outcome (normalize resolve target called) = .ok own ∧
      StandUnder caller pipeline.jobs (own.orderedJobs.map (adopted caller own.permissions)) ∧
      noted (normalize resolve target called) <:+: noted (normalize resolve path content) := by
  have opens : outcome (openContent path content) = .ok (some raw) := by
    rw [outcome_openContent, holds]
  have noAction : ¬ isActionMetadata path = true := by simp [isWorkflow]
  have reads : pipelineOf resolve path raw = workflow resolve (maxFiles - 1) [path] path raw :=
    if_neg noAction
  rw [normalize_eq, outcome_bind, opens, ok_bind] at read
  have read : outcome (workflow resolve (maxFiles - 1) [path] path raw) = .ok pipeline :=
    reads ▸ read
  obtain ⟨written, result, followed, under, inside⟩ := workflow_under calls read
  obtain ⟨own, ownRead, jobs, permissions⟩ := callable.outcome_follow followed
  refine ⟨own, ownRead, ?_, ?_⟩
  · rw [adoptedJobs, jobs, permissions] at under
    exact under
  · rw [← callable.noted_follow written, normalize_eq resolve path, noted_bind_of_ok opens]
    refine inside.trans ?_
    rw [← reads]
    exact (List.suffix_append _ _).isInfix

end SupplyLint.Github
