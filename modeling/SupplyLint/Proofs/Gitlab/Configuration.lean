import SupplyLint.Gitlab.Configuration
import SupplyLint.Proofs.Placement

/-! # Configurations and what they trigger

What the reading of a configuration does in one step: it puts in a job, and
behind it the jobs of the child pipeline that it triggers. -/
set_option autoImplicit false

namespace SupplyLint.Gitlab

open SupplyLint.Jobs

theorem job_eq_ok {path name : String} {index : Nat} {raw defaults : Entries} {written : Job}
    (read : outcome (job path name index raw defaults) = .ok written) :
    ∃ lines waited labels env,
      steps raw defaults = .ok lines ∧
      outcome (needs path name (Value.field raw "needs")) = .ok waited ∧
      Field.texts (setting raw defaults "tags") = .ok labels ∧
      variablesOf (Value.field raw "variables") = .ok env ∧
      written =
        { name := name
          index := index
          steps := lines
          labels := .list (labels.map .text)
          env := env
          needs := waited
          images := (imageNames (setting raw defaults "image") ++
            imageNames (setting raw defaults "services")).filterMap PackageRef.ofImage
          originPath := path
          originName := name
          line := Field.line (.map raw) } := by
  unfold job at read
  dsimp only at read
  split at read
  all_goals
    simp only [outcome_bind, bind_eq_ok, outcome_fault, outcome_noted, uncaught_eq_ok, outcome_pure,
      Except.ok.injEq, exists_const, true_and] at read
    obtain ⟨lines, linesRead, waited, waitedRead, labels, labelsRead, env, envRead, rfl⟩ := read
    exact ⟨lines, waited, labels, env, linesRead, waitedRead, labelsRead, envRead, rfl⟩

theorem job_identity {path name : String} {index : Nat} {raw defaults : Entries} {written : Job}
    (read : outcome (job path name index raw defaults) = .ok written) :
    written.name = name ∧ written.index = index := by
  obtain ⟨lines, waited, labels, env, -, -, -, -, rfl⟩ := job_eq_ok read
  exact ⟨rfl, rfl⟩

/-! ## Child pipelines -/

def adopted (caller : String) (shared : Keyed String Value) (job : Job) : Job :=
  { job with
    name := caller ++ "/" ++ job.name
    needs := job.needs.map fun need => caller ++ "/" ++ need
    env := shared.putAll job.env }

theorem foldl_adopt (caller : String) (shared : Keyed String Value) (inner : List Job)
    (jobs : Jobs) :
    inner.foldl (adopt caller shared) jobs =
      (inner.map (adopted caller shared)).foldl Jobs.place jobs := by
  rw [List.foldl_map]
  rfl

def openedFiles (resolve : Resolver) (chain : List String) (path caller : String)
    (includes : Value) : Except Failure ChildFiles :=
  outcome (childFiles (enter resolve path chain) path (caller ++ ".trigger.include")
    includes.asList {})

def withChild (caller : String) (first : String) (shared : Keyed String Value)
    (files : ChildFiles) (child gathered : Gathered) : Gathered :=
  { gathered with
    jobs := ((Needs.validate child.jobs first).value.ordered.map
      (adopted caller shared)).foldl Jobs.place gathered.jobs
    references := gathered.references ++ files.references ++ child.references }

section Step
variable {resolve : Resolver} {parse : Option Parsing} {chain : List String}
variable {path jobPath caller : String} {gathered result : Gathered}

theorem inlineChild_eq_ok {includes : Value}
    (read : outcome (inlineChild resolve parse chain path caller includes gathered) = .ok result) :
    ∃ files, openedFiles resolve chain path caller includes = .ok files ∧
      ((parse = none ∨ files.origins = []) ∧
          result = { gathered with references := gathered.references ++ files.references } ∨
        ∃ childOf key first rest shared child,
          parse = some childOf ∧ files.origins = (key, first) :: rest ∧
          outcome (childOf (chain ++ originFiles files.origins) first files.origins files.entries) =
            .ok child ∧
          variablesOf (Value.field files.entries "variables") = .ok shared ∧
          result = withChild caller first shared files child gathered) := by
  simp only [inlineChild, outcome_bind, bind_eq_ok] at read
  obtain ⟨files, opened, read⟩ := read
  refine ⟨files, opened, ?_⟩
  cases parse with
  | none =>
    simp only [outcome_pure, Except.ok.injEq] at read
    exact Or.inl ⟨Or.inl rfl, read.symm⟩
  | some childOf =>
    cases origins : files.origins with
    | nil =>
      rw [origins] at read
      simp only [outcome_pure, Except.ok.injEq] at read
      exact Or.inl ⟨Or.inr rfl, read.symm⟩
    | cons origin rest =>
      obtain ⟨key, first⟩ := origin
      rw [origins] at read
      simp only [outcome_bind, bind_eq_ok, outcome_fault, uncaught_eq_ok, outcome_noted,
        outcome_pure, Except.ok.injEq] at read
      obtain ⟨shared, sharedRead, child, childRead, jobs, rfl, rfl⟩ := read
      refine Or.inr ⟨childOf, key, first, rest, shared, child, rfl, rfl, childRead, sharedRead, ?_⟩
      rw [withChild, ← foldl_adopt]

def withJob (written : Job) (gathered : Gathered) : Gathered :=
  { gathered with jobs := gathered.jobs.put written.name written }

theorem addJob_eq_ok {written : Job} {raw : Entries}
    (read : outcome (addJob resolve parse chain path jobPath written raw gathered) = .ok result) :
    Keyed.get? raw (.text "trigger") = none ∧ result = withJob written gathered ∨
      ∃ trigger downstream, Keyed.get? raw (.text "trigger") = some trigger ∧
        Downstream.ofValue trigger = .ok downstream ∧
        match downstream with
        | .project ref => result = withJob { written with package := ref } gathered
        | .child includes =>
          outcome (inlineChild resolve parse chain path written.name includes
            (withJob written gathered)) = .ok result
        | .malformed _ => result = withJob written gathered := by
  unfold addJob at read
  cases found : Keyed.get? raw (.text "trigger") with
  | none =>
    rw [found] at read
    simp only [outcome_pure, Except.ok.injEq] at read
    exact Or.inl ⟨rfl, read.symm⟩
  | some trigger =>
    rw [found] at read
    simp only [outcome_bind, bind_eq_ok, outcome_fault, uncaught_eq_ok] at read
    obtain ⟨downstream, starts, read⟩ := read
    refine Or.inr ⟨trigger, downstream, rfl, starts, ?_⟩
    cases downstream with
    | project ref =>
      simp only [outcome_pure, Except.ok.injEq] at read
      exact read.symm
    | malformed reason =>
      simp only [outcome_bind, bind_eq_ok, outcome_pure, Except.ok.injEq] at read
      obtain ⟨-, -, rfl⟩ := read
      rfl
    | child includes => exact read

def withSources (raw : Entries) (kept : List String) (gathered : Gathered) : Gathered :=
  { gathered with sources := gathered.sources ++ rulesSources (.map raw) ++ kept }

variable {origins : Keyed String String} {defaults : Entries} {all rest : RawJobs}
variable {name : String} {value : Value}

theorem addJobs_nil
    (read : outcome (addJobs resolve parse chain path origins defaults all [] gathered) =
      .ok result) : result = gathered := by
  simp only [addJobs, outcome_pure, Except.ok.injEq] at read
  exact read.symm

theorem addJobs_cons_eq_ok {entries : Entries} (visible : ¬ isHidden name = true)
    (read : outcome (addJobs resolve parse chain path origins defaults all
      ((name, .map entries) :: rest) gathered) = .ok result) :
    ∃ raw written kept reached,
      outcome (resolveExtends all ((origins.get? name).getD path) name) = .ok raw ∧
      outcome (job ((origins.get? name).getD path) name gathered.jobs.length raw defaults) =
        .ok written ∧
      onlySources (Value.field raw "only") = .ok kept ∧
      outcome (addJob resolve parse chain path ((origins.get? name).getD path) written raw
        (withSources raw kept gathered)) = .ok reached ∧
      outcome (addJobs resolve parse chain path origins defaults all rest reached) =
        .ok result := by
  rw [addJobs, if_neg visible] at read
  simp only [outcome_bind, bind_eq_ok, outcome_fault, uncaught_eq_ok] at read
  obtain ⟨raw, extended, written, wrote, kept, only, reached, added, read⟩ := read
  exact ⟨raw, written, kept, reached, extended, wrote, only, added, read⟩

theorem addJobs_cons {entries : Entries} (visible : ¬ isHidden name = true)
    (read : outcome (addJobs resolve parse chain path origins defaults all
      ((name, .map entries) :: rest) gathered) = .ok result) :
    ∃ raw written kept reached,
      outcome (resolveExtends all ((origins.get? name).getD path) name) = .ok raw ∧
      outcome (job ((origins.get? name).getD path) name gathered.jobs.length raw defaults) =
        .ok written ∧
      outcome (addJob resolve parse chain path ((origins.get? name).getD path) written raw
        (withSources raw kept gathered)) = .ok reached ∧
      outcome (addJobs resolve parse chain path origins defaults all rest reached) =
        .ok result := by
  obtain ⟨raw, written, kept, reached, extended, wrote, -, added, read⟩ :=
    addJobs_cons_eq_ok visible read
  exact ⟨raw, written, kept, reached, extended, wrote, added, read⟩

theorem addJobs_skip (noJob : isHidden name = true ∨ ¬ ∃ entries, value = .map entries)
    (read : outcome (addJobs resolve parse chain path origins defaults all
      ((name, value) :: rest) gathered) = .ok result) :
    outcome (addJobs resolve parse chain path origins defaults all rest gathered) = .ok result := by
  by_cases hidden : isHidden name = true
  · rw [addJobs, if_pos hidden] at read
    exact read
  · rw [addJobs, if_neg hidden] at read
    cases value with
    | map entries => exact absurd (noJob.resolve_left hidden) (fun none => none ⟨entries, rfl⟩)
    | _ =>
      simp only [outcome_bind, outcome_noted, bind_eq_ok] at read
      obtain ⟨-, -, read⟩ := read
      exact read

/-- What holds at first of what is gathered, and still does with each visible job that is added to
it, holds in the end. -/
theorem addJobs_keeps (holds : Gathered → Prop) (entries : RawJobs)
    (each : ∀ name own, (name, .map own) ∈ entries → ¬ isHidden name = true →
      ∀ raw written kept before reached,
        outcome (resolveExtends all ((origins.get? name).getD path) name) = .ok raw →
        outcome (job ((origins.get? name).getD path) name before.jobs.length raw defaults) =
          .ok written →
        outcome (addJob resolve parse chain path ((origins.get? name).getD path) written raw
          (withSources raw kept before)) = .ok reached →
        holds before → holds reached)
    (start : holds gathered)
    (read : outcome (addJobs resolve parse chain path origins defaults all entries gathered) =
      .ok result) : holds result := by
  induction entries generalizing gathered with
  | nil =>
    obtain rfl := addJobs_nil read
    exact start
  | cons entry rest ih =>
    obtain ⟨name, value⟩ := entry
    have others := fun name own member => each name own (List.mem_cons_of_mem _ member)
    by_cases noJob : isHidden name = true ∨ ¬ ∃ entries, value = .map entries
    · exact ih others start (addJobs_skip noJob read)
    · rw [not_or, not_not] at noJob
      obtain ⟨visible, own, rfl⟩ := noJob
      obtain ⟨raw, written, kept, reached, extended, wrote, added, later⟩ :=
        addJobs_cons visible read
      have next : holds reached :=
          each name own List.mem_cons_self visible raw written kept gathered
        reached extended wrote added start
      exact ih others next later

theorem gatherWith_eq_ok {raw : Entries}
    (read : outcome (gatherWith resolve parse chain path origins raw) = .ok gathered) :
    ∃ jobs, rawJobsOf raw = .ok jobs ∧
      outcome (addJobs resolve parse chain path origins (defaultsOf raw) jobs jobs
        { sources := rulesSources (Value.field raw "workflow") }) = .ok gathered := by
  simp only [gatherWith, outcome_bind, bind_eq_ok, outcome_fault, uncaught_eq_ok] at read
  exact read

end Step

def pipelineFrom (path : String) (merged : Merged) (env : Keyed String Value)
    (gathered : Gathered) :
    Pipeline where
  platform := .gitlab
  path := path
  triggers := (triggers path gathered.sources).value
  jobs := (Needs.validate gathered.jobs path).value
  env := env
  includes := merged.references ++ gathered.references

theorem normalize_eq_ok_iff {resolve : Resolver} {path : String} {content : List UInt8}
    {pipeline : Pipeline} :
    outcome (normalize resolve path content) = .ok pipeline ↔
      outcome (configuration path content) = .ok none ∧
          pipeline = { platform := .gitlab, path := path } ∨
        ∃ raw merged env gathered,
          outcome (configuration path content) = .ok (some raw) ∧
          outcome (merge resolve path (maxFiles - 1) [path] raw) = .ok merged ∧
          variablesOf (Value.field merged.entries "variables") = .ok env ∧
          outcome (gather resolve maxFiles [path] path [] merged.entries) = .ok gathered ∧
          pipeline = pipelineFrom path merged env gathered := by
  simp only [normalize, outcome_bind, bind_eq_ok]
  constructor
  · rintro ⟨found, loaded, read⟩
    cases found with
    | none =>
      simp only [outcome_pure, Except.ok.injEq] at read
      exact Or.inl ⟨loaded, read.symm⟩
    | some raw =>
      simp only [outcome_bind, bind_eq_ok, outcome_fault, uncaught_eq_ok,
        outcome_noted, outcome_pure, Except.ok.injEq] at read
      obtain ⟨merged, included, env, shared, gathered, gathers, _, rfl, _, rfl, rfl⟩ := read
      exact Or.inr ⟨raw, merged, env, gathered, loaded, included, shared, gathers, rfl⟩
  · rintro (⟨loaded, rfl⟩ | ⟨raw, merged, env, gathered, loaded, included, shared, gathers, rfl⟩)
    · exact ⟨none, loaded, rfl⟩
    · refine ⟨some raw, loaded, ?_⟩
      simp only [outcome_bind, included, ok_bind, outcome_fault, shared, gathers, outcome_noted]
      rfl

end SupplyLint.Gitlab
