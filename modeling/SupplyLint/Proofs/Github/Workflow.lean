import SupplyLint.Github.Workflow
import SupplyLint.Proofs.Placement

/-! # Workflows and what they call

What the reading of a workflow does in one step: it puts in a job, follows its
call, and puts in the jobs of the pipeline that it is followed to. -/
set_option autoImplicit false

namespace SupplyLint.Github

theorem step_eq_ok {path job : String} {position : Nat} {raw : Value} {found : Step}
    (read : outcome (step path job position raw) = .ok (some found)) :
    ∃ entries env action, raw = .map entries ∧
      Field.byText (Value.field entries "env") = .ok env ∧
      stepAction (Value.field entries "uses") (Value.field entries "run") entries = .ok action ∧
      found =
        { position := position
          action := action
          name := Value.field entries "name"
          env := env
          line := Field.line (.map entries) } := by
  cases raw with
  | map entries =>
    simp only [step, outcome_bind, bind_eq_ok] at read
    obtain ⟨-, -, read⟩ := read
    split at read
    · simp only [outcome_bind, bind_eq_ok, outcome_pure, Except.ok.injEq] at read
      obtain ⟨-, -, none⟩ := read
      cases none
    · simp only [outcome_bind, bind_eq_ok, outcome_fault, uncaught_eq_ok, outcome_pure,
        Except.ok.injEq, Option.some.injEq] at read
      obtain ⟨env, envRead, action, acts, rfl⟩ := read
      exact ⟨entries, env, action, rfl, envRead, acts, rfl⟩
  | _ =>
    simp only [step, outcome_bind, bind_eq_ok, outcome_pure, Except.ok.injEq] at read
    obtain ⟨-, -, none⟩ := read
    cases none

theorem job_eq_ok {path name : String} {index : Nat} {raw : Entries} {written : Job}
    (read : outcome (job path name index raw) = .ok written) :
    ∃ lines uses labels granted env waited,
      outcome (steps path name (Value.field raw "steps")) = .ok lines ∧
      usesText (Value.field raw "uses") = .ok uses ∧
      runnerLabels (Value.field raw "runs-on") = .ok labels ∧
      outcome (permissions path ("jobs." ++ name ++ ".permissions")
        (Value.field raw "permissions")) = .ok granted ∧
      Field.byText (Value.field raw "env") = .ok env ∧
      Field.texts (Value.field raw "needs") = .ok waited ∧
      written =
        { name := name
          index := index
          steps := lines
          labels := .list (labels.map .text)
          permissions := granted
          env := env
          needs := waited
          images := images raw
          uses := uses
          package := uses.bind PackageRef.ofAction
          originPath := path
          originName := name
          line := Field.line (.map raw) } := by
  simp only [job, outcome_bind, bind_eq_ok, outcome_fault, uncaught_eq_ok, outcome_pure,
    Except.ok.injEq] at read
  obtain ⟨-, -, lines, linesRead, uses, usesRead, labels, labelsRead, granted, grantedRead, env,
    envRead, waited, waitedRead, rfl⟩ := read
  exact ⟨lines, uses, labels, granted, env, waited, linesRead, usesRead, labelsRead, grantedRead,
    envRead, waitedRead, rfl⟩

theorem job_identity {path name : String} {index : Nat} {raw : Entries} {written : Job}
    (read : outcome (job path name index raw) = .ok written) :
    written.name = name ∧ written.index = index ∧
      usesText (Value.field raw "uses") = .ok written.uses := by
  obtain ⟨lines, uses, labels, granted, env, waited, -, found, -, -, -, -, rfl⟩ := job_eq_ok read
  exact ⟨rfl, rfl, found⟩

/-! ## What a call opens -/

def entriesOf (path : String) (content : List UInt8) : Except Failure (Option Entries) := do
  match ← outcome (Source.documents path content) with
  | none => return none
  | some values => return (Source.mapping path values).value

def opened (resolve : Resolver) (target : String) : Except Failure (Option Entries) := do
  match ← resolve target with
  | none => return none
  | some content => entriesOf target content

theorem outcome_openTarget (resolve : Resolver) (path : String) (caller : Job) (target : String) :
    outcome (openTarget resolve path caller target) = opened resolve target := by
  unfold openTarget opened
  simp only [outcome_bind, outcome_failure]
  congr 1
  funext found
  cases found with
  | none => rfl
  | some content =>
    simp only [outcome_bind, entriesOf]
    congr 1
    funext values
    cases values with
    | none => rfl
    | some values => rfl

theorem outcome_refuseCall (path : String) (caller : Job) (target : String) :
    outcome (refuseCall path caller target) = .ok none := rfl

def followCall (resolve : Resolver) (room : Nat) (chain : List String) : Follow :=
  match room with
  | 0 => refuseCall
  | room + 1 => fun path caller target => do
    if chain.contains target then refuseCall path caller target
    else
      match ← openTarget resolve path caller target with
      | none => return none
      | some called => some <$> workflow resolve room (chain ++ [target]) target called

theorem workflow_eq (resolve : Resolver) (room : Nat) (chain : List String) (path : String)
    (raw : Entries) :
    workflow resolve room chain path raw =
      workflowWith (followCall resolve room chain) path raw := by
  cases room with
  | zero => rfl
  | succ room => rfl

/-! ## One job after another -/

def targetOf (uses : Option String) : Option String :=
  uses.bind fun uses =>
    (Text.afterPrefix? ['.', '/'] uses.toList).map fun target =>
      Text.beforeFirst '@' (String.ofList target)

def adopted (caller : String) (called : Option (Keyed String String)) (job : Job) : Job :=
  { job with
    name := caller ++ "/" ++ job.name
    needs := job.needs.map fun need => caller ++ "/" ++ need
    permissions := job.permissions.or called }

theorem foldl_adopt (caller : String) (called : Option (Keyed String String)) (inner : List Job)
    (jobs : Jobs) :
    inner.foldl (adopt caller called) jobs =
      (inner.map (adopted caller called)).foldl Jobs.place jobs := by
  rw [List.foldl_map]
  rfl

def inlined (caller : String) (called : Option Pipeline) (jobs : Jobs) : Jobs :=
  called.elim jobs fun called =>
    called.orderedJobs.foldl (adopt caller called.permissions) jobs

def calledJobs (called : Option Pipeline) : Jobs :=
  called.elim [] (·.jobs)

theorem inlined_eq (caller : String) (called : Option Pipeline) (jobs : Jobs) :
    inlined caller called jobs =
      ((calledJobs called).ordered.map
        (adopted caller (called.elim none (·.permissions)))).foldl Jobs.place jobs := by
  cases called with
  | none => simp [inlined, calledJobs, Jobs.ordered, Keyed.values]
  | some called => exact foldl_adopt caller called.permissions called.orderedJobs jobs

/-- A pipeline that a job calls, or none if it calls none. -/
def Followed (follow : Follow) (path : String) (caller : Job) (called : Option Pipeline) : Prop :=
  match callTarget caller with
  | none => called = none
  | some target => outcome (follow path caller target) = .ok called

theorem Followed.exists_target {follow : Follow} {path : String} {caller : Job} {called : Pipeline}
    (followed : Followed follow path caller (some called)) :
    ∃ target, callTarget caller = some target ∧
      outcome (follow path caller target) = .ok (some called) := by
  unfold Followed at followed
  cases call : callTarget caller with
  | none =>
    rw [call] at followed
    cases followed
  | some target =>
    rw [call] at followed
    exact ⟨target, rfl, followed⟩

section Step
variable {follow : Follow} {path : String} {key raw : Value} {rest : Entries} {jobs result : Jobs}

theorem parseJobs_nil (read : outcome (parseJobs follow path [] jobs) = .ok result) :
    result = jobs := by
  simp only [parseJobs, outcome_pure, Except.ok.injEq] at read
  exact read.symm

theorem parseJobs_cons {entries : Entries}
    (read : outcome (parseJobs follow path ((key, .map entries) :: rest) jobs) = .ok result) :
    ∃ name written called, key.toText = .ok name ∧
      outcome (job path name jobs.length entries) = .ok written ∧
      Followed follow path written called ∧
      outcome (parseJobs follow path rest (inlined name called (jobs.put name written))) =
        .ok result := by
  simp only [parseJobs, outcome_bind, bind_eq_ok, outcome_fault, uncaught_eq_ok] at read
  obtain ⟨name, named, written, wrote, read⟩ := read
  unfold Followed
  cases call : callTarget written with
  | none =>
    rw [call] at read
    exact ⟨name, written, none, named, wrote, by rw [call], read⟩
  | some target =>
    rw [call] at read
    simp only [outcome_bind, bind_eq_ok] at read
    obtain ⟨called, followed, read⟩ := read
    refine ⟨name, written, called, named, wrote, by rw [call]; exact followed, ?_⟩
    cases called with
    | none => exact read
    | some called => exact read

theorem parseJobs_skip (noMapping : ¬ ∃ entries, raw = .map entries)
    (read : outcome (parseJobs follow path ((key, raw) :: rest) jobs) = .ok result) :
    outcome (parseJobs follow path rest jobs) = .ok result := by
  cases raw with
  | map entries => exact absurd ⟨entries, rfl⟩ noMapping
  | _ =>
    simp only [parseJobs, outcome_bind, bind_eq_ok, outcome_fault, uncaught_eq_ok] at read
    obtain ⟨name, -, -, -, read⟩ := read
    exact read

/-- What holds at first of the jobs, and still does with each job that is put to them and what it
calls, holds in the end. -/
theorem parseJobs_keeps (holds : Jobs → Prop) (entries : Entries)
    (each : ∀ key own, (key, .map own) ∈ entries → ∀ name written called before,
      key.toText = .ok name → outcome (job path name before.length own) = .ok written →
      Followed follow path written called → holds before →
        holds (inlined name called (before.put name written)))
    (start : holds jobs)
    (read : outcome (parseJobs follow path entries jobs) = .ok result) : holds result := by
  induction entries generalizing jobs with
  | nil =>
    obtain rfl := parseJobs_nil read
    exact start
  | cons entry rest ih =>
    obtain ⟨key, raw⟩ := entry
    have others := fun key own member => each key own (List.mem_cons_of_mem _ member)
    by_cases mapping : ∃ own, raw = .map own
    · obtain ⟨own, rfl⟩ := mapping
      obtain ⟨name, written, called, named, wrote, followed, later⟩ := parseJobs_cons read
      have next : holds (inlined name called (jobs.put name written)) :=
        each key own List.mem_cons_self name written called jobs named wrote followed start
      exact ih others next later
    · exact ih others start (parseJobs_skip mapping read)

end Step

/-! ## Declared permissions -/

def scopeOf (entry : Value × Value) : Except Fault (String × String) :=
  return (← entry.1.toText, ← entry.2.toText)

/-- The permissions that a mapping declares: a text or a mapping does, be it empty, and no other
value. In a mapping that is read every scope has its text. -/
def declared (raw : Entries) : Option (Keyed String String) :=
  match Value.field raw "permissions" with
  | .text all => some [("_all", all)]
  | .map entries =>
    some (Keyed.ofPairs
      ((Field.entries (.map entries)).filterMap fun entry => (scopeOf entry).toOption))
  | _ => none

def Declares (raw : Entries) : Prop :=
  (∃ all, Value.field raw "permissions" = .text all) ∨
    ∃ entries, Value.field raw "permissions" = .map entries

theorem declared_eq_none_iff {raw : Entries} : declared raw = none ↔ ¬ Declares raw := by
  unfold declared Declares
  cases Value.field raw "permissions" <;> simp

theorem scopeOf_eq_ok {entry : Value × Value} {scope : String × String} :
    scopeOf entry = .ok scope ↔
      ∃ name, entry.1.toText = .ok name ∧ ∃ access, entry.2.toText = .ok access ∧
        (name, access) = scope := by
  simp only [scopeOf, bind_eq_ok, pure_eq_ok]

theorem permissions_eq_ok {path location : String} {raw : Entries}
    {granted : Option (Keyed String String)}
    (read : outcome (permissions path location (Value.field raw "permissions")) = .ok granted) :
    granted = declared raw := by
  unfold declared
  cases field : Value.field raw "permissions" with
  | map entries =>
    rw [field] at read
    simp only [permissions, outcome_bind, bind_eq_ok, outcome_mapM, outcome_fault, uncaught_eq_ok,
      outcome_pure, Except.ok.injEq, mapM_eq_ok, ← scopeOf_eq_ok] at read
    obtain ⟨scopes, all, rfl⟩ := read
    exact congrArg (fun scopes => some (Keyed.ofPairs scopes))
      (filterMap_toOption_of_forall₂ all).symm
  | _ =>
    rw [field] at read
    exact (Except.ok.inj read).symm

theorem jobsOf_eq_ok {follow : Follow} {path : String} {raw : Value} {jobs : Jobs}
    (read : outcome (jobsOf follow path raw) = .ok jobs) :
    ∃ found, outcome (parseJobs follow path (Field.entries raw) []) = .ok found ∧
      jobs = (Needs.validate found path).value := by
  cases raw with
  | map entries =>
    simp only [jobsOf, outcome_bind, bind_eq_ok, outcome_noted, Except.ok.injEq] at read
    obtain ⟨found, parsed, rfl⟩ := read
    exact ⟨found, parsed, rfl⟩
  | _ =>
    simp only [jobsOf, outcome_bind, outcome_noted, outcome_pure, bind_eq_ok, Except.ok.injEq]
      at read
    obtain ⟨-, -, rfl⟩ := read
    exact ⟨[], rfl, rfl⟩

theorem workflowWith_eq_ok {follow : Follow} {path : String} {raw : Entries} {pipeline : Pipeline}
    (read : outcome (workflowWith follow path raw) = .ok pipeline) :
    ∃ started env jobs,
      Field.byText (Value.field raw "env") = .ok env ∧
      outcome (jobsOf follow path (Value.field raw "jobs")) = .ok jobs ∧
      pipeline =
        { platform := .github
          path := path
          name := Value.field raw "name"
          triggers := started
          jobs := jobs
          permissions := declared raw
          env := env } := by
  simp only [workflowWith, outcome_bind, bind_eq_ok, outcome_fault, uncaught_eq_ok, outcome_pure,
    Except.ok.injEq] at read
  obtain ⟨-, -, started, -, granted, grantedRead, env, envRead, jobs, jobsRead, rfl⟩ := read
  obtain rfl := permissions_eq_ok grantedRead
  exact ⟨started, env, jobs, envRead, jobsRead, rfl⟩

theorem workflowWith_permissions {follow : Follow} {path : String} {raw : Entries}
    {pipeline : Pipeline} (read : outcome (workflowWith follow path raw) = .ok pipeline) :
    pipeline.permissions = declared raw := by
  obtain ⟨_, _, _, -, -, rfl⟩ := workflowWith_eq_ok read
  rfl

theorem followCall_eq_ok {resolve : Resolver} {room : Nat} {chain : List String} {path : String}
    {caller : Job} {target : String} {called : Pipeline}
    (followed : outcome (followCall resolve room chain path caller target) = .ok (some called)) :
    ∃ below raw, room = below + 1 ∧
      outcome (workflow resolve below (chain ++ [target]) target raw) = .ok called := by
  cases room with
  | zero =>
    rw [followCall, outcome_refuseCall] at followed
    cases followed
  | succ room =>
    simp only [followCall] at followed
    split at followed
    · rw [outcome_refuseCall] at followed
      cases followed
    · simp only [outcome_bind, bind_eq_ok] at followed
      obtain ⟨file, -, followed⟩ := followed
      cases file with
      | none => cases followed
      | some raw =>
        simp only [outcome_map, map_eq_ok, Option.some.injEq, exists_eq_right] at followed
        exact ⟨room, raw, rfl, followed⟩

/-! ## Whole documents -/

def pipelineOf (resolve : Resolver) (path : String) (raw : Entries) : Normalizing Pipeline :=
  if isActionMetadata path then actionMetadata path raw
  else workflow resolve (maxFiles - 1) [path] path raw

theorem outcome_normalize (resolve : Resolver) (path : String) (content : List UInt8) :
    outcome (normalize resolve path content) =
      (entriesOf path content >>= fun found =>
        found.elim (.ok { platform := .github, path := path }) fun raw =>
          outcome (pipelineOf resolve path raw)) := by
  unfold normalize entriesOf
  simp only [outcome_bind, bind_assoc]
  congr 1
  funext documents
  cases documents with
  | none => rfl
  | some values =>
    simp only [outcome_bind, outcome_noted]
    show outcome _ = Option.elim (Source.mapping path values).value _ _
    cases (Source.mapping path values).value with
    | none => rfl
    | some raw => rfl

theorem actionMetadata_eq_ok {path : String} {raw : Entries} {pipeline : Pipeline}
    (read : outcome (actionMetadata path raw) = .ok pipeline) :
    ∃ jobs, outcome (actionJobs path raw) = .ok jobs ∧
      pipeline = { platform := .github, path := path, name :=
        Value.field raw "name", jobs := jobs } := by
  simp only [actionMetadata, outcome_bind, bind_eq_ok, outcome_pure, Except.ok.injEq] at read
  obtain ⟨jobs, found, rfl⟩ := read
  exact ⟨jobs, found, rfl⟩

theorem normalize_eq_ok {resolve : Resolver} {path : String} {content : List UInt8}
    {pipeline : Pipeline} (read : outcome (normalize resolve path content) = .ok pipeline) :
    entriesOf path content = .ok none ∧ pipeline = { platform := .github, path := path } ∨
      ∃ raw, entriesOf path content = .ok (some raw) ∧
        ((∃ jobs, isActionMetadata path = true ∧ outcome (actionJobs path raw) = .ok jobs ∧
            pipeline =
              { platform := .github, path := path, name := Value.field raw "name", jobs := jobs }) ∨
          isActionMetadata path = false ∧
            outcome (workflow resolve (maxFiles - 1) [path] path raw) = .ok pipeline) := by
  rw [outcome_normalize, bind_eq_ok] at read
  obtain ⟨found, loaded, read⟩ := read
  cases found with
  | none => exact Or.inl ⟨loaded, (Except.ok.inj read).symm⟩
  | some raw =>
    refine Or.inr ⟨raw, loaded, ?_⟩
    have read : outcome (pipelineOf resolve path raw) = .ok pipeline := read
    unfold pipelineOf at read
    split at read
    · next isAction =>
      obtain ⟨jobs, jobsRead, rfl⟩ := actionMetadata_eq_ok read
      exact Or.inl ⟨jobs, isAction, jobsRead, rfl⟩
    · next isWorkflow => exact Or.inr ⟨by simpa using isWorkflow, read⟩

theorem actionJobs_eq_ok {path : String} {raw : Entries} {jobs : Jobs}
    (read : outcome (actionJobs path raw) = .ok jobs) :
    (¬ ∃ runs, Value.field raw "runs" = .map runs) ∧ jobs = [] ∨
      ∃ runs kind, Value.field raw "runs" = .map runs ∧ runsText runs "using" = .ok kind ∧
        ((∃ written, kind = "composite" ∧
            outcome (job path "composite" 0
              [(.text "steps", (Keyed.get? runs (.text "steps")).getD (.list []))]) = .ok written ∧
            jobs = [("composite", { written with line := Field.line (.map runs) })]) ∨
          (∃ image, kind = "docker" ∧
            jobs = [("docker",
              { name := "docker"
                index := 0
                steps := if Text.hasPrefix image "docker://" then
                  [{ position := 0, action := .uses image (PackageRef.ofAction image) [] }] else []
                originPath := path
                originName := "docker"
                line := Field.line (.map runs) })]) ∨
          kind ≠ "composite" ∧ kind ≠ "docker" ∧ jobs = []) := by
  unfold actionJobs at read
  cases runsField : Value.field raw "runs" with
  | map runs =>
    rw [runsField] at read
    simp only [outcome_bind, bind_eq_ok, outcome_fault, uncaught_eq_ok] at read
    obtain ⟨kind, found, read⟩ := read
    refine Or.inr ⟨runs, kind, rfl, found, ?_⟩
    split at read
    · next composite =>
      simp only [outcome_bind, bind_eq_ok, outcome_pure, Except.ok.injEq] at read
      obtain ⟨written, wrote, rfl⟩ := read
      exact Or.inl ⟨written, composite, wrote, rfl⟩
    · next noComposite =>
      split at read
      · next docker =>
        simp only [outcome_bind, bind_eq_ok, outcome_fault, uncaught_eq_ok, outcome_pure,
          Except.ok.injEq] at read
        obtain ⟨image, -, rfl⟩ := read
        exact Or.inr (Or.inl ⟨image, docker, rfl⟩)
      · next noDocker =>
        simp only [outcome_pure, Except.ok.injEq] at read
        exact Or.inr (Or.inr ⟨noComposite, noDocker, read.symm⟩)
  | _ =>
    rw [runsField] at read
    simp only [outcome_bind, outcome_noted, outcome_pure, bind_eq_ok, Except.ok.injEq] at read
    obtain ⟨-, -, rfl⟩ := read
    exact Or.inl ⟨by simp, rfl⟩

end SupplyLint.Github
