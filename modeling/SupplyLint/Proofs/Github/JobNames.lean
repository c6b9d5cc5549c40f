import SupplyLint.Proofs.Github.Workflow

/-! # The names of the jobs of a workflow

Every job mapping of a workflow is a job, and behind a job that calls a workflow
of the same repository stand the jobs of that workflow. `normalize_settled`: the
jobs of the pipeline were put in under the names of all of these. -/
set_option autoImplicit false

namespace SupplyLint.Github

open SupplyLint.Jobs

def jobNames (called : String → Except Failure (List String)) :
    Entries → Except Failure (List String)
  | [] => return []
  | (key, .map raw) :: rest => do
    let name ← key.toText
    let uses ← usesText (Value.field raw "uses")
    let inner ← (targetOf uses).elim (return []) called
    let others ← jobNames called rest
    return name :: inner.map (name ++ "/" ++ ·) ++ others
  | _ :: rest => jobNames called rest

/-- The names of the jobs of a workflow and of all that it calls. -/
def workflowNames (resolve : Resolver) :
    Nat → List String → Entries → Except Failure (List String)
  | 0, _, raw => jobNames (fun _ => return []) (Field.entries (Value.field raw "jobs"))
  | room + 1, chain, raw =>
    jobNames
      (fun target => do
        if chain.contains target then return []
        else
          match ← opened resolve target with
          | none => return []
          | some called => workflowNames resolve room (chain ++ [target]) called)
      (Field.entries (Value.field raw "jobs"))

/-! ## The jobs stand under the names -/

section Names
variable {follow : Follow} {called : String → Except Failure (List String)}

/-- Calls that are followed to jobs under the names. -/
def FollowsTo (follow : Follow) (called : String → Except Failure (List String)) : Prop :=
  ∀ path caller target result, outcome (follow path caller target) = .ok result →
    ∃ inner, called target = .ok inner ∧ Placed inner (calledJobs result)

theorem jobNames_cons {key : Value} {raw rest : Entries} {name : String} {uses : Option String}
    {inner others : List String} (named : key.toText = .ok name)
    (calls : usesText (Value.field raw "uses") = .ok uses)
    (followed : (targetOf uses).elim (return []) called = .ok inner)
    (found : jobNames called rest = .ok others) :
    jobNames called ((key, .map raw) :: rest) =
      .ok (name :: inner.map (name ++ "/" ++ ·) ++ others) := by
  rw [jobNames, named, calls]
  change ((targetOf uses).elim (return []) called >>= fun inner => jobNames called rest >>=
    fun others => pure (name :: inner.map (name ++ "/" ++ ·) ++ others)) = _
  rw [followed, found]
  rfl

theorem inlined_placed (follows : FollowsTo follow called) {path name : String} {written : Job}
    {pipeline : Option Pipeline} {names : List String} {jobs : Jobs} (placed : Placed names jobs)
    (followed : Followed follow path written pipeline) :
    ∃ inner, (targetOf written.uses).elim (return []) called = .ok inner ∧
      Placed (names ++ inner.map (name ++ "/" ++ ·)) (inlined name pipeline jobs) := by
  have target : targetOf written.uses = callTarget written := rfl
  rw [target]
  unfold Followed at followed
  cases call : callTarget written with
  | none =>
    rw [call] at followed
    subst followed
    exact ⟨[], rfl, by simpa [inlined] using placed⟩
  | some file =>
    rw [call] at followed
    obtain ⟨inner, found, calledPlaced⟩ := follows path written file pipeline followed
    refine ⟨inner, found, ?_⟩
    rw [inlined_eq]
    exact placed.adoptAll calledPlaced (name ++ "/") _ (fun _ => rfl)

theorem parseJobs_placed (follows : FollowsTo follow called) (path : String) (entries : Entries)
    {names : List String} {jobs result : Jobs} (placed : Placed names jobs)
    (read : outcome (parseJobs follow path entries jobs) = .ok result) :
    ∃ more, jobNames called entries = .ok more ∧ Placed (names ++ more) result := by
  induction entries generalizing names jobs with
  | nil =>
    obtain rfl := parseJobs_nil read
    exact ⟨[], rfl, by simpa using placed⟩
  | cons entry rest ih =>
    obtain ⟨key, raw⟩ := entry
    by_cases mapping : ∃ entries, raw = .map entries
    · obtain ⟨entries, rfl⟩ := mapping
      obtain ⟨name, written, pipeline, named, wrote, followed, read⟩ := parseJobs_cons read
      obtain ⟨rfl, last, usesRead⟩ := job_identity wrote
      have own := placed.place written
      rw [← put_eq_place written last] at own
      obtain ⟨inner, found, inlined⟩ := inlined_placed follows own followed
      obtain ⟨others, listed, all⟩ := ih inlined read
      refine ⟨_, jobNames_cons named usesRead found listed, ?_⟩
      simpa using all
    · obtain ⟨others, listed, all⟩ := ih placed (parseJobs_skip mapping read)
      refine ⟨others, ?_, all⟩
      cases raw with
      | map entries => exact absurd ⟨entries, rfl⟩ mapping
      | _ => exact listed

theorem jobsOf_settled (follows : FollowsTo follow called) (path : String) (raw : Value)
    {jobs : Jobs} (read : outcome (jobsOf follow path raw) = .ok jobs) :
    ∃ names, jobNames called (Field.entries raw) = .ok names ∧ Settled names jobs := by
  obtain ⟨found, parsed, rfl⟩ := jobsOf_eq_ok read
  obtain ⟨names, listed, placed⟩ := parseJobs_placed follows path _ placed_nil parsed
  exact ⟨names, listed, found, path, by simpa using placed, rfl⟩

end Names

theorem workflow_settled (resolve : Resolver) (room : Nat) (chain : List String) (path : String)
    (raw : Entries) {pipeline : Pipeline}
    (read : outcome (workflow resolve room chain path raw) = .ok pipeline) :
    ∃ names, workflowNames resolve room chain raw = .ok names ∧ Settled names pipeline.jobs := by
  induction room generalizing chain path raw pipeline with
  | zero =>
    obtain ⟨_, _, jobs, -, jobsRead, rfl⟩ := workflowWith_eq_ok read
    refine jobsOf_settled ?_ path _ jobsRead
    intro path caller target result refused
    rw [outcome_refuseCall, Except.ok.injEq] at refused
    subst refused
    exact ⟨[], rfl, placed_nil⟩
  | succ room ih =>
    obtain ⟨_, _, jobs, -, jobsRead, rfl⟩ := workflowWith_eq_ok read
    refine jobsOf_settled ?_ path _ jobsRead
    intro path caller target result followed
    dsimp only at followed ⊢
    by_cases inChain : chain.contains target
    · rw [if_pos inChain, outcome_refuseCall, Except.ok.injEq] at followed
      subst followed
      exact ⟨[], by rw [if_pos inChain]; rfl, placed_nil⟩
    · rw [if_neg inChain, outcome_bind, outcome_openTarget, bind_eq_ok] at followed
      obtain ⟨file, found, followed⟩ := followed
      rw [if_neg inChain, found]
      cases file with
      | none =>
        simp only [outcome_pure, Except.ok.injEq] at followed
        subst followed
        exact ⟨[], rfl, placed_nil⟩
      | some called =>
        simp only [outcome_map, map_eq_ok] at followed
        obtain ⟨calledPipeline, calledRead, rfl⟩ := followed
        obtain ⟨inner, listed, settled⟩ := ih (chain ++ [target]) target called calledRead
        exact ⟨inner, listed, settled.placed⟩

/-! ## Whole documents -/

def actionNames (raw : Entries) : Except Failure (List String) :=
  match Value.field raw "runs" with
  | .map runs => do
    let kind ← runsText runs "using"
    return if kind = "composite" ∨ kind = "docker" then [kind] else []
  | _ => return []

def namesOf (resolve : Resolver) (path : String) (raw : Entries) : Except Failure (List String) :=
  if isActionMetadata path then actionNames raw
  else workflowNames resolve (maxFiles - 1) [path] raw

def documentNames (resolve : Resolver) (path : String) (content : List UInt8) :
    Except Failure (List String) := do
  let found ← entriesOf path content
  found.elim (return []) (namesOf resolve path)

theorem actionJobs_settled {path : String} {raw : Entries} {jobs : Jobs}
    (read : outcome (actionJobs path raw) = .ok jobs) :
    ∃ names, actionNames raw = .ok names ∧ Settled names jobs := by
  unfold actionNames
  rcases actionJobs_eq_ok read with ⟨noRuns, rfl⟩ | ⟨runs, kind, runsField, found, kinds⟩
  · refine ⟨[], ?_, settled_nil⟩
    cases runsField : Value.field raw "runs" with
    | map runs => exact absurd ⟨runs, runsField⟩ noRuns
    | _ => rfl
  · simp only [runsField, found]
    show ∃ names, Except.ok (if kind = "composite" ∨ kind = "docker" then [kind] else []) =
      Except.ok names ∧ _
    rcases kinds with ⟨written, rfl, wrote, rfl⟩ | ⟨image, rfl, rfl⟩ | ⟨noComposite, noDocker, rfl⟩
    · obtain ⟨lines, uses, labels, granted, env, waited, -, -, -, -, -, free, rfl⟩ :=
        job_eq_ok wrote
      have none : waited = [] := by
        have nothing : Field.texts .null = .ok waited := free
        exact (Except.ok.inj nothing).symm
      exact ⟨["composite"], rfl, settled_singleton rfl rfl none⟩
    · exact ⟨["docker"], rfl, settled_singleton rfl rfl rfl⟩
    · exact ⟨[], by rw [if_neg (by simp [noComposite, noDocker])], settled_nil⟩

theorem normalize_settled {resolve : Resolver} {path : String} {content : List UInt8}
    {pipeline : Pipeline} (read : outcome (normalize resolve path content) = .ok pipeline) :
    ∃ names, documentNames resolve path content = .ok names ∧ Settled names pipeline.jobs := by
  unfold documentNames
  rcases normalize_eq_ok read with ⟨loaded, rfl⟩ | ⟨raw, loaded, kinds⟩
  · rw [loaded]
    exact ⟨[], rfl, settled_nil⟩
  · simp only [loaded, ok_bind, Option.elim_some, namesOf]
    rcases kinds with ⟨jobs, isAction, jobsRead, rfl⟩ | ⟨isWorkflow, read⟩
    · rw [if_pos isAction]
      exact actionJobs_settled jobsRead
    · rw [if_neg (by simp [isWorkflow])]
      exact workflow_settled resolve _ _ path raw read

end SupplyLint.Github
