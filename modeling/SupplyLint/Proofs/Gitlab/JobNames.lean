import SupplyLint.Proofs.Gitlab.Configuration

/-! # The names of the jobs of a configuration

Every mapping that is no reserved and no hidden key is a job, and behind a job
that triggers files of the same repository stand the jobs of these files.
`normalize_settled`: the jobs of the pipeline were put in under the names of all
of these. -/
set_option autoImplicit false

namespace SupplyLint.Gitlab

open SupplyLint.Jobs

/-- How the names of the jobs of a configuration are listed: from what its jobs are read from. -/
abbrev Naming :=
  List String → String → Keyed String String → Entries → Except Failure (List String)

def childNames (list : Option Naming) (chain : List String) (files : ChildFiles) :
    Except Failure (List String) :=
  match list, files.origins with
  | some list, (_, first) :: _ =>
    list (chain ++ originFiles files.origins) first files.origins files.entries
  | _, _ => return []

def triggeredNames (resolve : Resolver) (list : Option Naming) (chain : List String) (path : String)
    (name : String) (raw : Entries) : Except Failure (List String) :=
  match Keyed.get? raw (.text "trigger") with
  | none => return []
  | some trigger => do
    match ← Downstream.ofValue trigger with
    | .child includes => childNames list chain (← openedFiles resolve chain path name includes)
    | _ => return []

def jobNames (triggered : String → Entries → Except Failure (List String)) (path : String)
    (origins : Keyed String String) (all : RawJobs) : RawJobs → Except Failure (List String)
  | [] => return []
  | (name, .map _) :: rest => do
    if isHidden name then jobNames triggered path origins all rest
    else
      let raw ← outcome (resolveExtends all ((origins.get? name).getD path) name)
      let inner ← triggered name raw
      let others ← jobNames triggered path origins all rest
      return name :: inner.map (name ++ "/" ++ ·) ++ others
  | _ :: rest => jobNames triggered path origins all rest

def namesWith (resolve : Resolver) (list : Option Naming) : Naming :=
  fun chain path origins raw => do
    let jobs ← rawJobsOf raw
    jobNames (triggeredNames resolve list chain path) path origins jobs jobs

/-- The names of the jobs of a configuration and of the child pipelines below it. -/
def gatherNames (resolve : Resolver) : Nat → Naming
  | 0, chain, path, origins, raw => namesWith resolve none chain path origins raw
  | levels + 1, chain, path, origins, raw =>
    namesWith resolve (some (gatherNames resolve levels)) chain path origins raw

/-! ## The jobs stand under the names -/

/-- A reading whose jobs stand under the names of a list. -/
def ReadsAs (parse : Parsing) (list : Naming) : Prop :=
  ∀ chain path origins raw gathered, outcome (parse chain path origins raw) = .ok gathered →
    ∃ names, list chain path origins raw = .ok names ∧ Placed names gathered.jobs

section Names
variable {resolve : Resolver} {parse : Option Parsing} {list : Option Naming}

theorem inlineChild_placed (reads : Option.Rel ReadsAs parse list) {chain : List String}
    {path caller : String} {includes : Value} {gathered result : Gathered} {names : List String}
    (placed : Placed names gathered.jobs)
    (read : outcome (inlineChild resolve parse chain path caller includes gathered) = .ok result) :
    ∃ files inner, openedFiles resolve chain path caller includes = .ok files ∧
      childNames list chain files = .ok inner ∧
      Placed (names ++ inner.map (caller ++ "/" ++ ·)) result.jobs := by
  obtain ⟨files, opened,
      ⟨nothing, rfl⟩ | ⟨childOf, key, first, rest, shared, child, parses, origins,
    childRead, -, rfl⟩⟩ := inlineChild_eq_ok read
  · refine ⟨files, [], opened, ?_, by simpa using placed⟩
    unfold childNames
    rcases nothing with rfl | empty
    · cases reads with
      | none => rfl
    · rw [empty]
      cases list with
      | none => rfl
      | some list => rfl
  · subst parses
    cases reads with
    | @some _ list agree =>
      obtain ⟨inner, listed, childPlaced⟩ := agree _ _ _ _ _ childRead
      refine ⟨files, inner, opened, ?_, ?_⟩
      · unfold childNames
        rw [origins] at listed ⊢
        exact listed
      · exact placed.adoptAll (childPlaced.validate first) (caller ++ "/") (adopted caller shared)
          (fun _ => rfl)

theorem addJob_placed (reads : Option.Rel ReadsAs parse list) {chain : List String}
    {path jobPath : String} {written : Job} {raw : Entries} {gathered result : Gathered}
    {names : List String} (placed : Placed names gathered.jobs)
    (last : written.index = gathered.jobs.length)
    (read : outcome (addJob resolve parse chain path jobPath written raw gathered) = .ok result) :
    ∃ inner, triggeredNames resolve list chain path written.name raw = .ok inner ∧
      Placed (names ++ [written.name] ++ inner.map (written.name ++ "/" ++ ·)) result.jobs := by
  have own (job : Job) (named : job.name = written.name) (index : job.index = written.index) :
      Placed (names ++ [written.name]) (withJob job gathered).jobs := by
    rw [withJob, put_eq_place job (index.trans last), ← named]
    exact placed.place job
  unfold triggeredNames
  rcases addJob_eq_ok read with ⟨none, rfl⟩ | ⟨trigger, downstream, found, starts, read⟩
  · rw [none]
    exact ⟨[], rfl, by simpa using own written rfl rfl⟩
  · simp only [found, starts]
    cases downstream with
    | project ref =>
      obtain rfl := read
      exact ⟨[], rfl, by simpa using own { written with package := ref } rfl rfl⟩
    | malformed reason =>
      obtain rfl := read
      exact ⟨[], rfl, by simpa using own written rfl rfl⟩
    | child includes =>
      obtain ⟨files, inner, opened, listed, all⟩ := inlineChild_placed reads
          (own written rfl rfl) read
      refine ⟨inner, ?_, all⟩
      show (openedFiles resolve chain path written.name includes >>= childNames list chain) = _
      rw [opened]
      exact listed

theorem jobNames_cons {triggered : String → Entries → Except Failure (List String)}
    {path name : String} {origins : Keyed String String} {all rest : RawJobs}
    {entries raw : Entries} {inner others : List String} (visible : ¬ isHidden name = true)
    (extended : outcome (resolveExtends all ((origins.get? name).getD path) name) = .ok raw)
    (listed : triggered name raw = .ok inner)
    (found : jobNames triggered path origins all rest = .ok others) :
    jobNames triggered path origins all ((name, .map entries) :: rest) =
      .ok (name :: inner.map (name ++ "/" ++ ·) ++ others) := by
  rw [jobNames, if_neg visible, extended]
  show (triggered name raw >>= fun inner =>
      jobNames triggered path origins all rest >>= fun others =>
    pure (name :: inner.map (name ++ "/" ++ ·) ++ others)) = _
  rw [listed, found]
  rfl

theorem jobNames_skip {triggered : String → Entries → Except Failure (List String)}
    {path name : String} {origins : Keyed String String} {all rest : RawJobs} {value : Value}
    (noJob : isHidden name = true ∨ ¬ ∃ entries, value = .map entries) :
    jobNames triggered path origins all ((name, value) :: rest) =
      jobNames triggered path origins all rest := by
  cases value with
  | map entries =>
    rw [jobNames, if_pos (noJob.resolve_right fun none => none ⟨entries, rfl⟩)]
  | _ => rfl

theorem addJobs_placed (reads : Option.Rel ReadsAs parse list) {chain : List String} {path : String}
    {origins : Keyed String String} {defaults : Entries} {all : RawJobs} (entries : RawJobs)
    {gathered result : Gathered} {names : List String} (placed : Placed names gathered.jobs)
    (read : outcome (addJobs resolve parse chain path origins defaults all entries gathered) =
      .ok result) :
    ∃ more, jobNames (triggeredNames resolve list chain path) path origins all entries = .ok more ∧
      Placed (names ++ more) result.jobs := by
  induction entries generalizing gathered names with
  | nil =>
    obtain rfl := addJobs_nil read
    exact ⟨[], rfl, by simpa using placed⟩
  | cons entry rest ih =>
    obtain ⟨name, value⟩ := entry
    by_cases noJob : isHidden name = true ∨ ¬ ∃ entries, value = .map entries
    · rw [jobNames_skip noJob]
      exact ih placed (addJobs_skip noJob read)
    · rw [not_or, not_not] at noJob
      obtain ⟨visible, entries, rfl⟩ := noJob
      obtain ⟨raw, written, kept, reached, extended, wrote, added, others⟩ :=
        addJobs_cons visible read
      obtain ⟨rfl, last⟩ := job_identity wrote
      have before : Placed names (withSources raw kept gathered).jobs := placed
      obtain ⟨inner, listed, own⟩ := addJob_placed reads before last added
      obtain ⟨more, found, all⟩ := ih own others
      refine ⟨_, jobNames_cons visible extended listed found, ?_⟩
      simpa using all

theorem gatherWith_placed (reads : Option.Rel ReadsAs parse list) :
    ReadsAs (gatherWith resolve parse) (namesWith resolve list) := by
  intro chain path origins raw gathered read
  obtain ⟨jobs, found, read⟩ := gatherWith_eq_ok read
  obtain ⟨names, listed, placed⟩ := addJobs_placed reads jobs placed_nil read
  refine ⟨names, ?_, placed⟩
  simp only [namesWith, found]
  exact listed

theorem gather_placed (resolve : Resolver) (levels : Nat) :
    ReadsAs (gather resolve levels) (gatherNames resolve levels) := by
  induction levels with
  | zero => exact gatherWith_placed .none
  | succ levels ih => exact gatherWith_placed (.some ih)

end Names

def documentNames (resolve : Resolver) (path : String) (content : List UInt8) :
    Except Failure (List String) := do
  match ← outcome (configuration path content) with
  | none => return []
  | some raw =>
    let merged ← outcome (merge resolve path (maxFiles - 1) [path] raw)
    gatherNames resolve maxFiles [path] path [] merged.entries

theorem normalize_settled {resolve : Resolver} {path : String} {content : List UInt8}
    {pipeline : Pipeline} (read : outcome (normalize resolve path content) = .ok pipeline) :
    ∃ names, documentNames resolve path content = .ok names ∧ Settled names pipeline.jobs := by
  unfold documentNames
  rcases normalize_eq_ok_iff.mp read with ⟨loaded, rfl⟩ |
      ⟨raw, merged, env, gathered, loaded, included, -, gathers, rfl⟩
  · rw [loaded]
    exact ⟨[], rfl, settled_nil⟩
  · obtain ⟨names, listed, placed⟩ := gather_placed resolve maxFiles _ _ _ _ _ gathers
    refine ⟨names, ?_, gathered.jobs, path, placed, rfl⟩
    simp only [loaded, ok_bind, included]
    exact listed

end SupplyLint.Gitlab
