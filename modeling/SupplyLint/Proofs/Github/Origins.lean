import SupplyLint.Proofs.Github.Calls
import SupplyLint.Proofs.Github.Positions
import SupplyLint.Proofs.Origin

/-! # Where the jobs of workflows are written

`normalize_origins`: every job of a workflow is written in the workflow itself or
in a file that is reached from it by calls, and it is reported in that file. -/
set_option autoImplicit false

namespace SupplyLint.Github

open SupplyLint.Jobs

theorem stepAt_of_steps {path name : String} {mapping : Entries} {lines : List Step}
    (read : outcome (steps path name (Value.field mapping "steps")) = .ok lines) :
    ∀ step ∈ lines, ∀ line, step.line = some line → StepAt mapping step.position line := by
  intro own member line written
  obtain ⟨place, item, inside, position, itemRead⟩ := ((readFrom_steps read).mem_iff own).mp member
  obtain ⟨entries, rfl, -, same⟩ := step_at itemRead
  cases field : Value.field mapping "steps" with
  | list items =>
    rw [field] at inside
    refine ⟨items, entries, field, ?_, same.symm.trans written⟩
    simpa [position, stepItems] using inside
  | _ =>
    rw [field] at inside
    simp [stepItems] at inside

theorem job_writtenAs {path name : String} {index : Nat} {mapping : Entries} {written : Job}
    (wrote : outcome (job path name index mapping) = .ok written) : written.WrittenAs mapping := by
  obtain ⟨lines, uses, labels, granted, env, waited, linesRead, -, -, -, -, -, rfl⟩ :=
      job_eq_ok wrote
  exact ⟨rfl, stepAt_of_steps linesRead⟩

/-! ## Jobs of workflows -/

/-- A job is written in a mapping under the jobs of a file. -/
structure WrittenIn (path : String) (raw : Entries) (found : Job) : Prop where
  path : found.originPath = path
  mapping : ∃ key mapping, (key, .map mapping) ∈ Field.entries (Value.field raw "jobs") ∧
    key.toText = .ok found.originName ∧ found.WrittenAs mapping

/-- A job is written in a file that is reached from a file by calls, or in that file itself. -/
def Reaches (resolve : Resolver) (file : File) (found : Job) : Prop :=
  ∃ last path, Relation.ReflTransGen (Opens Calls (opened resolve)) file last ∧
    last.chain.getLast? = some path ∧ WrittenIn path last.entries found

theorem writtenIn_of_job {path name : String} {index : Nat} {key : Value} {mapping raw : Entries}
    {written : Job} (member : (key, .map mapping) ∈ Field.entries (Value.field raw "jobs"))
    (named : key.toText = .ok name) (wrote : outcome (job path name index mapping) = .ok written) :
    WrittenIn path raw written := by
  have source := job_writtenAs wrote
  obtain ⟨lines, uses, labels, granted, env, waited, -, -, -, -, -, -, rfl⟩ := job_eq_ok wrote
  exact ⟨rfl, key, mapping, member, named, source⟩

def CallsAs (raw : Entries) (caller target : String) : Prop :=
  ∃ entry ∈ Field.entries (Value.field raw "jobs"), entry.1.toText = .ok caller ∧
    EntryCalls entry target

def OpensAs (resolve : Resolver) (file : File) (caller : String) (next : File) : Prop :=
  ∃ target, CallsAs file.entries caller target ∧ Tries Calls file target ∧
    opened resolve target = .ok (some next.entries) ∧ next.chain = file.chain ++ [target]

theorem CallsAs.calls {raw : Entries} {caller target : String} (calls : CallsAs raw caller target) :
    Calls raw target := by
  obtain ⟨entry, member, -, calls⟩ := calls
  exact ⟨entry, member, calls⟩

theorem OpensAs.opens {resolve : Resolver} {file next : File} {caller : String}
    (opens : OpensAs resolve file caller next) : Opens Calls (opened resolve) file next := by
  obtain ⟨target, -, tries, found, chain⟩ := opens
  exact ⟨target, tries, found, chain⟩

/-- A job is written in a file to which callers lead, and its name begins with theirs. -/
def ComesThrough (resolve : Resolver) (file : File) (callers : List String) (found : Job) : Prop :=
  ∃ last path, Way (OpensAs resolve) file callers last ∧ last.chain.getLast? = some path ∧
    WrittenIn path last.entries found ∧ found.name = underCallers callers found.originName

def Comes (resolve : Resolver) (file : File) (found : Job) : Prop :=
  ∃ callers, ComesThrough resolve file callers found

theorem Comes.reaches {resolve : Resolver} {file : File} {found : Job}
    (comes : Comes resolve file found) : Reaches resolve file found := by
  obtain ⟨callers, last, path, way, here, written, -⟩ := comes
  exact ⟨last, path, way.reached fun _ _ _ opens => opens.opens, here, written⟩

theorem WrittenIn.of_sameSource {path : String} {raw : Entries} {first second : Job}
    (written : WrittenIn path raw first) (same : first.SameSource second) :
    WrittenIn path raw second := by
  obtain ⟨at_, key, mapping, member, named, written⟩ := written
  exact ⟨same.originPath ▸ at_, key, mapping, member, same.originName ▸ named,
    written.of_sameSource same⟩

theorem comes_ofPlace (resolve : Resolver) (file : File) : IsOfPlace (Comes resolve file) := by
  rintro first second same name ⟨callers, last, path, way, here, written, named⟩
  refine ⟨callers, last, path, way, here, written.of_sameSource same, ?_⟩
  rw [← name, ← same.originName]
  exact named

section Step
variable {follow : Follow} {path : String} {holds : Job → Prop}

def HoldsInlined (holds : Job → Prop) (caller : String) (called : Pipeline) : Prop :=
  Every (fun job => holds (adopted caller called.permissions job)) called.jobs

/-- What holds of the jobs that are written in a workflow and of those that its calls are followed
to, holds of all its jobs. -/
theorem every_parseJobs (loose : IgnoresOrder holds) (entries : Entries) {jobs result : Jobs}
    (written : ∀ key mapping name index own, (key, .map mapping) ∈ entries →
      key.toText = .ok name → outcome (job path name index mapping) = .ok own → holds own)
    (called : ∀ entry ∈ entries, ∀ name target, entry.1.toText = .ok name →
      EntryCalls entry target → ∀ caller called,
        outcome (follow path caller target) = .ok (some called) → HoldsInlined holds name called)
    (every : Every holds jobs)
    (read : outcome (parseJobs follow path entries jobs) = .ok result) : Every holds result := by
  refine parseJobs_keeps (Every holds) entries ?_ every read
  intro key mapping member name own result before named wrote followed every
  have put := every.put name (written key mapping name _ own member named wrote)
  cases result with
  | none => exact put
  | some pipeline =>
    obtain ⟨target, call, calledRead⟩ := followed.exists_target
    rw [inlined_eq]
    refine put.adoptAll loose ?_
    exact called _ member name target named ((entryCalls_iff wrote).mpr call)
      own pipeline calledRead

theorem every_workflowWith (loose : IgnoresOrder holds) {raw : Entries} {pipeline : Pipeline}
    (written : ∀ key mapping name index own,
      (key, .map mapping) ∈ Field.entries (Value.field raw "jobs") → key.toText = .ok name →
        outcome (job path name index mapping) = .ok own → holds own)
    (called : ∀ name target, CallsAs raw name target → ∀ caller called,
      outcome (follow path caller target) = .ok (some called) → HoldsInlined holds name called)
    (read : outcome (workflowWith follow path raw) = .ok pipeline) :
    Every holds pipeline.jobs := by
  obtain ⟨_, _, _, -, jobsRead, rfl⟩ := workflowWith_eq_ok read
  obtain ⟨found, parsed, rfl⟩ := jobsOf_eq_ok jobsRead
  refine Every.validate loose (every_parseJobs loose _ written ?_ every_nil parsed) path
  intro entry member name target named calls
  exact called name target ⟨entry, member, named, calls⟩

end Step

/-- What holds of the jobs that are written in a file, and of those of a file that it opens once
they are inlined, holds of all jobs of a workflow. -/
theorem every_workflow {resolve : Resolver} {holds : File → Job → Prop}
    (loose : ∀ file, IgnoresOrder (holds file))
    (written : ∀ (file : File) path key mapping name index own, file.chain.getLast? = some path →
      (key, .map mapping) ∈ Field.entries (Value.field file.entries "jobs") →
      key.toText = .ok name →
        outcome (job path name index mapping) = .ok own → holds file own)
    (called : ∀ file name next, OpensAs resolve file name next →
      ∀ job, holds next job → holds file (adopted name (declared next.entries) job))
    {file : File} {path : String} {pipeline : Pipeline} (last : file.chain.getLast? = some path)
    (read : outcome (workflow resolve (maxFiles - file.chain.length) file.chain path file.entries) =
      .ok pipeline) : Every (holds file) pipeline.jobs := by
  induction room : maxFiles - file.chain.length using Nat.strongRecOn
    generalizing file path pipeline with
  | ind room ih =>
    subst room
    rw [workflow_eq] at read
    refine every_workflowWith (loose file) ?_ ?_ read
    · intro key mapping name index own
      exact written file path key mapping name index own last
    · intro name target calls caller result followed
      obtain ⟨next, step, chain, calledRead⟩ := followCall_opens calls.calls followed
      have opens : OpensAs resolve file name next := by
        obtain ⟨other, tries, found, same⟩ := step
        obtain rfl : other = target :=
          List.singleton_inj.mp (List.append_cancel_left (same.symm.trans chain))
        exact ⟨other, calls, tries, found, chain⟩
      have less : maxFiles - next.chain.length < maxFiles - file.chain.length := by
        obtain ⟨_, ⟨-, -, room⟩, -, -⟩ := step
        rw [chain, List.length_append, List.length_singleton]
        omega
      have below := ih _ less (by rw [chain]; exact List.getLast?_concat) calledRead rfl
      rw [workflow_eq] at calledRead
      refine below.imp fun job holds => ?_
      rw [workflowWith_permissions calledRead]
      exact called file name next opens job holds

theorem workflow_comes {resolve : Resolver} {file : File} {path : String} {pipeline : Pipeline}
    (last : file.chain.getLast? = some path)
    (read : outcome (workflow resolve (maxFiles - file.chain.length) file.chain path file.entries) =
      .ok pipeline) : Every (Comes resolve file) pipeline.jobs := by
  refine every_workflow (fun file => (comes_ofPlace resolve file).ignoresOrder) ?_ ?_ last read
  · intro file path key mapping name index own last member named wrote
    refine ⟨[], file, path, .here file, last, writtenIn_of_job member named wrote, ?_⟩
    obtain ⟨lines, uses, labels, granted, env, waited, -, -, -, -, -, -, rfl⟩ := job_eq_ok wrote
    rfl
  · rintro file name next opens job ⟨callers, final, place, way, here, written, named⟩
    refine ⟨name :: callers, final, place, .through opens way, here,
      written.of_sameSource ⟨rfl, rfl, rfl, rfl⟩, ?_⟩
    exact congrArg (name ++ "/" ++ ·) named

/-! ## Whole documents -/

/-- The one job of an action is written as its runs. -/
structure WrittenRuns (path : String) (raw : Entries) (found : Job) : Prop where
  path : found.originPath = path
  runs : ∃ runs, Value.field raw "runs" = .map runs ∧ found.WrittenAs runs

theorem actionJobs_origins {path : String} {raw : Entries} {jobs : Jobs}
    (read : outcome (actionJobs path raw) = .ok jobs) : Every (WrittenRuns path raw) jobs := by
  rcases actionJobs_eq_ok read with ⟨-, rfl⟩ | ⟨runs, kind, runsField, -, kinds⟩
  · exact every_nil
  · rcases kinds with ⟨written, -, wrote, rfl⟩ | ⟨image, -, rfl⟩ | ⟨-, -, rfl⟩
    · intro entry member
      obtain rfl := List.mem_singleton.mp member
      obtain ⟨lines, uses, labels, granted, env, waited, linesRead, -, -, -, -, -, rfl⟩ :=
        job_eq_ok wrote
      refine ⟨rfl, runs, runsField, rfl, fun step inside line written => ?_⟩
      have field : Value.field [(.text "steps", (Keyed.get? runs (.text "steps")).getD (.list []))]
          "steps" = (Keyed.get? runs (.text "steps")).getD (.list []) := rfl
      obtain ⟨items, entries, listed, item, found⟩ :=
          stepAt_of_steps linesRead step inside line written
      rw [field] at listed
      refine ⟨items, entries, ?_, item, found⟩
      cases stepsField : Keyed.get? runs (.text "steps") with
      | none =>
        rw [stepsField] at listed
        obtain rfl := Value.list.inj listed
        simp at item
      | some value =>
        rw [stepsField] at listed
        rw [Value.field, stepsField]
        exact listed
    · intro entry member
      obtain rfl := List.mem_singleton.mp member
      refine ⟨rfl, runs, runsField, rfl, fun step inside line written => ?_⟩
      dsimp only at inside
      split at inside
      · rw [List.mem_singleton.mp inside] at written
        cases written
      · exact absurd inside List.not_mem_nil
    · exact every_nil

/-- A job of the pipeline of some entries is written in them, or in a file that they reach. -/
def Origin (resolve : Resolver) (path : String) (raw : Entries) (found : Job) : Prop :=
  isActionMetadata path = true ∧ WrittenRuns path raw found ∨
    isActionMetadata path = false ∧ Reaches resolve ⟨[path], raw⟩ found

/-- The job of an action has no callers; those of a workflow lead down from it. -/
def HasCallers (resolve : Resolver) (path : String) (raw : Entries) (callers : List String)
    (found : Job) : Prop :=
  isActionMetadata path = true ∧ WrittenRuns path raw found ∧ callers = [] ∨
    isActionMetadata path = false ∧ ComesThrough resolve ⟨[path], raw⟩ callers found

theorem normalize_comes {resolve : Resolver} {path : String} {content : List UInt8}
    {pipeline : Pipeline} (read : outcome (normalize resolve path content) = .ok pipeline) :
    Every (fun job => ∃ raw callers, entriesOf path content = .ok (some raw) ∧
      HasCallers resolve path raw callers job) pipeline.jobs := by
  rcases normalize_eq_ok read with ⟨-, rfl⟩ | ⟨raw, loaded, ⟨jobs, isAction, jobsRead, rfl⟩ |
    ⟨isWorkflow, read⟩⟩
  · exact every_nil
  · exact (actionJobs_origins jobsRead).imp fun job written =>
      ⟨raw, [], loaded, Or.inl ⟨isAction, written, rfl⟩⟩
  · have comes : Every (Comes resolve ⟨[path], raw⟩) pipeline.jobs := workflow_comes rfl read
    exact comes.imp fun job ⟨callers, through⟩ =>
      ⟨raw, callers, loaded, Or.inr ⟨isWorkflow, through⟩⟩

theorem normalize_origins {resolve : Resolver} {path : String} {content : List UInt8}
    {pipeline : Pipeline} (read : outcome (normalize resolve path content) = .ok pipeline) :
    Every (fun job => ∃ raw, entriesOf path content = .ok (some raw) ∧ Origin resolve path raw job)
      pipeline.jobs := by
  refine (normalize_comes read).imp ?_
  rintro job ⟨raw, callers, loaded, ⟨isAction, written, -⟩ | ⟨isWorkflow, through⟩⟩
  · exact ⟨raw, loaded, Or.inl ⟨isAction, written⟩⟩
  · have comes : Comes resolve ⟨[path], raw⟩ job := ⟨callers, through⟩
    exact ⟨raw, loaded, Or.inr ⟨isWorkflow, comes.reaches⟩⟩

theorem normalize_path {resolve : Resolver} {path : String} {content : List UInt8}
    {pipeline : Pipeline} (read : outcome (normalize resolve path content) = .ok pipeline) :
    pipeline.path = path := by
  rcases normalize_eq_ok read with ⟨-, rfl⟩ | ⟨raw, -, ⟨jobs, -, -, rfl⟩ | ⟨-, read⟩⟩
  · rfl
  · rfl
  · rw [workflow_eq] at read
    obtain ⟨_, _, _, -, -, rfl⟩ := workflowWith_eq_ok read
    rfl

end SupplyLint.Github
