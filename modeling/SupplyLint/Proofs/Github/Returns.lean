import SupplyLint.Proofs.Files
import SupplyLint.Proofs.Github.Workflow
import SupplyLint.Proofs.Value.Text

/-! # Which workflows can be read

The reading of a workflow takes the text of certain values: of the keys that it
does not know, of names, and of what it keeps as texts. It gives a pipeline
exactly when each of these values has a text, in the workflow itself and in
every file that is reached from it by calls, and every such file is loaded. -/
set_option autoImplicit false

namespace SupplyLint.Github

open SupplyLint.Value (AllShort allShort_append allShort_cons allShort_nil)

/-! ## The values whose text is taken -/

def unknownKeys (isKnown : Value → Bool) (raw : Entries) : List Value :=
  raw.keys.filter (!isKnown ·)

def scopeValues : Value → List Value
  | .map entries =>
    Field.written (Value.field entries "branches") ++ Field.written (Value.field entries "paths")
  | _ => []

def triggerValues (raw : Value) : List Value :=
  match raw with
  | .list items => items
  | .map _ => (Field.entries raw).flatMap fun entry => entry.1 :: scopeValues entry.2
  | _ => []

def permissionValues (raw : Value) : List Value :=
  match raw with
  | .map _ => (Field.entries raw).flatMap fun entry => [entry.1, entry.2]
  | _ => []

def runnerValues : Value → List Value
  | .map entries =>
    let group := Value.field entries "group"
    Field.written (Value.field entries "labels") ++ if group.present then [group] else []
  | raw => Field.written raw

/-- The values of a step; one that is left out is not looked into. -/
def stepValues : Value → List Value
  | .map entries =>
    let uses := Value.field entries "uses"
    let run := Value.field entries "run"
    unknownKeys (isKnownKey stepKeys) entries ++
      if uses.isNull == run.isNull then []
      else Field.names (Value.field entries "env") ++ [if uses.isNull then run else uses]
  | _ => []

def stepsValues (raw : Value) : List Value :=
  if !raw.present then []
  else match raw with
    | .list items => items.flatMap stepValues
    | _ => []

def jobValues (raw : Entries) : List Value :=
  unknownKeys (isKnownKey jobKeys) raw ++ stepsValues (Value.field raw "steps") ++
    [Value.field raw "uses"] ++ runnerValues (Value.field raw "runs-on") ++
    permissionValues (Value.field raw "permissions") ++ Field.names (Value.field raw "env") ++
    Field.written (Value.field raw "needs")

def jobEntryValues : Value × Value → List Value
  | (key, .map raw) => key :: jobValues raw
  | (key, _) => [key]

def workflowValues (raw : Entries) : List Value :=
  unknownKeys isWorkflowKey raw ++ triggerValues (triggerField raw) ++
    permissionValues (Value.field raw "permissions") ++ Field.names (Value.field raw "env") ++
    (Field.entries (Value.field raw "jobs")).flatMap jobEntryValues

/-! ## Parts of a workflow -/

theorem returns_noteKeys (isKnown : Value → Bool) (note : String → Noted Unit) (raw : Entries) :
    Returns (outcome (forM raw fun entry => do
      if !isKnown entry.1 then
        let key ← entry.1.toText
        note key)) ↔ AllShort (unknownKeys isKnown raw) := by
  rw [outcome_forM, returns_forM]
  simp only [AllShort, unknownKeys, Keyed.keys, List.mem_filter, List.mem_map]
  constructor
  · rintro all value ⟨⟨entry, member, rfl⟩, unknown⟩
    have here := all entry member
    rw [if_pos unknown, outcome_bind, outcome_fault, returns_bind_of_forall] at here
    · exact (Value.returns_toText entry.1).mp ((returns_uncaught _).mp here)
    · exact fun key _ => returns_ok _
  · intro all entry member
    split
    · next unknown =>
      rw [outcome_bind, outcome_fault, returns_bind_of_forall, returns_uncaught,
        Value.returns_toText]
      · exact all entry.1 ⟨⟨entry, member, rfl⟩, unknown⟩
      · exact fun key _ => returns_ok _
    · exact returns_ok _

theorem returns_noteUnknownKeys (words : List String) (what path location : String)
    (raw : Entries) :
    Returns (outcome (noteUnknownKeys words what path location raw)) ↔
      AllShort (unknownKeys (isKnownKey words) raw) :=
  returns_noteKeys (isKnownKey words)
    (fun key => Noted.note .unknownField path
      ("unknown " ++ what ++ " key '" ++ key ++ "'") location)
    raw

theorem returns_scopedTrigger (event scope : Value) :
    Returns (scopedTrigger event scope) ↔ AllShort (event :: scopeValues scope) := by
  rw [allShort_cons, ← Value.returns_toText event]
  cases scope with
  | map entries =>
    rw [scopeValues, allShort_append, ← Field.returns_texts,
      ← Field.returns_texts]
    exact returns_bind_iff fun _ _ => returns_bind_iff fun _ _ => returns_bind_pure _ _
  | _ =>
    simp only [scopeValues]
    exact returns_bind_iff fun _ _ => iff_of_true (returns_pure _) allShort_nil

theorem returns_writtenTriggers (path : String) (raw : Value) :
    Returns (outcome (writtenTriggers path raw)) ↔ AllShort (triggerValues raw) := by
  cases raw with
  | list items =>
    simp only [writtenTriggers, outcome_bind, outcome_fault, outcome_pure]
    rw [returns_bind_of_forall fun _ _ => returns_ok _, returns_uncaught]
    exact Value.returns_toTexts items
  | map entries =>
    simp only [writtenTriggers, outcome_mapM, outcome_fault, returns_mapM, returns_uncaught,
      returns_scopedTrigger, triggerValues, AllShort, List.mem_flatMap]
    constructor
    · rintro all value ⟨entry, member, inside⟩
      exact all entry member value inside
    · intro all entry member value inside
      exact all value ⟨entry, member, inside⟩
  | _ => exact iff_of_true (returns_ok _) allShort_nil

theorem returns_triggers (path : String) (raw : Value) :
    Returns (outcome (triggers path raw)) ↔ AllShort (triggerValues raw) := by
  simp only [triggers, outcome_bind, outcome_pure]
  rw [returns_bind_of_forall, returns_writtenTriggers]
  intro written _
  rw [returns_bind_of_forall fun _ _ => returns_ok _, List.forM_eq_forM, outcome_forM, returns_forM]
  intro trigger _
  split
  · exact returns_ok _
  · exact returns_ok _

theorem returns_permissions (path location : String) (raw : Value) :
    Returns (outcome (permissions path location raw)) ↔ AllShort (permissionValues raw) := by
  cases raw with
  | map entries =>
    simp only [permissions, outcome_bind, outcome_mapM, outcome_fault, outcome_pure]
    rw [returns_bind_of_forall fun _ _ => returns_ok _, returns_mapM]
    simp only [permissionValues, AllShort, List.mem_flatMap]
    have one (entry : Value × Value) : Returns (uncaught entry.1.toText >>= fun scope =>
        uncaught entry.2.toText >>= fun access => Except.ok (scope, access)) ↔
          AllShort [entry.1, entry.2] := by
      rw [allShort_cons, allShort_cons, ← Value.returns_toText, ← Value.returns_toText,
        ← returns_uncaught, ← returns_uncaught]
      exact returns_bind_iff fun _ _ =>
        (returns_bind_of_forall fun _ _ => returns_ok _).trans (by simp [allShort_nil])
    constructor
    · rintro all value ⟨entry, member, inside⟩
      exact (one entry).mp (all entry member) value inside
    · intro all entry member
      exact (one entry).mpr fun value inside => all value ⟨entry, member, inside⟩
  | _ => exact iff_of_true (returns_ok _) allShort_nil

theorem returns_runnerLabels (raw : Value) :
    Returns (runnerLabels raw) ↔ AllShort (runnerValues raw) := by
  cases raw with
  | map entries =>
    rw [runnerValues, allShort_append, ← Field.returns_texts]
    refine returns_bind_iff fun labels _ => ?_
    split
    · rw [returns_bind_pure, Value.returns_toText]
      simp [AllShort]
    · exact iff_of_true (returns_pure _) allShort_nil
  | _ =>
    simp only [runnerLabels, runnerValues]
    exact Field.returns_texts _

theorem returns_usesText (raw : Value) : Returns (usesText raw) ↔ raw.isShort = true := by
  cases raw with
  | null => simp [usesText, Value.isShort]
  | _ => simp only [usesText, returns_except_map, Value.returns_toText]

theorem returns_stepAction (uses run : Value) (entries : Entries) :
    Returns (stepAction uses run entries) ↔ (if uses.isNull then run else uses).isShort = true := by
  unfold stepAction
  split
  · rw [returns_bind_pure, Value.returns_toText]
  · rw [returns_bind_pure, Value.returns_toText]

theorem returns_step (path job : String) (position : Nat) (raw : Value) :
    Returns (outcome (step path job position raw)) ↔ AllShort (stepValues raw) := by
  cases raw with
  | map entries =>
    simp only [step, stepValues, outcome_bind, allShort_append]
    rw [← returns_noteUnknownKeys stepKeys "step" path (stepLocation job position)]
    refine returns_bind_iff fun _ _ => ?_
    split
    · exact iff_of_true (returns_ok _) allShort_nil
    · simp only [outcome_bind, outcome_fault, outcome_pure, allShort_append, allShort_cons]
      rw [← Field.returns_byText, ← returns_uncaught, ← returns_stepAction _ _ entries,
        ← returns_uncaught (stepAction _ _ _)]
      exact returns_bind_iff fun _ _ =>
        (returns_bind_of_forall fun _ _ => returns_ok _).trans (by simp [allShort_nil])
  | _ => exact iff_of_true (returns_ok _) allShort_nil

theorem returns_stepsFrom (path job : String) (position : Nat) (items : List Value) :
    Returns (outcome (stepsFrom path job position items)) ↔
      AllShort (items.flatMap stepValues) := by
  induction items generalizing position with
  | nil => exact iff_of_true (returns_ok _) allShort_nil
  | cons raw rest ih =>
    simp only [stepsFrom, outcome_bind, outcome_pure, List.flatMap_cons, allShort_append]
    rw [← returns_step path job position raw, ← ih (position + 1)]
    exact returns_bind_iff fun _ _ => returns_bind_of_forall fun _ _ => returns_ok _

theorem returns_steps (path job : String) (raw : Value) :
    Returns (outcome (steps path job raw)) ↔ AllShort (stepsValues raw) := by
  by_cases absent : (!raw.present) = true
  · simp only [steps, stepsValues, if_pos absent]
    exact iff_of_true (returns_ok _) allShort_nil
  · simp only [steps, stepsValues, if_neg absent]
    cases raw with
    | list items => exact returns_stepsFrom path job 0 items
    | _ => exact iff_of_true (returns_ok _) allShort_nil

theorem returns_job (path name : String) (index : Nat) (raw : Entries) :
    Returns (outcome (job path name index raw)) ↔ AllShort (jobValues raw) := by
  simp only [jobValues, allShort_append, allShort_cons, allShort_nil, and_true]
  rw [← returns_noteUnknownKeys jobKeys "job" path ("jobs." ++ name), ← returns_steps path name,
    ← returns_usesText, ← returns_runnerLabels,
    ← returns_permissions path ("jobs." ++ name ++ ".permissions"), ← Field.returns_byText,
    ← Field.returns_texts, ← returns_uncaught, ← returns_uncaught (runnerLabels _),
    ← returns_uncaught (Field.byText _), ← returns_uncaught (Field.texts _)]
  simp only [job, outcome_bind, outcome_fault, outcome_pure, and_assoc]
  exact returns_bind_iff fun _ _ => returns_bind_iff fun _ _ => returns_bind_iff fun _ _ =>
    returns_bind_iff fun _ _ => returns_bind_iff fun _ _ => returns_bind_iff fun _ _ =>
    returns_bind_of_forall fun _ _ => returns_ok _

/-! ## Calls -/

def EntryCalls (entry : Value × Value) (target : String) : Prop :=
  ∃ raw uses, entry.2 = .map raw ∧ usesText (Value.field raw "uses") = .ok uses ∧
    targetOf uses = some target

def Calls (raw : Entries) (target : String) : Prop :=
  ∃ entry ∈ Field.entries (Value.field raw "jobs"), EntryCalls entry target

section Calls
variable {follow : Follow} {returns : String → Prop}

theorem returns_call (follows : ∀ path caller target,
      Returns (outcome (follow path caller target)) ↔ returns target)
    {path name : String} {index : Nat} {key : Value} {raw rest : Entries} {jobs : Jobs}
    {written : Job} {later : Prop} (wrote : outcome (job path name index raw) = .ok written)
    (others : ∀ jobs, Returns (outcome (parseJobs follow path rest jobs)) ↔ later) :
    Returns (outcome (match callTarget written with
      | none => parseJobs follow path rest (jobs.put name written)
      | some target => do
        match ← follow path written target with
        | none => parseJobs follow path rest (jobs.put name written)
        | some called =>
          parseJobs follow path rest
            (called.orderedJobs.foldl (adopt name called.permissions) (jobs.put name written)))) ↔
      (∀ target, EntryCalls (key, .map raw) target → returns target) ∧ later := by
  obtain ⟨-, -, uses⟩ := job_identity wrote
  have calls (target : String) :
      EntryCalls (key, .map raw) target ↔ callTarget written = some target := by
    constructor
    · rintro ⟨_, found, ⟨⟩, read, same⟩
      rw [uses] at read
      obtain rfl := Except.ok.inj read
      exact same
    · intro same
      exact ⟨raw, written.uses, rfl, uses, same⟩
  simp only [calls]
  cases call : callTarget written with
  | none => simpa using others _
  | some target =>
    simp only [outcome_bind, Option.some.injEq, forall_eq']
    rw [← follows path written target]
    refine returns_bind_iff fun called _ => ?_
    cases called with
    | none => exact others _
    | some called => exact others _

theorem returns_parseJobs (follows : ∀ path caller target,
      Returns (outcome (follow path caller target)) ↔ returns target)
    (path : String) (entries : Entries) (jobs : Jobs) :
    Returns (outcome (parseJobs follow path entries jobs)) ↔
      AllShort (entries.flatMap jobEntryValues) ∧
        ∀ entry ∈ entries, ∀ target, EntryCalls entry target → returns target := by
  induction entries generalizing jobs with
  | nil => exact iff_of_true (returns_ok _) ⟨allShort_nil, by simp⟩
  | cons entry rest ih =>
    obtain ⟨key, raw⟩ := entry
    rw [List.flatMap_cons, allShort_append, List.forall_mem_cons]
    -- Only a job that is a mapping can call; of another one only the name is shown.
    by_cases mapping : ∃ entries, raw = .map entries
    · obtain ⟨entries, rfl⟩ := mapping
      have step : Returns (outcome (parseJobs follow path ((key, .map entries) :: rest) jobs)) ↔
          Returns (uncaught key.toText) ∧ AllShort (jobValues entries) ∧
            (∀ target, EntryCalls (key, .map entries) target → returns target) ∧
            AllShort (rest.flatMap jobEntryValues) ∧
              ∀ entry ∈ rest, ∀ target, EntryCalls entry target → returns target := by
        simp only [parseJobs, outcome_bind, outcome_fault]
        refine returns_bind_iff fun name _ => ?_
        rw [← returns_job path name jobs.length]
        exact returns_bind_iff fun written wrote => returns_call follows wrote ih
      rw [step, jobEntryValues, allShort_cons, returns_uncaught, Value.returns_toText]
      constructor
      · rintro ⟨named, own, calls, others, laterCalls⟩
        exact ⟨⟨⟨named, own⟩, others⟩, calls, laterCalls⟩
      · rintro ⟨⟨⟨named, own⟩, others⟩, calls, laterCalls⟩
        exact ⟨named, own, calls, others, laterCalls⟩
    · have noCalls : ∀ target, EntryCalls (key, raw) target → returns target := by
        rintro target ⟨entries, uses, same, -⟩
        exact absurd ⟨entries, same⟩ mapping
      have values : AllShort (jobEntryValues (key, raw)) ↔ Returns (uncaught key.toText) := by
        rw [returns_uncaught, Value.returns_toText]
        cases raw with
        | map entries => exact absurd ⟨entries, rfl⟩ mapping
        | _ => simp [jobEntryValues, AllShort]
      have step : Returns (outcome (parseJobs follow path ((key, raw) :: rest) jobs)) ↔
          Returns (uncaught key.toText) ∧ Returns (outcome (parseJobs follow path rest jobs)) := by
        cases raw with
        | map entries => exact absurd ⟨entries, rfl⟩ mapping
        | _ =>
          simp only [parseJobs, outcome_bind, outcome_fault]
          exact returns_bind_iff fun name _ => Iff.rfl
      rw [step, values, ih]
      constructor
      · rintro ⟨named, others, laterCalls⟩
        exact ⟨⟨named, others⟩, noCalls, laterCalls⟩
      · rintro ⟨⟨named, others⟩, -, laterCalls⟩
        exact ⟨named, others, laterCalls⟩

theorem returns_jobsOf (follows : ∀ path caller target,
      Returns (outcome (follow path caller target)) ↔ returns target)
        (path : String) (raw : Value) :
    Returns (outcome (jobsOf follow path raw)) ↔
      AllShort ((Field.entries raw).flatMap jobEntryValues) ∧
        ∀ entry ∈ Field.entries raw, ∀ target, EntryCalls entry target → returns target := by
  cases raw with
  | map entries =>
    rw [← returns_parseJobs follows path _ []]
    simp only [jobsOf, outcome_bind]
    exact returns_bind_of_forall fun _ _ => returns_ok _
  | _ => exact iff_of_true (returns_ok _) ⟨allShort_nil, by simp [Field.entries]⟩

theorem returns_workflowWith (follows : ∀ path caller target,
      Returns (outcome (follow path caller target)) ↔ returns target)
    (path : String) (raw : Entries) :
    Returns (outcome (workflowWith follow path raw)) ↔
      AllShort (workflowValues raw) ∧ ∀ target, Calls raw target → returns target := by
  have step : Returns (outcome (workflowWith follow path raw)) ↔
      AllShort (unknownKeys isWorkflowKey raw) ∧ AllShort (triggerValues (triggerField raw)) ∧
        AllShort (permissionValues (Value.field raw "permissions")) ∧
        AllShort (Field.names (Value.field raw "env")) ∧
        Returns (outcome (jobsOf follow path (Value.field raw "jobs"))) := by
    rw [← returns_noteKeys isWorkflowKey fun key =>
        Noted.note .unknownField path ("unknown workflow key '" ++ key ++ "'") key,
      ← returns_triggers path, ← returns_permissions path "permissions", ← Field.returns_byText,
      ← returns_uncaught (Field.byText _)]
    simp only [workflowWith, outcome_bind, List.forM_eq_forM]
    exact returns_bind_iff fun _ _ => returns_bind_iff fun _ _ => returns_bind_iff fun _ _ =>
      returns_bind_iff fun _ _ => returns_bind_of_forall fun _ _ => returns_ok _
  rw [step, returns_jobsOf follows]
  simp only [workflowValues, allShort_append, and_assoc]
  refine and_congr_right fun _ => and_congr_right fun _ => and_congr_right fun _ =>
    and_congr_right fun _ => and_congr_right fun _ => ?_
  constructor
  · rintro all target ⟨entry, member, calls⟩
    exact all entry member target calls
  · intro all entry member target calls
    exact all target ⟨entry, member, calls⟩

end Calls

/-! ## Workflows and what they reach -/

/-- What keeps no workflow from being read: its values have a text, and the files that it opens are
loaded. -/
structure IsReadable (resolve : Resolver) (file : File) : Prop where
  values : AllShort (workflowValues file.entries)
  loads : ∀ target, Tries Calls file target → FileLoads resolve target

theorem returns_entriesOf (path : String) (content : List UInt8) :
    Returns (entriesOf path content) ↔ Loads content := by
  unfold entriesOf
  rw [returns_bind_of_forall, returns_documents]
  intro values _
  cases values with
  | none => exact returns_ok _
  | some values => exact returns_ok _

theorem returns_opened (resolve : Resolver) (target : String) :
    Returns (opened resolve target) ↔ FileLoads resolve target :=
  returns_lookup (returns_entriesOf target)

theorem returns_followCall (resolve : Resolver) (room : Nat) (chain : List String) (path : String)
    (caller : Job) (target : String) :
    Returns (outcome (followCall resolve room chain path caller target)) ↔
      (target ∉ chain → 0 < room → FileLoads resolve target ∧
        ∀ called, opened resolve target = .ok (some called) →
          Returns (outcome (workflow resolve (room - 1) (chain ++ [target]) target called))) := by
  cases room with
  | zero => simp [followCall, outcome_refuseCall]
  | succ room =>
    simp only [followCall, Nat.zero_lt_succ, forall_const, Nat.add_sub_cancel]
    by_cases inChain : chain.contains target = true
    · have member : target ∈ chain := by simpa using inChain
      rw [if_pos inChain, outcome_refuseCall]
      exact iff_of_true (returns_ok _) fun outside => absurd member outside
    · have outside : target ∉ chain := by simpa using inChain
      rw [if_neg inChain, outcome_bind, outcome_openTarget, returns_bind_and, returns_opened]
      simp only [outside, not_false_eq_true, forall_const]
      refine and_congr_right fun _ => ?_
      constructor
      · intro later called opens
        simpa using later (some called) opens
      · intro later found opens
        cases found with
        | none => exact returns_ok _
        | some called => simpa using later called opens

theorem returns_workflow (resolve : Resolver) (file : File) (path : String) :
    Returns (outcome (workflow resolve (maxFiles - file.chain.length) file.chain path
      file.entries)) ↔
    ∀ next, Relation.ReflTransGen (Opens Calls (opened resolve)) file next →
      IsReadable resolve next := by
  refine reads_iff_reached (fun room chain path raw =>
    Returns (outcome (workflow resolve room chain path raw))) ?_ file path
  intro file path
  rw [workflow_eq, returns_workflowWith fun path caller target =>
    returns_followCall resolve _ file.chain path caller target]
  constructor
  · rintro ⟨values, follows⟩
    refine ⟨⟨values, fun target tries => ?_⟩, fun target tries called found => ?_⟩
    · exact (follows target tries.1 tries.2.1 (Nat.sub_pos_of_lt tries.2.2)).1
    · exact (follows target tries.1 tries.2.1 (Nat.sub_pos_of_lt tries.2.2)).2 called found
  · rintro ⟨⟨values, loads⟩, later⟩
    refine ⟨values, fun target calls outside room => ?_⟩
    have tries : Tries Calls file target := ⟨calls, outside, Nat.lt_of_sub_pos room⟩
    exact ⟨loads target tries, fun called found => later target tries called found⟩

/-! ## Actions -/

def runsField (runs : Entries) (name : String) : Value :=
  (Keyed.get? runs (.text name)).getD (.text "")

def runsSteps (runs : Entries) : Value :=
  (Keyed.get? runs (.text "steps")).getD (.list [])

def actionValues (raw : Entries) : List Value :=
  match Value.field raw "runs" with
  | .map runs =>
    let kind := runsField runs "using"
    kind :: if kind.toText.toOption = some "composite" then stepsValues (runsSteps runs)
      else if kind.toText.toOption = some "docker" then [runsField runs "image"]
      else []
  | _ => []

theorem jobValues_composite (steps : Value) :
    jobValues [(.text "steps", steps)] = stepsValues steps ++ [.null] := by
  have known : unknownKeys (isKnownKey jobKeys) [(.text "steps", steps)] = [] := rfl
  have found : Value.field [(.text "steps", steps)] "steps" = steps := rfl
  have uses : Value.field [(.text "steps", steps)] "uses" = .null := rfl
  have runner : Value.field [(.text "steps", steps)] "runs-on" = .null := rfl
  have granted : Value.field [(.text "steps", steps)] "permissions" = .null := rfl
  have env : Value.field [(.text "steps", steps)] "env" = .null := rfl
  have needs : Value.field [(.text "steps", steps)] "needs" = .null := rfl
  rw [jobValues, known, found, uses, runner, granted, env, needs]
  simp [runnerValues, permissionValues, Field.names, Field.entries, Field.written, Keyed.keys]

theorem allShort_composite (steps : Value) :
    AllShort (jobValues [(.text "steps", steps)]) ↔ AllShort (stepsValues steps) := by
  rw [jobValues_composite, allShort_append, allShort_cons]
  simp [Value.isShort, allShort_nil]

theorem returns_actionJobs (path : String) (raw : Entries) :
    Returns (outcome (actionJobs path raw)) ↔ AllShort (actionValues raw) := by
  unfold actionJobs actionValues
  cases Value.field raw "runs" with
  | map runs =>
    simp only [outcome_bind, outcome_fault, allShort_cons]
    rw [← Value.returns_toText, ← returns_uncaught]
    refine returns_bind_iff fun kind found => ?_
    have text : (runsField runs "using").toText = .ok kind := uncaught_eq_ok.mp found
    rw [text]
    simp only [Except.toOption, Option.some.injEq]
    split
    · rw [outcome_bind, returns_bind_of_forall, returns_job]
      · exact allShort_composite (runsSteps runs)
      · exact fun _ _ => returns_ok _
    · split
      · rw [outcome_bind, returns_bind_of_forall, outcome_fault, returns_uncaught]
        · rw [allShort_cons, and_iff_left allShort_nil]
          exact Value.returns_toText (runsField runs "image")
        · exact fun _ _ => returns_ok _
      · exact iff_of_true (returns_ok _) allShort_nil
  | _ => exact iff_of_true (returns_ok _) allShort_nil

/-- The entries of a document can be read: those of an action, or those of a workflow and of every
file that it reaches. -/
def EntriesReadable (resolve : Resolver) (path : String) (raw : Entries) : Prop :=
  if isActionMetadata path then AllShort (actionValues raw)
  else ∀ file, Relation.ReflTransGen (Opens Calls (opened resolve)) ⟨[path], raw⟩ file →
    IsReadable resolve file

theorem returns_pipelineOf (resolve : Resolver) (path : String) (raw : Entries) :
    Returns (outcome (pipelineOf resolve path raw)) ↔ EntriesReadable resolve path raw := by
  unfold pipelineOf EntriesReadable
  split
  · rw [actionMetadata, outcome_bind, returns_bind_of_forall, returns_actionJobs]
    exact fun _ _ => returns_ok _
  · exact returns_workflow resolve ⟨[path], raw⟩ path

theorem returns_normalize (resolve : Resolver) (path : String) (content : List UInt8) :
    Returns (outcome (normalize resolve path content)) ↔
      Loads content ∧
        ∀ raw, entriesOf path content = .ok (some raw) → EntriesReadable resolve path raw := by
  rw [outcome_normalize, returns_bind_and, returns_entriesOf]
  refine and_congr_right fun _ => ?_
  constructor
  · intro all raw loaded
    exact (returns_pipelineOf resolve path raw).mp (all (some raw) loaded)
  · intro readable found loaded
    cases found with
    | none => exact returns_ok _
    | some raw => exact (returns_pipelineOf resolve path raw).mpr (readable raw loaded)

end SupplyLint.Github
