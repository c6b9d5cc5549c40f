import SupplyLint.Proofs.Github.Lookups
import SupplyLint.Proofs.Unlined

/-! # Workflows without their lines

A workflow is read alike with any lines, if there are none in values whose text is taken, nor in
those that are kept as a name or a shell. -/
set_option autoImplicit false

namespace SupplyLint.Github

open SupplyLint.Value (AllLineless allLineless_cons allLineless_append allLineless_flatMap
  field_unlinedEntries toText_unlined toTexts_unlined unlined unlinedEntries)
open SupplyLint.Yaml (lineKey)

/-! ## Values that are kept

Environments and arguments apart, a pipeline keeps these values as they are written. -/

def stepKept : Value → List Value
  | .map entries => [Value.field entries "name", Value.field entries "shell"]
  | _ => []

def stepsKept : Value → List Value
  | .list items => items.flatMap stepKept
  | _ => []

def jobEntryKept : Value × Value → List Value
  | (_, .map raw) => stepsKept (Value.field raw "steps")
  | _ => []

def workflowKept (raw : Entries) : List Value :=
  Value.field raw "name" :: (Field.entries (Value.field raw "jobs")).flatMap jobEntryKept

def actionKept (raw : Entries) : List Value :=
  Value.field raw "name" ::
    match Value.field raw "runs" with
    | .map runs => stepsKept (runsSteps runs)
    | _ => []

/-! ## Parts of a workflow -/

theorem forM_unlined {read : Value × Value → Normalizing PUnit}
    (ofKey : ∀ key value other, read (key, value) = read (key, other)) (raw : Entries) :
    forM (unlinedEntries raw) read = forM raw read :=
  Keyed.forM_of_keys ofKey (by simp [Value.unlinedEntries_eq, Keyed.keys])

theorem noteUnknownKeys_unlined (words : List String)
    (what path location : String) (raw : Entries) :
    noteUnknownKeys words what path location (unlinedEntries raw) =
      noteUnknownKeys words what path location raw :=
  forM_unlined (fun _ _ _ => rfl) raw

theorem scopedTrigger_unlined (event : Value) {scope : Value}
    (lineless : AllLineless (scopeValues scope)) :
    scopedTrigger event scope.unlined = scopedTrigger event scope := by
  cases scope with
  | map entries =>
    obtain ⟨branches, paths⟩ := Value.allLineless_append.mp lineless
    simp (disch := decide) only [scopedTrigger, Value.unlined_map, field_unlinedEntries,
      Field.texts_unlined branches, Field.texts_unlined paths]
  | _ => rfl

theorem writtenTriggers_unlined (path : String) {raw : Value}
    (lineless : AllLineless (triggerValues raw)) :
    writtenTriggers path raw.unlined = writtenTriggers path raw := by
  cases raw with
  | list items =>
    rw [Value.unlined_list, writtenTriggers, @toTexts_unlined items lineless]
    rfl
  | map entries =>
    simp only [triggerValues, allLineless_flatMap, allLineless_cons] at lineless
    rw [Value.unlined_map, writtenTriggers, ← Value.unlined_map, Field.entries_unlined]
    exact Keyed.mapM_mapValues unlined _ fun entry member =>
      congrArg _ (scopedTrigger_unlined entry.1 (lineless entry member).2)
  | _ => rfl

theorem triggers_unlined (path : String) {raw : Value}
    (lineless : AllLineless (triggerValues raw)) :
    triggers path raw.unlined = triggers path raw := by
  rw [triggers, writtenTriggers_unlined path lineless, triggers]

theorem permissions_unlined (path location : String) {raw : Value}
    (lineless : AllLineless (permissionValues raw)) :
    permissions path location raw.unlined = permissions path location raw := by
  cases raw with
  | map entries =>
    simp only [permissionValues, allLineless_flatMap, allLineless_cons] at lineless
    rw [Value.unlined_map, permissions, ← Value.unlined_map, Field.entries_unlined]
    refine congrArg (· >>= _) (Keyed.mapM_mapValues unlined _ fun entry member => ?_)
    rw [toText_unlined (lineless entry member).2.1]
  | _ => rfl

theorem runnerLabels_unlined {raw : Value} (lineless : AllLineless (runnerValues raw)) :
    runnerLabels raw.unlined = runnerLabels raw := by
  cases raw with
  | map entries =>
    obtain ⟨labels, group⟩ := allLineless_append.mp lineless
    rw [Value.unlined_map, runnerLabels, runnerLabels]
    simp (disch := decide) only [field_unlinedEntries, Field.texts_unlined labels,
      Value.present_unlined]
    refine congrArg _ (funext fun texts => ?_)
    split
    · next present =>
      rw [if_pos present, allLineless_cons] at group
      rw [toText_unlined group.1]
    · rfl
  | list items => exact @Field.texts_unlined (.list items) lineless
  | tuple items => exact @Field.texts_unlined (.tuple items) lineless
  | set items => exact @Field.texts_unlined (.set items) lineless
  | _ => rfl

theorem imageRef_unlined (raw : Value) :
    imageRef (imageField raw.unlined) = imageRef (imageField raw) := by
  have ofText (field : Value) : imageRef field.unlined = imageRef field := by cases field <;> rfl
  cases raw with
  | map entries =>
    rw [Value.unlined_map, imageField, field_unlinedEntries (by decide), ofText]
    rfl
  | _ => rfl

theorem images_unlined (raw : Entries) : images (unlinedEntries raw) = images raw := by
  unfold images
  rw [field_unlinedEntries (by decide), field_unlinedEntries (by decide), Field.entries_unlined,
    Keyed.values_mapValues]
  dsimp only
  rw [← List.map_cons, List.map_map, List.filterMap_map, List.filterMap_map]
  exact congrArg (List.filterMap · _) (funext imageRef_unlined)

/-! ## Steps -/

theorem stepAction_unlined {uses run : Value} {entries : Entries}
    (lineless : (if uses.isNull then run else uses).isLineless = true)
    (shell : (Value.field entries "shell").isLineless = true) :
    stepAction uses.unlined run.unlined (unlinedEntries entries) =
      Action.unlined <$> stepAction uses run entries := by
  unfold stepAction
  rw [Value.isNull_unlined]
  split at lineless
  · next none =>
    rw [if_pos none, if_pos none, toText_unlined lineless, field_unlinedEntries (by decide),
      Value.unlined_of_isLineless _ shell]
    simp only [map_bind, map_pure]
    rfl
  · next some =>
    rw [if_neg some, if_neg some, toText_unlined lineless, field_unlinedEntries (by decide),
      Field.entries_unlined]
    simp only [map_bind, map_pure]
    rfl

theorem step_unlined (path job : String) (position : Nat) {raw : Value}
    (lineless : AllLineless (stepValues raw)) (kept : AllLineless (stepKept raw)) :
    step path job position raw.unlined = Option.map Step.unlined <$>
      step path job position raw := by
  cases raw with
  | map entries =>
    obtain ⟨-, values⟩ := allLineless_append.mp lineless
    simp only [stepKept, allLineless_cons] at kept
    obtain ⟨name, shell, -⟩ := kept
    rw [Value.unlined_map, step, step]
    simp (disch := decide) only [field_unlinedEntries, Value.isNull_unlined,
      noteUnknownKeys_unlined, Field.byText_unlined, map_bind, Value.unlined_of_isLineless _ name]
    refine congrArg _ (funext fun _ => ?_)
    split
    · simp only [map_bind, map_pure, Option.map_none]
    · next differ =>
      rw [if_neg differ, allLineless_append, allLineless_cons] at values
      rw [stepAction_unlined values.2.1 shell, Field.line_unlined]
      simp only [liftM_map_fault, bind_map_left, map_bind, map_pure]
      rfl
  | _ => rfl

theorem stepsFrom_unlined (path job : String) (position : Nat) {items : List Value}
    (lineless : AllLineless (items.flatMap stepValues))
    (kept : AllLineless (items.flatMap stepKept)) :
    stepsFrom path job position (items.map unlined) =
      List.map Step.unlined <$> stepsFrom path job position items := by
  induction items generalizing position with
  | nil => rfl
  | cons item rest ih =>
    rw [List.flatMap_cons, allLineless_append] at lineless kept
    rw [List.map_cons, stepsFrom, step_unlined path job position lineless.1 kept.1,
      ih _ lineless.2 kept.2, stepsFrom]
    simp only [bind_map_left, map_bind, map_pure, List.map_append, Option.toList_map]

theorem steps_unlined (path job : String) {raw : Value} (lineless : AllLineless (stepsValues raw))
    (kept : AllLineless (stepsKept raw)) :
    steps path job raw.unlined = List.map Step.unlined <$> steps path job raw := by
  unfold stepsValues at lineless
  unfold steps
  rw [Value.present_unlined]
  split
  · rfl
  · next present =>
    rw [if_neg present] at lineless
    cases raw with
    | list items =>
      rw [Value.unlined_list]
      exact stepsFrom_unlined path job 0 lineless kept
    | _ => rfl

theorem usesText_unlined {raw : Value} (lineless : raw.isLineless = true) :
    usesText raw.unlined = usesText raw := by
  rw [Value.unlined_of_isLineless raw lineless]

theorem job_unlined (path name : String) (index : Nat) {raw : Entries}
    (lineless : AllLineless (jobValues raw))
    (kept : AllLineless (stepsKept (Value.field raw "steps"))) :
    job path name index (unlinedEntries raw) = Job.unlined <$> job path name index raw := by
  simp only [jobValues, allLineless_append, allLineless_cons] at lineless
  obtain ⟨⟨⟨⟨⟨⟨-, steps⟩, uses, -⟩, runner⟩, scopes⟩, -⟩, needs⟩ := lineless
  unfold job
  simp (disch := decide) only [field_unlinedEntries, noteUnknownKeys_unlined,
    steps_unlined _ _ steps kept, usesText_unlined uses, runnerLabels_unlined runner,
    permissions_unlined _ _ scopes, Field.byText_unlined, Field.texts_unlined needs, images_unlined,
    Field.line_unlined, liftM_map_fault, bind_map_left, map_bind, map_pure]
  rfl

/-! ## Calls -/

theorem adopt_unlined (caller : String) (called : Option (Keyed String String)) (jobs : Jobs)
    (job : Job) :
    (adopt caller called jobs job).unlined = adopt caller called jobs.unlined job.unlined := by
  rw [adopt, Jobs.unlined, Keyed.put_mapValues, adopt, Keyed.length_mapValues]
  rfl

theorem adoptAll_unlined (caller : String) (called : Option (Keyed String String)) (more : List Job)
    (jobs : Jobs) :
    Jobs.unlined (more.foldl (adopt caller called) jobs) =
      (more.map Job.unlined).foldl (adopt caller called) jobs.unlined := by
  induction more generalizing jobs with
  | nil => rfl
  | cons job rest ih =>
    rw [List.foldl_cons, ih, adopt_unlined]
    rfl

def FollowsUnlined (follow other : Follow) (path : String) (entries : Entries) : Prop :=
  ∀ entry ∈ entries, ∀ target, EntryCalls entry target → ∀ caller,
    other path caller.unlined target = Option.map Pipeline.unlined <$> follow path caller target

section Calls
variable {follow other : Follow} {path : String}

theorem parseJobs_unlined {entries : Entries}
    (lineless : AllLineless (entries.flatMap jobEntryValues))
    (kept : AllLineless (entries.flatMap jobEntryKept))
    (follows : FollowsUnlined follow other path entries) (jobs : Jobs) :
    parseJobs other path (Keyed.mapValues unlined entries) jobs.unlined =
      Jobs.unlined <$> parseJobs follow path entries jobs := by
  induction entries generalizing jobs with
  | nil => rfl
  | cons entry rest ih =>
    obtain ⟨key, raw⟩ := entry
    rw [List.flatMap_cons, allLineless_append] at lineless kept
    obtain ⟨own, others⟩ := List.forall_mem_cons.mp follows
    have later := ih lineless.2 kept.2 others
    cases raw with
    | map raw =>
      have values := (allLineless_cons.mp lineless.1).2
      simp only [Keyed.mapValues_cons, Value.unlined_map, parseJobs,
        job_unlined _ _ _ values kept.1, map_bind, bind_map_left, Keyed.length_mapValues]
      refine bind_congr_of_outcome fun name _ => bind_congr_of_outcome fun written wrote => ?_
      rw [← Keyed.put_mapValues, show callTarget written.unlined = callTarget written from rfl]
      cases call : callTarget written with
      | none => exact later _
      | some target =>
        simp only [own target ((entryCalls_iff wrote).mpr call) written, bind_map_left, map_bind]
        refine congrArg _ (funext fun called => ?_)
        cases called with
        | none => exact later _
        | some called =>
          have ordered : called.unlined.orderedJobs = called.orderedJobs.map Job.unlined :=
            Jobs.ordered_unlined called.jobs
          rw [← later, adoptAll_unlined, ← ordered]
          rfl
    | _ =>
      simp only [Keyed.mapValues_cons, Value.unlined, parseJobs, map_bind]
      exact bind_congr_of_outcome fun _ _ => bind_congr_of_outcome fun _ _ => later _

theorem jobsOf_unlined {raw : Value}
    (lineless : AllLineless ((Field.entries raw).flatMap jobEntryValues))
    (kept : AllLineless ((Field.entries raw).flatMap jobEntryKept))
    (follows : FollowsUnlined follow other path (Field.entries raw)) :
    jobsOf other path raw.unlined = Jobs.unlined <$> jobsOf follow path raw := by
  cases raw with
  | map entries =>
    have parsed := parseJobs_unlined lineless kept follows []
    rw [Value.unlined_map, jobsOf, ← Value.unlined_map, Field.entries_unlined,
      show ([] : Jobs) = Jobs.unlined [] from rfl, parsed]
    simp only [jobsOf, bind_map_left, map_bind, Needs.validate_unlined, liftM_map_noted]
  | _ => rfl

theorem triggerField_unlined (raw : Entries) :
    triggerField (unlinedEntries raw) = (triggerField raw).unlined := by
  have truth : Keyed.get? (unlinedEntries raw) (.bool true) =
      (Keyed.get? raw (.bool true)).map unlined := by
    rw [Value.get?_unlinedEntries]
    exact congrArg (Option.map · _) (funext fun value => Value.unlinedUnder_of_ne (by simp) value)
  rw [triggerField, Value.hasField_unlinedEntries, field_unlinedEntries (by decide), truth,
    triggerField]
  split
  · rfl
  · cases Keyed.get? raw (.bool true) <;> rfl

theorem workflowWith_unlined {raw : Entries} (lineless : AllLineless (workflowValues raw))
    (kept : AllLineless (workflowKept raw))
    (follows : FollowsUnlined follow other path (Field.entries (Value.field raw "jobs"))) :
    workflowWith other path (unlinedEntries raw) =
      Pipeline.unlined <$> workflowWith follow path raw := by
  simp only [workflowValues, allLineless_append] at lineless
  obtain ⟨⟨⟨⟨-, started⟩, granted⟩, -⟩, jobs⟩ := lineless
  obtain ⟨name, jobsKept⟩ := allLineless_cons.mp kept
  unfold workflowWith
  simp (disch := decide) only [triggerField_unlined, field_unlinedEntries,
    triggers_unlined _ started,
    permissions_unlined _ _ granted, Field.byText_unlined, jobsOf_unlined jobs jobsKept follows,
    Value.unlined_of_isLineless _ name, liftM_map_fault, bind_map_left, map_bind, map_pure]
  exact congrArg (· >>= _) (forM_unlined (fun _ _ _ => rfl) raw)

end Calls

/-! ## Files -/

/-- There are no lines in the values of a workflow whose text is taken, nor in those that are kept,
and none in those of the workflows that are reached from it. -/
def IsLineless (resolve : Resolver) (file : File) : Prop :=
  ∀ last, Relation.ReflTransGen (Opens Calls (opened resolve)) file last →
    AllLineless (workflowValues last.entries) ∧ AllLineless (workflowKept last.entries)

theorem entryTarget_unlined {key value : Value}
    (lineless : AllLineless (jobEntryValues (key, value))) :
    entryTarget (key, value.unlined) = entryTarget (key, value) := by
  cases value with
  | map raw =>
    simp only [jobEntryValues, jobValues, allLineless_cons, allLineless_append] at lineless
    obtain ⟨-, ⟨⟨⟨⟨⟨⟨-, -⟩, uses, -⟩, -⟩, -⟩, -⟩, -⟩⟩ := lineless
    simp (disch := decide) only [entryTarget, Value.unlined_map, field_unlinedEntries,
      usesText_unlined uses]
  | _ => rfl

theorem targets_unlined {raw : Entries} (lineless : AllLineless (workflowValues raw)) :
    targets (unlinedEntries raw) = targets raw := by
  have jobs := (allLineless_append.mp lineless).2
  rw [allLineless_flatMap] at jobs
  rw [targets, field_unlinedEntries (by decide), Field.entries_unlined, Keyed.mapValues,
    List.filterMap_map, targets]
  exact List.filterMap_congr fun entry member => entryTarget_unlined (jobs entry member)

theorem calls_unlined {raw : Entries} (lineless : AllLineless (workflowValues raw))
    {target : String} :
    Calls (unlinedEntries raw) target ↔ Calls raw target := by
  rw [← refers_targets, Refers, targets_unlined lineless, Refers]

section Alike
variable {first second : Resolver}

theorem openContent_sameUnder (path : String) {content other : List UInt8}
    (alike : LoadAlike content other) :
    SameUnder (Option.map unlinedEntries) (openContent path content) (openContent path other) := by
  refine (documents_sameUnder path alike).bindOption (.refl _ _) fun values others _ _ same => ?_
  refine .of_noted ?_
  rw [← mapping_unlined, ← mapping_unlined, same]

theorem openTarget_sameUnder (files : FilesAlike first second)
    (path target : String) (caller : Job) :
    SameUnder (Option.map unlinedEntries) (openTarget first path caller target)
      (openTarget second path caller target) := by
  exact (SameUnder.of_failure (files target)).bindOption (.refl _ _)
    fun content other _ _ same => openContent_sameUnder target same

theorem followCall_unlined (resolve : Resolver) (room : Nat) (chain : List String) (path : String)
    (caller : Job) (target : String) :
    followCall resolve room chain path caller.unlined target =
      followCall resolve room chain path caller target := by
  cases room <;> rfl

theorem IsLineless.below {resolve : Resolver} {file : File} (lineless : IsLineless resolve file)
    {target : String} (tries : Tries Calls file target) {called : Entries}
    (opens : opened resolve target = .ok (some called)) :
    IsLineless resolve ⟨file.chain ++ [target], called⟩ :=
  fun last reached => lineless last (.head ⟨target, tries, opens, rfl⟩ reached)

theorem workflow_sameUnder (files : FilesAlike first second) {chain : List String}
    {raw other : Entries} (entries : unlinedEntries raw = unlinedEntries other)
    (lineless : IsLineless first ⟨chain, raw⟩) (linelessToo : IsLineless second ⟨chain, other⟩)
    (path : String) :
    SameUnder Pipeline.unlined (workflow first (maxFiles - chain.length) chain path raw)
      (workflow second (maxFiles - chain.length) chain path other) := by
  induction room : maxFiles - chain.length generalizing chain path raw other with
  | zero =>
    have follows (raw : Entries) : FollowsUnlined refuseCall
        (fun path caller target => Option.map Pipeline.unlined <$> refuseCall path caller target)
          path
        (Field.entries (Value.field raw "jobs")) := fun _ _ _ _ _ => rfl
    refine .of_read (workflowWith_unlined (lineless _ .refl).1
      (lineless _ .refl).2 (follows raw)) ?_
    rw [entries]
    exact workflowWith_unlined (linelessToo _ .refl).1 (linelessToo _ .refl).2 (follows other)
  | succ fewer ih =>
    -- The calls of both workflows are followed as those of the first are.
    let follow : Follow := fun path caller target =>
      Option.map Pipeline.unlined <$> followCall first (fewer + 1) chain path caller target
    rw [workflow_eq, workflow_eq]
    have follows : FollowsUnlined (followCall first (fewer + 1) chain) follow path
        (Field.entries (Value.field raw "jobs")) := fun _ _ target _ caller =>
      congrArg (_ <$> ·) (followCall_unlined first (fewer + 1) chain path caller target)
    refine .of_read (workflowWith_unlined (lineless _ .refl).1 (lineless _ .refl).2 follows) ?_
    rw [entries]
    refine workflowWith_unlined (linelessToo _ .refl).1 (linelessToo _ .refl).2
      fun entry member target calls caller => ?_
    refine (congrArg (_ <$> ·)
      (followCall_unlined first (fewer + 1) chain path caller target)).trans ?_
    by_cases inside : target ∈ chain
    · have contains : chain.contains target = true := by simpa using inside
      simp only [followCall]
      rw [if_pos contains, if_pos contains]
    · have tries : Tries Calls ⟨chain, other⟩ target := ⟨⟨entry, member, calls⟩, inside, by
        dsimp only
        omega⟩
      -- The texts of calls show no line, so the first workflow calls what the second does.
      have triesToo : Tries Calls ⟨chain, raw⟩ target := by
        refine ⟨?_, tries.2⟩
        have calls := (calls_unlined (linelessToo _ .refl).1).mpr tries.1
        rw [← entries] at calls
        exact (calls_unlined (lineless _ .refl).1).mp calls
      rw [followCall_of_not_mem _ _ _ _ inside, followCall_of_not_mem _ _ _ _ inside]
      refine (openTarget_sameUnder files path target caller).bindOption (.refl _ _)
        fun called calledToo opens opensToo same => ?_
      rw [outcome_openTarget] at opens opensToo
      refine .map (ih same (lineless.below triesToo opens)
        (linelessToo.below tries opensToo) target ?_)
        fun _ => rfl
      rw [List.length_append, List.length_singleton]
      dsimp only at room ⊢
      omega

end Alike

/-! ## Actions -/

theorem runsText_unlined {runs : Entries} {name : String} (other : name ≠ lineKey)
    (lineless : (runsField runs name).isLineless = true) :
    runsText (unlinedEntries runs) name = runsText runs name := by
  rw [runsText, Value.get?_unlinedEntries_text other, runsText]
  unfold runsField at lineless
  cases found : Keyed.get? runs (.text name) with
  | none => rfl
  | some value =>
    rw [found] at lineless
    exact toText_unlined lineless

theorem allLineless_composite (steps : Value) :
    AllLineless (jobValues [(.text "steps", steps)]) ↔ AllLineless (stepsValues steps) := by
  rw [jobValues_composite, allLineless_append, allLineless_cons]
  simp [Value.isLineless]

theorem composite_unlined (path : String) {runs : Entries}
    (lineless : AllLineless (stepsValues (runsSteps runs)))
    (kept : AllLineless (stepsKept (runsSteps runs))) :
    job path "composite" 0 [(.text "steps", runsSteps (unlinedEntries runs))] =
      Job.unlined <$> job path "composite" 0 [(.text "steps", runsSteps runs)] := by
  have steps : runsSteps (unlinedEntries runs) = (runsSteps runs).unlined := by
    rw [runsSteps, Value.get?_unlinedEntries_text (by decide), runsSteps]
    cases Keyed.get? runs (.text "steps") <;> rfl
  have entries : [(.text "steps", (runsSteps runs).unlined)] =
      unlinedEntries [(.text "steps", runsSteps runs)] := by
    rw [Value.unlinedEntries_eq, List.map_cons, List.map_nil,
      Value.unlinedUnder_of_ne (by simp [lineKey])]
  rw [steps, entries, job_unlined _ _ _ ((allLineless_composite _).mpr lineless) kept]

theorem actionJobs_unlined (path : String) {raw : Entries}
    (lineless : AllLineless (actionValues raw))
    (kept : AllLineless (actionKept raw)) :
    actionJobs path (unlinedEntries raw) = Jobs.unlined <$> actionJobs path raw := by
  have steps := (allLineless_cons.mp kept).2
  unfold actionValues at lineless
  unfold actionJobs
  rw [field_unlinedEntries (by decide)]
  cases found : Value.field raw "runs" with
  | map runs =>
    rw [found] at lineless steps
    obtain ⟨kindLineless, values⟩ := allLineless_cons.mp lineless
    have kindSame : runsText (unlinedEntries runs) "using" = runsText runs "using" :=
      runsText_unlined (by decide) kindLineless
    simp only [Value.unlined_map, kindSame, Field.line_unlined, map_bind]
    refine bind_congr_of_outcome fun kind taken => ?_
    have text : (runsField runs "using").toText = .ok kind := uncaught_eq_ok.mp taken
    rw [text] at values
    simp only [Except.toOption, Option.some.injEq] at values
    split
    · next composite =>
      rw [if_pos composite] at values
      have written := composite_unlined path values steps
      simp only [runsSteps] at written
      rw [written]
      simp only [bind_map_left, map_bind, map_pure]
      rfl
    · next notComposite =>
      rw [if_neg notComposite] at values
      split
      · next docker =>
        rw [if_pos docker, allLineless_cons] at values
        rw [runsText_unlined (by decide) values.1]
        simp only [map_bind, map_pure]
        refine congrArg _ (funext fun image => congrArg pure ?_)
        by_cases prefixed : Text.hasPrefix image "docker://" = true
        · rw [if_pos prefixed]
          rfl
        · rw [if_neg prefixed]
          rfl
      · rfl
  | _ => rfl

theorem actionMetadata_unlined (path : String) {raw : Entries}
    (lineless : AllLineless (actionValues raw)) (kept : AllLineless (actionKept raw)) :
    actionMetadata path (unlinedEntries raw) = Pipeline.unlined <$> actionMetadata path raw := by
  unfold actionMetadata
  rw [actionJobs_unlined path lineless kept, field_unlinedEntries (by decide),
    Value.unlined_of_isLineless _ (allLineless_cons.mp kept).1]
  simp only [bind_map_left, map_bind, map_pure]
  rfl

/-- There are no lines in the values of a document whose text is taken, nor in those that are kept:
the values of an action, or those of a workflow and of every file that it reaches. -/
def EntriesLineless (resolve : Resolver) (path : String) (raw : Entries) : Prop :=
  if isActionMetadata path then AllLineless (actionValues raw) ∧ AllLineless (actionKept raw)
  else IsLineless resolve ⟨[path], raw⟩

theorem normalize_sameUnder {first second : Resolver} (files : FilesAlike first second)
    {path : String} {content other : List UInt8} (alike : LoadAlike content other)
    (lineless : ∀ raw, entriesOf path content = .ok (some raw) → EntriesLineless first path raw)
    (linelessToo : ∀ raw, entriesOf path other = .ok (some raw) → EntriesLineless second path raw) :
    SameUnder Pipeline.unlined (normalize first path content) (normalize second path other) := by
  rw [normalize_eq, normalize_eq]
  refine (openContent_sameUnder path alike).bindOption (.refl _ _)
    fun raw rawToo opens opensToo entries => ?_
  rw [outcome_openContent] at opens opensToo
  have here := lineless raw opens
  have there := linelessToo rawToo opensToo
  simp only [pipelineOf, EntriesLineless] at here there ⊢
  split at here
  · next action =>
    rw [if_pos action] at there ⊢
    rw [if_pos action]
    refine .of_read (actionMetadata_unlined path here.1 here.2) ?_
    rw [entries]
    exact actionMetadata_unlined path there.1 there.2
  · next workflow =>
    rw [if_neg workflow] at there ⊢
    rw [if_neg workflow]
    exact workflow_sameUnder files entries here there path

end SupplyLint.Github
