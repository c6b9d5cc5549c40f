import SupplyLint.Proofs.Gitlab.ChildFiles
import SupplyLint.Proofs.Gitlab.Configuration
import SupplyLint.Proofs.Gitlab.Extends
import SupplyLint.Proofs.Gitlab.Includes

/-! # Which configurations can be read

As with workflows, the reading of a configuration takes the text of certain
values and opens files. It gives a pipeline exactly when this goes well for the
configuration, for what it includes, and for every child pipeline that is
started below it. -/
set_option autoImplicit false

namespace SupplyLint.Gitlab

open SupplyLint.Text
open SupplyLint.Value (AllShort allShort_append allShort_nil allShort_singleton)

/-! ## Values of a job -/

def sectionValues (raw : Value) : List Value :=
  (writtenLines raw).filter (!·.isNull)

def stepsValues (raw defaults : Entries) : List Value :=
  sectionValues (setting raw defaults "before_script") ++ sectionValues
    (Value.field raw "script") ++
    sectionValues (setting raw defaults "after_script")

def needsValues (raw : Value) : List Value :=
  if !raw.present then []
  else match raw with
    | .list items => (items.map needName).filter (!·.isNull)
    | _ => Field.written raw

def onlyValues : Value → List Value
  | .map entries => Field.written (Value.field entries "refs")
  | raw => Field.written raw

def triggerValues (raw : Entries) : List Value :=
  match Keyed.get? raw (.text "trigger") with
  | some (.map entries) =>
    if Value.hasField entries "project" then [Value.field entries "project"] else []
  | _ => []

def jobValues (raw defaults : Entries) : List Value :=
  stepsValues raw defaults ++ needsValues (Value.field raw "needs") ++
    Field.written (setting raw defaults "tags") ++ Field.names (Value.field raw "variables")

theorem returns_variablesOf (raw : Value) :
    Returns (variablesOf raw) ↔ AllShort (Field.names raw) := by
  rw [variablesOf, returns_bind_pure, returns_mapM, AllShort, Field.names, Keyed.keys,
    List.forall_mem_map]
  refine forall₂_congr fun entry _ => ?_
  rw [returns_bind_pure, Value.returns_toText]

theorem returns_steps (raw defaults : Entries) :
    Returns (steps raw defaults) ↔ AllShort (stepsValues raw defaults) := by
  have lines (name : String) (value : Value) : Returns (scriptLines value >>= fun lines =>
      (pure (lines.zipIdx.map fun line => (name ++ "[" ++ toString line.2 ++ "]", line.1)) :
        Except Fault (List (String × String)))) ↔ AllShort (sectionValues value) := by
    rw [returns_bind_pure, scriptLines, Value.returns_toTexts, sectionValues]
  rw [steps, returns_bind_pure, namedLines, returns_bind_pure, returns_mapM, stepsValues,
    allShort_append, allShort_append]
  simp only [List.forall_mem_cons, lines, List.not_mem_nil, false_implies, implies_true, and_true,
    and_assoc]

theorem returns_needs (path name : String) (raw : Value) :
    Returns (outcome (needs path name raw)) ↔ AllShort (needsValues raw) := by
  unfold needs needsValues
  split
  · exact iff_of_true (returns_ok _) allShort_nil
  · cases raw with
    | list items =>
      rw [outcome_fault, returns_uncaught]
      exact Value.returns_toTexts _
    | _ =>
      rw [outcome_bind, outcome_noted, ok_bind, outcome_fault, returns_uncaught]
      exact Field.returns_texts _

theorem returns_job (path name : String) (index : Nat) (raw defaults : Entries) :
    Returns (outcome (job path name index raw defaults)) ↔ AllShort (jobValues raw defaults) := by
  simp only [jobValues, allShort_append]
  rw [← returns_steps, ← returns_needs path name, ← Field.returns_texts, ← returns_variablesOf,
    ← returns_uncaught (steps _ _), ← returns_uncaught (Field.texts _),
    ← returns_uncaught (variablesOf _), and_assoc, and_assoc]
  unfold job
  dsimp only
  split
  · simp only [outcome_bind, outcome_noted, outcome_fault, outcome_pure, ok_bind]
    exact returns_bind_iff fun _ _ => returns_bind_iff fun _ _ => returns_bind_iff fun _ _ =>
      returns_bind_of_forall fun _ _ => returns_ok _
  · simp only [outcome_bind, outcome_fault, outcome_pure]
    exact returns_bind_iff fun _ _ => returns_bind_iff fun _ _ => returns_bind_iff fun _ _ =>
      returns_bind_of_forall fun _ _ => returns_ok _

theorem returns_onlySources (only : Value) :
    Returns (onlySources only) ↔ AllShort (onlyValues only) := by
  cases only with
  | map entries => exact (returns_bind_pure _ _).trans (Field.returns_texts _)
  | _ => exact (returns_bind_pure _ _).trans (Field.returns_texts _)

theorem returns_downstream {raw : Entries} {trigger : Value}
    (found : Keyed.get? raw (.text "trigger") = some trigger) :
    Returns (Downstream.ofValue trigger) ↔ AllShort (triggerValues raw) := by
  rw [triggerValues, found]
  cases trigger with
  | map entries =>
    simp only [Downstream.ofValue]
    split
    · rw [returns_bind_pure, Value.returns_toText, allShort_singleton]
    · refine iff_of_true ?_ allShort_nil
      split
      · exact returns_ok _
      · exact returns_ok _
  | _ => exact iff_of_true (returns_ok _) allShort_nil

/-! ## Files of child pipelines -/

/-- The files of a child pipeline can be read: those that it includes, and those that these
include. -/
def FilesReadable (resolve : Resolver) (chain : List String) (includes : Value) : Prop :=
  ∀ file, Relation.ReflTransGen (Opens Includes (opened resolve))
    ⟨chain, [(.text "include", includes)]⟩ file → IncludesReadable resolve file

def FilesKeyed (resolve : Resolver) (chain : List String) (path : String)
    (includes : Value) : Prop :=
  ∀ item ∈ includes.asList, ∀ written, Include.ofValue item = .ok (.file written) →
    ∀ file, outcome (enter resolve path chain written) = .ok (some file) →
      AllShort (Field.names (.map file.entries))

theorem returns_add (files : ChildFiles) (target : String) (file : Merged) :
    Returns (files.add target file) ↔ AllShort (Field.names (.map file.entries)) := by
  rw [ChildFiles.add, returns_bind_pure]
  exact Value.returns_toTexts _

theorem returns_childFiles (enter : String → Normalizing (Option Merged)) (path location : String)
    (items : List Value) (files : ChildFiles) :
    Returns (outcome (childFiles enter path location items files)) ↔
      ∀ item ∈ items, AllShort (includeValues item) ∧
        ∀ written, Include.ofValue item = .ok (.file written) →
          Returns (outcome (enter (stripped written))) ∧
          ∀ file, outcome (enter (stripped written)) = .ok (some file) →
            AllShort (Field.names (.map file.entries)) := by
  induction items generalizing files with
  | nil => exact iff_of_true (returns_ok _) (by simp)
  | cons item rest ih =>
    rw [List.forall_mem_cons, ← returns_ofValue, ← returns_uncaught, and_assoc]
    simp only [childFiles, outcome_bind, outcome_fault]
    refine returns_bind_iff fun what found => ?_
    rw [uncaught_eq_ok.mp found]
    cases what with
    | file written =>
      simp only [outcome_bind, Except.ok.injEq, Include.file.injEq, forall_eq']
      rw [and_assoc]
      refine returns_bind_iff fun entered opens => ?_
      have same : outcome (enter (stripped written)) = .ok entered := opens
      simp only [same, Except.ok.injEq]
      cases entered with
      | none => simpa using ih files
      | some file =>
        simp only [Option.some.injEq, forall_eq', outcome_bind, outcome_fault]
        rw [← returns_add files (stripped written) file, ← returns_uncaught]
        exact returns_bind_iff fun more _ => ih more
    | package ref => simpa using ih _
    | elsewhere what =>
      rw [outcome_bind, elsewhereInclude, outcome_noted]
      simpa using ih files
    | malformed =>
      rw [outcome_bind, malformedInclude, outcome_noted]
      simpa using ih files

theorem returns_openedFiles (resolve : Resolver) (chain : List String) (path caller : String)
    (includes : Value) :
    Returns (openedFiles resolve chain path caller includes) ↔
      FilesReadable resolve chain includes ∧ FilesKeyed resolve chain path includes := by
  have field : Value.field [(.text "include", includes)] "include" = includes := rfl
  have listed : (∀ item ∈ includeItems [(.text "include", includes)],
      ItemReads (enter resolve path chain) item) ↔
        ∀ item ∈ includes.asList, ItemReads (enter resolve path chain) item := by
    unfold includeItems
    rw [field]
    cases includes with
    | null =>
      have nothing : ItemReads (enter resolve path chain) .null :=
        ⟨allShort_nil, fun written found => by cases found⟩
      simpa [Value.asList] using nothing
    | _ => rfl
  have merges : FilesReadable resolve chain includes ↔
      ∀ item ∈ includes.asList, ItemReads (enter resolve path chain) item := by
    have whole := returns_merge resolve path ⟨chain, [(.text "include", includes)]⟩
    have same : enterWith resolve path
        (mergingWithin resolve path (maxFiles - chain.length)) chain =
        enter resolve path chain := funext fun written => (enter_eq resolve path chain written).symm
    rw [merge_eq, returns_mergeWith, same] at whole
    exact whole.symm.trans listed
  have again (written : String) :
      enter resolve path chain (stripped written) = enter resolve path chain written := by
    rw [enter_eq, enter_eq, enterWith_stripped]
  rw [openedFiles, returns_childFiles, merges]
  simp only [again]
  constructor
  · intro all
    exact ⟨fun item member => ⟨(all item member).1, fun written found =>
        ((all item member).2 written found).1⟩,
      fun item member written found => ((all item member).2 written found).2⟩
  · rintro ⟨reads, keyed⟩ item member
    exact ⟨(reads item member).1, fun written found =>
      ⟨(reads item member).2 written found, keyed item member written found⟩⟩

/-! ## Configurations and the child pipelines below them -/

/-- A configuration whose jobs are read, with the files through which it is reached and the file
that first has each key. -/
structure Layer where
  chain : List String
  path : String
  origins : Keyed String String
  entries : Entries

def childLayer (chain : List String) (files : ChildFiles) : Option Layer :=
  match files.origins with
  | [] => none
  | (_, first) :: _ =>
    some ⟨chain ++ originFiles files.origins, first, files.origins, files.entries⟩

theorem childLayer_of_origins (chain : List String) {files : ChildFiles} {key first : String}
    {rest : Keyed String String} (origins : files.origins = (key, first) :: rest) :
    childLayer chain files =
      some ⟨chain ++ originFiles files.origins, first, files.origins, files.entries⟩ := by
  unfold childLayer
  rw [origins]

theorem exists_origin_of_childLayer {chain : List String} {files : ChildFiles} {child : Layer}
    (made : childLayer chain files = some child) :
    ∃ key first rest, files.origins = (key, first) :: rest ∧
      child = ⟨chain ++ originFiles files.origins, first, files.origins, files.entries⟩ := by
  cases origins : files.origins with
  | nil =>
    unfold childLayer at made
    rw [origins] at made
    cases made
  | cons origin rest =>
    rw [childLayer_of_origins chain origins, origins] at made
    exact ⟨origin.1, origin.2, rest, rfl, (Option.some.inj made).symm⟩

def Starts (raw : Entries) (includes : Value) : Prop :=
  ∃ trigger, Keyed.get? raw (.text "trigger") = some trigger ∧
    Downstream.ofValue trigger = .ok (.child includes)

namespace Layer

def jobPath (layer : Layer) (name : String) : String :=
  (layer.origins.get? name).getD layer.path

/-- A mapping of a configuration that is read as a job. -/
def Names (layer : Layer) (jobs : RawJobs) (name : String) : Prop :=
  rawJobsOf layer.entries = .ok jobs ∧ ¬ isHidden name = true ∧
    ∃ entries, (name, .map entries) ∈ jobs

/-- A job of a configuration and what it is with the jobs that it extends. -/
def HasJob (layer : Layer) (name : String) (raw : Entries) : Prop :=
  ∃ jobs, layer.Names jobs name ∧
    outcome (resolveExtends jobs (layer.jobPath name) name) = .ok raw

/-- A child pipeline that a job of a configuration starts. -/
def Triggers (resolve : Resolver) (layer child : Layer) : Prop :=
  ∃ name raw includes files, layer.HasJob name raw ∧ Starts raw includes ∧
    openedFiles resolve layer.chain layer.path name includes = .ok files ∧
    childLayer layer.chain files = some child

/-- What keeps no job of a configuration from being read, nor the files that it triggers. -/
structure IsReadable (resolve : Resolver) (layer : Layer) : Prop where
  names : AllShort (Field.names (.map layer.entries))
  bases : ∀ jobs name, layer.Names jobs name →
    ∀ base, Relation.ReflTransGen (Extends jobs) name base → NamesBases jobs base
  values : ∀ name raw, layer.HasJob name raw →
    AllShort (jobValues raw (defaultsOf layer.entries) ++ onlyValues (Value.field raw "only") ++
      triggerValues raw)
  files : ∀ name raw includes, layer.HasJob name raw → Starts raw includes →
    FilesReadable resolve layer.chain includes ∧
      FilesKeyed resolve layer.chain layer.path includes
  shared : ∀ child, Triggers resolve layer child →
    AllShort (Field.names (Value.field child.entries "variables"))

end Layer

theorem Layer.HasJob.unique {layer : Layer} {name : String} {raw other : Entries}
    (hasJob : layer.HasJob name raw) (again : layer.HasJob name other) : raw = other := by
  obtain ⟨jobs, ⟨named, -⟩, extended⟩ := hasJob
  obtain ⟨_, ⟨same, -⟩, extendedAgain⟩ := again
  obtain rfl := Except.ok.inj (named.symm.trans same)
  exact Except.ok.inj (extended.symm.trans extendedAgain)

theorem Starts.unique {raw : Entries} {includes other : Value} (starts : Starts raw includes)
    (again : Starts raw other) : includes = other := by
  obtain ⟨trigger, found, starts⟩ := starts
  obtain ⟨_, foundToo, startsToo⟩ := again
  obtain rfl := Option.some.inj (found.symm.trans foundToo)
  exact Downstream.child.inj (Except.ok.inj (starts.symm.trans startsToo))

section AddJob
variable {resolve : Resolver} {parse : Option Parsing} {chain : List String}
variable {path jobPath : String} {written : Job} {raw : Entries} {gathered result : Gathered}

theorem addJob_of_starts {includes : Value} (starts : Starts raw includes) :
    addJob resolve parse chain path jobPath written raw gathered =
      inlineChild resolve parse chain path written.name includes (withJob written gathered) := by
  obtain ⟨trigger, found, starts⟩ := starts
  unfold addJob
  rw [found]
  dsimp only
  rw [starts]
  rfl

theorem addJob_of_childless (childless : ∀ includes, ¬ Starts raw includes)
    (read : outcome (addJob resolve parse chain path jobPath written raw gathered) = .ok result) :
    ∃ job, result = withJob job gathered := by
  rcases addJob_eq_ok read with ⟨-, rfl⟩ | ⟨trigger, downstream, found, starts, read⟩
  · exact ⟨_, rfl⟩
  · cases downstream with
    | project ref => exact ⟨_, read⟩
    | malformed reason => exact ⟨_, read⟩
    | child includes => exact absurd ⟨trigger, found, starts⟩ (childless includes)

end AddJob

def ChildReads (resolve : Resolver) (parse : Option Parsing) (chain : List String)
    (path caller : String) (includes : Value) : Prop :=
  Returns (openedFiles resolve chain path caller includes) ∧
    ∀ files, openedFiles resolve chain path caller includes = .ok files →
      ∀ child, childLayer chain files = some child → ∀ read, parse = some read →
        AllShort (Field.names (Value.field child.entries "variables")) ∧
          Returns (outcome (read child.chain child.path child.origins child.entries))

section Jobs
variable {resolve : Resolver} {parse : Option Parsing} {chain : List String}
variable {path jobPath : String}

theorem returns_inlineChild (caller : String) (includes : Value) (gathered : Gathered) :
    Returns (outcome (inlineChild resolve parse chain path caller includes gathered)) ↔
      ChildReads resolve parse chain path caller includes := by
  have opens : outcome (childFiles (enter resolve path chain) path (caller ++ ".trigger.include")
      includes.asList {}) = openedFiles resolve chain path caller includes := rfl
  unfold ChildReads inlineChild
  rw [outcome_bind, opens]
  refine returns_bind_iff fun files found => ?_
  rw [found]
  simp only [Except.ok.injEq, forall_eq']
  cases parse with
  | none => simp
  | some read =>
    unfold childLayer
    cases files.origins with
    | nil => simp
    | cons origin rest =>
      simp only [Option.some.injEq, forall_eq', outcome_bind, outcome_fault, outcome_noted, ok_bind,
        outcome_pure]
      rw [← returns_variablesOf, ← returns_uncaught]
      exact returns_bind_iff fun _ _ => returns_bind_of_forall fun _ _ => returns_ok _

theorem returns_addJob (written : Job) (raw : Entries) (gathered : Gathered) :
    Returns (outcome (addJob resolve parse chain path jobPath written raw gathered)) ↔
      AllShort (triggerValues raw) ∧
        ∀ includes, Starts raw includes →
          ChildReads resolve parse chain path written.name includes := by
  unfold addJob
  cases found : Keyed.get? raw (.text "trigger") with
  | none =>
    refine iff_of_true (returns_ok _) ⟨?_, ?_⟩
    · rw [triggerValues, found]
      exact allShort_nil
    · rintro includes ⟨trigger, same, -⟩
      rw [found] at same
      cases same
  | some trigger =>
    have starts (includes : Value) : Starts raw includes ↔
        Downstream.ofValue trigger = .ok (.child includes) := by
      simp [Starts, found]
    simp only [outcome_bind, outcome_fault, starts]
    rw [← returns_downstream found, ← returns_uncaught]
    refine returns_bind_iff fun downstream same => ?_
    rw [uncaught_eq_ok.mp same]
    cases downstream with
    | project ref => simp
    | malformed reason => simp
    | child includes =>
      simp only [Except.ok.injEq, Downstream.child.injEq, forall_eq']
      exact returns_inlineChild _ _ _

variable {origins : Keyed String String} {defaults : Entries} {all : RawJobs}

def JobReads (resolve : Resolver) (parse : Option Parsing) (chain : List String)
    (path jobPath : String) (defaults : Entries) (all : RawJobs) (name : String) : Prop :=
  Returns (outcome (resolveExtends all jobPath name)) ∧
    ∀ raw, outcome (resolveExtends all jobPath name) = .ok raw →
      AllShort (jobValues raw defaults ++ onlyValues
        (Value.field raw "only") ++ triggerValues raw) ∧
        ∀ includes, Starts raw includes → ChildReads resolve parse chain path name includes

theorem forall_isJob_cons {reads : String → Prop} {name : String} {value : Value} {rest : RawJobs} :
    (∀ other, ¬ isHidden other = true → (∃ raw, (other, .map raw) ∈ (name, value) :: rest) →
        reads other) ↔
      (¬ isHidden name = true → (∃ raw, value = .map raw) → reads name) ∧
        ∀ other, ¬ isHidden other = true → (∃ raw, (other, .map raw) ∈ rest) → reads other := by
  constructor
  · intro all
    refine ⟨?_, fun other visible ⟨raw, member⟩ =>
      all other visible ⟨raw, List.mem_cons_of_mem _ member⟩⟩
    rintro visible ⟨raw, rfl⟩
    exact all name visible ⟨raw, List.mem_cons_self⟩
  · rintro ⟨first, others⟩ other visible ⟨raw, member⟩
    rcases List.mem_cons.mp member with same | later
    · cases same
      exact first visible ⟨raw, rfl⟩
    · exact others other visible ⟨raw, later⟩

theorem returns_addJobs_job {name : String} {entries : Entries} {rest : RawJobs} {later : Prop}
    (visible : ¬ isHidden name = true) (gathered : Gathered)
    (others : ∀ reached, Returns (outcome
      (addJobs resolve parse chain path origins defaults all rest reached)) ↔ later) :
    Returns (outcome (addJobs resolve parse chain path origins defaults all
      ((name, .map entries) :: rest) gathered)) ↔
      JobReads resolve parse chain path ((origins.get? name).getD path) defaults all name ∧
        later := by
  rw [addJobs, if_neg visible]
  simp only [outcome_bind, outcome_fault]
  have job (raw : Entries) : Returns (outcome (job ((origins.get? name).getD path) name
      gathered.jobs.length raw defaults) >>= fun written =>
        uncaught (onlySources (Value.field raw "only")) >>= fun kept =>
        outcome (addJob resolve parse chain path ((origins.get? name).getD path) written raw
          (withSources raw kept gathered)) >>= fun reached =>
        outcome (addJobs resolve parse chain path origins defaults all rest reached)) ↔
      (AllShort (jobValues raw defaults ++ onlyValues (Value.field raw "only") ++
          triggerValues raw) ∧
        ∀ includes, Starts raw includes → ChildReads resolve parse chain path name includes) ∧
        later := by
    rw [allShort_append, allShort_append,
      ← returns_job ((origins.get? name).getD path) name gathered.jobs.length, and_assoc, and_assoc,
      and_assoc, ← returns_onlySources, ← returns_uncaught]
    refine returns_bind_iff fun written wrote => returns_bind_iff fun kept _ => ?_
    rw [returns_bind_iff fun reached _ => others reached, returns_addJob, (job_identity wrote).1,
      and_assoc]
  rw [JobReads, returns_bind_and]
  constructor
  · rintro ⟨⟨raw, extended⟩, all⟩
    exact ⟨⟨⟨raw, extended⟩, fun raw same => ((job raw).mp (all raw same)).1⟩,
      ((job raw).mp (all raw extended)).2⟩
  · rintro ⟨⟨returned, own⟩, last⟩
    exact ⟨returned, fun raw same => (job raw).mpr ⟨own raw same, last⟩⟩

theorem returns_addJobs (entries : RawJobs) (gathered : Gathered) :
    Returns (outcome (addJobs resolve parse chain path origins defaults all entries gathered)) ↔
      ∀ name, ¬ isHidden name = true → (∃ raw, (name, .map raw) ∈ entries) →
        JobReads resolve parse chain path ((origins.get? name).getD path) defaults all name := by
  induction entries generalizing gathered with
  | nil => exact iff_of_true (returns_ok _) (by simp)
  | cons entry rest ih =>
    obtain ⟨name, value⟩ := entry
    rw [forall_isJob_cons]
    by_cases hidden : isHidden name = true
    · rw [addJobs, if_pos hidden, ih, iff_and_self]
      exact fun _ visible => absurd hidden visible
    · by_cases isJob : ∃ entries, value = .map entries
      · obtain ⟨entries, rfl⟩ := isJob
        rw [returns_addJobs_job hidden gathered ih]
        simp [hidden]
      · have skipped : outcome (addJobs resolve parse chain path origins defaults all
            ((name, value) :: rest) gathered) =
              outcome (addJobs resolve parse chain path origins defaults all rest gathered) := by
          rw [addJobs, if_neg hidden]
          cases value with
          | map entries => exact absurd ⟨entries, rfl⟩ isJob
          | _ => rfl
        rw [skipped, ih, iff_and_self]
        exact fun _ _ some => absurd some isJob

theorem nodup_rawJobsOf {raw : Entries} {jobs : RawJobs} (found : rawJobsOf raw = .ok jobs) :
    (Keyed.keys jobs).Nodup := by
  simp only [rawJobsOf, bind_eq_ok, pure_eq_ok, Field.byText] at found
  obtain ⟨entries, ⟨pairs, -, rfl⟩, rfl⟩ := found
  exact (Keyed.nodup_keys_ofPairs pairs).sublist (List.filter_sublist.map _)

theorem returns_rawJobsOf (raw : Entries) :
    Returns (rawJobsOf raw) ↔ AllShort (Field.names (.map raw)) := by
  rw [rawJobsOf, returns_bind_pure, Field.returns_byText]

theorem Layer.Names.isJob {layer : Layer} {jobs : RawJobs} {name : String}
    (names : layer.Names jobs name) : (rawJob jobs name).isSome := by
  obtain ⟨found, -, entries, member⟩ := names
  have here := (Keyed.get?_eq_some_iff (nodup_rawJobsOf found)).mpr member
  rw [rawJob, here]
  rfl

def ReadsChildren (resolve : Resolver) (parse : Option Parsing) (layer : Layer)
    (childReads : Layer → Prop) : Prop :=
  ∀ child, layer.Triggers resolve child → ∃ read, parse = some read ∧
    (Returns (outcome (read child.chain child.path child.origins child.entries)) ↔ childReads child)

section Layer
variable {layer : Layer} {childReads : Layer → Prop}

theorem isReadable_of_jobReads (below : ReadsChildren resolve parse layer childReads)
    (names : AllShort (Field.names (.map layer.entries)))
    (reads : ∀ jobs name, layer.Names jobs name → JobReads resolve parse layer.chain layer.path
      (layer.jobPath name) (defaultsOf layer.entries) jobs name) :
    layer.IsReadable resolve ∧ ∀ child, layer.Triggers resolve child → childReads child := by
  have own (name : String) (raw : Entries) (hasJob : layer.HasJob name raw) :
      AllShort (jobValues raw (defaultsOf layer.entries) ++
        onlyValues (Value.field raw "only") ++ triggerValues raw) ∧
      ∀ includes, Starts raw includes →
        ChildReads resolve parse layer.chain layer.path name includes := by
    obtain ⟨jobs, named, extended⟩ := hasJob
    exact (reads jobs name named).2 raw extended
  have started (child : Layer) (triggers : layer.Triggers resolve child) :
      AllShort (Field.names (Value.field child.entries "variables")) ∧ childReads child := by
    obtain ⟨read, parses, agrees⟩ := below child triggers
    obtain ⟨name, raw, includes, files, hasJob, starts, opens, made⟩ := triggers
    have whole := ((own name raw hasJob).2 includes starts).2 files opens child made read parses
    exact ⟨whole.1, agrees.mp whole.2⟩
  refine ⟨⟨names, ?_, ?_, ?_, ?_⟩, fun child triggers => (started child triggers).2⟩
  · intro jobs name named
    exact (returns_resolveExtends named.isJob).mp (reads jobs name named).1
  · intro name raw hasJob
    exact (own name raw hasJob).1
  · intro name raw includes hasJob starts
    exact (returns_openedFiles _ _ _ _ _).mp ((own name raw hasJob).2 includes starts).1
  · intro child triggers
    exact (started child triggers).1

theorem jobReads_of_isReadable (below : ReadsChildren resolve parse layer childReads)
    (readable : layer.IsReadable resolve)
    (later : ∀ child, layer.Triggers resolve child → childReads child) {jobs : RawJobs}
    {name : String} (named : layer.Names jobs name) :
    JobReads resolve parse layer.chain layer.path (layer.jobPath name) (defaultsOf layer.entries)
      jobs name := by
  refine ⟨(returns_resolveExtends named.isJob).mpr (readable.bases jobs name named), ?_⟩
  intro raw extended
  have hasJob : layer.HasJob name raw := ⟨jobs, named, extended⟩
  refine ⟨readable.values name raw hasJob, fun includes starts => ?_⟩
  refine ⟨(returns_openedFiles _ _ _ _ _).mpr (readable.files name raw includes hasJob starts), ?_⟩
  intro files opens child made read parses
  have triggers : layer.Triggers resolve child :=
    ⟨name, raw, includes, files, hasJob, starts, opens, made⟩
  obtain ⟨other, same, reads⟩ := below child triggers
  obtain rfl := Option.some.inj (parses.symm.trans same)
  exact ⟨readable.shared child triggers, reads.mpr (later child triggers)⟩

theorem returns_gatherWith (below : ReadsChildren resolve parse layer childReads) :
    Returns (outcome
      (gatherWith resolve parse layer.chain layer.path layer.origins layer.entries)) ↔
      layer.IsReadable resolve ∧ ∀ child, layer.Triggers resolve child → childReads child := by
  simp only [gatherWith, outcome_bind, outcome_fault]
  rw [returns_bind]
  simp only [returns_addJobs, uncaught_eq_ok]
  constructor
  · rintro ⟨jobs, found, reads⟩
    refine isReadable_of_jobReads below ((returns_rawJobsOf _).mp ⟨jobs, found⟩) ?_
    -- The jobs are read off the entries once, so whatever jobs are named are these.
    rintro others name ⟨same, visible, isJob⟩
    obtain rfl := Except.ok.inj (found.symm.trans same)
    exact reads name visible isJob
  · rintro ⟨readable, later⟩
    obtain ⟨jobs, found⟩ := (returns_rawJobsOf _).mpr readable.names
    refine ⟨jobs, found, fun name visible isJob => ?_⟩
    exact jobReads_of_isReadable below readable later ⟨found, visible, isJob⟩

end Layer

end Jobs

theorem childFiles_origins {enter : String → Normalizing (Option Merged)}
    (never : ∀ target, outcome (enter target) = .ok none) {path location : String}
    {items : List Value} {files result : ChildFiles}
    (read : outcome (childFiles enter path location items files) = .ok result) :
    result.origins = files.origins := by
  refine childFiles_holds (fun reached => reached.origins = files.origins) items ?_ rfl read
  intro item _ before more takes same
  cases takes with
  | file names opens added => cases (never _).symm.trans opens
  | package names => exact same
  | nothing => exact same

theorem length_originFiles_pos {origins : Keyed String String} (some : origins ≠ []) :
    0 < (originFiles origins).length := by
  obtain ⟨origin, rest, rfl⟩ := List.exists_cons_of_ne_nil some
  have first : origin.2 ∈ firsts (Keyed.values (origin :: rest)) :=
    mem_firsts.mpr List.mem_cons_self
  rw [originFiles, List.length_mergeSort]
  exact List.length_pos_of_mem first

theorem Layer.Triggers.length {resolve : Resolver} {layer child : Layer}
    (triggers : layer.Triggers resolve child) :
    layer.chain.length < maxFiles ∧ layer.chain.length < child.chain.length := by
  obtain ⟨name, raw, includes, files, -, -, opens, made⟩ := triggers
  unfold childLayer at made
  cases origins : files.origins with
  | nil =>
    rw [origins] at made
    cases made
  | cons origin rest =>
    have some : files.origins ≠ [] := by simp [origins]
    have longer := length_originFiles_pos some
    rw [origins] at made longer
    obtain rfl := Option.some.inj made
    refine ⟨?_, by rw [List.length_append]; omega⟩
    -- A chain of full length has no room for the first of the files.
    by_contra full
    apply some
    refine childFiles_origins (fun target => ?_) opens
    rw [enter_eq, Nat.sub_eq_zero_of_le (by omega), mergingWithin, outcome_enterWith_none]

theorem returns_gather (resolve : Resolver) (levels : Nat) (layer : Layer)
    (enough : maxFiles < levels + layer.chain.length) :
    Returns (outcome (gather resolve levels layer.chain layer.path layer.origins layer.entries)) ↔
      ∀ next, Relation.ReflTransGen (Layer.Triggers resolve) layer next →
        next.IsReadable resolve := by
  induction levels generalizing layer with
  | zero =>
    rw [forall_reached_iff]
    apply returns_gatherWith
    intro child triggers
    have short := triggers.length.1
    omega
  | succ levels ih =>
    rw [forall_reached_iff]
    apply returns_gatherWith
    intro child triggers
    have longer := triggers.length.2
    exact ⟨gather resolve levels, rfl, ih child (by omega)⟩

/-- The entries of a configuration can be read: what it includes, and with that its variables and
its jobs, down to the last child pipeline. -/
def EntriesReadable (resolve : Resolver) (path : String) (raw : Entries) : Prop :=
  (∀ file, Relation.ReflTransGen (Opens Includes (opened resolve)) ⟨[path], raw⟩ file →
      IncludesReadable resolve file) ∧
    ∀ merged, outcome (merge resolve path (maxFiles - 1) [path] raw) = .ok merged →
      AllShort (Field.names (Value.field merged.entries "variables")) ∧
        ∀ layer, Relation.ReflTransGen (Layer.Triggers resolve)
            ⟨[path], path, [], merged.entries⟩ layer → layer.IsReadable resolve

def pipelineOf (resolve : Resolver) (path : String) (raw : Entries) : Normalizing Pipeline := do
  let merged ← merge resolve path (maxFiles - 1) [path] raw
  let env ← variablesOf (Value.field merged.entries "variables")
  let gathered ← gather resolve maxFiles [path] path [] merged.entries
  let started ← triggers path gathered.sources
  let jobs ← Needs.validate gathered.jobs path
  return {
    platform := .gitlab
    path := path
    triggers := started
    jobs := jobs
    env := env
    includes := merged.references ++ gathered.references }

theorem returns_pipelineOf (resolve : Resolver) (path : String) (raw : Entries) :
    Returns (outcome (pipelineOf resolve path raw)) ↔ EntriesReadable resolve path raw := by
  have included := returns_merge resolve path ⟨[path], raw⟩
  have levels (merged : Merged) := returns_gather resolve maxFiles
      ⟨[path], path, [], merged.entries⟩
    (Nat.lt_succ_self maxFiles)
  unfold pipelineOf EntriesReadable
  rw [outcome_bind, returns_bind_and]
  refine and_congr included (forall₂_congr fun merged _ => ?_)
  rw [← returns_variablesOf, ← levels merged, ← returns_uncaught]
  simp only [outcome_bind, outcome_fault, outcome_noted, ok_bind, outcome_pure]
  exact returns_bind_iff fun _ _ => returns_bind_of_forall fun _ _ => returns_ok _

theorem returns_normalize (resolve : Resolver) (path : String) (content : List UInt8) :
    Returns (outcome (normalize resolve path content)) ↔
      Loads content ∧
        ∀ raw, outcome (configuration path content) = .ok (some raw) →
          EntriesReadable resolve path raw := by
  rw [normalize, outcome_bind, returns_bind_and, returns_configuration]
  refine and_congr_right fun _ => ?_
  constructor
  · intro all raw loaded
    have read := all (some raw) loaded
    exact (returns_pipelineOf resolve path raw).mp read
  · intro readable found loaded
    cases found with
    | none => exact returns_ok _
    | some raw => exact (returns_pipelineOf resolve path raw).mpr (readable raw loaded)

end SupplyLint.Gitlab
