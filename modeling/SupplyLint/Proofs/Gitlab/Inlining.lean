import SupplyLint.Proofs.Gitlab.Chains
import SupplyLint.Proofs.Gitlab.ChildFiles
import SupplyLint.Proofs.Gitlab.JobNames
import SupplyLint.Proofs.Gitlab.Includes
import SupplyLint.Proofs.Gitlab.Origins
import SupplyLint.Proofs.Inlined
import SupplyLint.Proofs.Source

/-! # Child pipelines agree with the configurations that they are started from

`normalize_under`: where a job triggers one file and no other job stands under it,
the jobs under it are those of the pipeline of the file, and the packages that it
adds are those of the file. -/
set_option autoImplicit false

namespace SupplyLint.Gitlab

open SupplyLint.Jobs
open SupplyLint.Needs
open SupplyLint.Text

/-! ## A trigger and the file that it starts -/

/-- A file that a configuration starts without being refused, here or further on. -/
structure Startable (resolve : Resolver) (path target : String) (content : List UInt8) : Prop where
  found : resolve target = .ok (some content)
  plain : ¬ contains target "*" = true
  elsewhere : target ≠ path
  included : ∀ raw, outcome (configuration target content) = .ok (some raw) →
    NoneRefused resolve ⟨[path, target], raw⟩
  triggered : ∀ layer, TopLayer resolve target content layer →
    Layer.NoneRefused resolve { layer with chain := [path, target] }

abbrev gatherBelow (resolve : Resolver) : Option Parsing :=
  some (gather resolve (maxFiles - 1))

def wholeFile (resolve : Resolver) (target : String) (content : List UInt8) :
    Except Failure (Option Merged) := do
  match ← outcome (configuration target content) with
  | none => return none
  | some raw => some <$> outcome (merge resolve target (maxFiles - 1) [target] raw)

section Startable
variable {resolve : Resolver} {path target caller : String} {content : List UInt8}

theorem Startable.enter_eq (startable : Startable resolve path target content) {written : String}
    (names : stripped written = target) :
    outcome (enter resolve path [path] written) = wholeFile resolve target content := by
  have outside : target ∉ [path] := by simpa using startable.elsewhere
  have room : mergingWithin resolve path (maxFiles - [path].length) =
      some (merge resolve path (maxFiles - 2)) := rfl
  have opens : opened resolve target = outcome (configuration target content) := by
    rw [opened, startable.found]
    rfl
  rw [Gitlab.enter_eq, room, outcome_enterWith_some resolve path (names ▸ startable.plain)
    (names ▸ outside), names, opens, wholeFile]
  refine bind_congr_of_ok fun found loaded => ?_
  cases found with
  | none => rfl
  | some raw =>
    have shorter : [target] ⊆ [path, target] := List.subset_cons_self path [target]
    have same := outcome_merge_congr (startable.included raw loaded) shorter
        (Nat.le_succ 1) target path
    exact congrArg (some <$> ·) same.symm

theorem Startable.openedFiles_eq (startable : Startable resolve path target content)
    {includes item : Value} {written : String} (single : includes.asList = [item])
    (names : Include.ofValue item = .ok (.file written)) (isTarget : stripped written = target) :
    openedFiles resolve [path] path caller includes =
      wholeFile resolve target content >>= fun
        | none => .ok {}
        | some file => uncaught (ChildFiles.add {} target file) := by
  have again : stripped (stripped written) = target := by rw [stripped_stripped, isTarget]
  rw [openedFiles, single, outcome_childFiles_file _ _ names, startable.enter_eq again, isTarget]
  refine congrArg _ (funext fun found => ?_)
  cases found with
  | none => rfl
  | some file => exact bind_pure _

end Startable

/-- What is known of the files of a child pipeline of one file: all their keys are from it. -/
structure Single (target : String) (file : Merged) (files : ChildFiles) : Prop where
  entries : files.entries = file.entries
  references : files.references = file.references
  origins : ∀ origin ∈ files.origins, origin.2 = target
  keyless : files.origins = [] → Field.entries (.map file.entries) = []

theorem single_of_add {target : String} {file : Merged} {files : ChildFiles}
    (distinct : Keyed.Distinct file.entries)
    (added : ChildFiles.add {} target file = .ok files) : Single target file files := by
  obtain ⟨keys, texts, rfl⟩ := add_eq_ok added
  refine ⟨Field.merge_nil distinct, List.nil_append _, ?_, ?_⟩
  · intro origin member
    exact (mem_addOrigins keys member).resolve_left List.not_mem_nil
  · intro none
    have none : addOrigins target [] keys = [] := none
    have noKeys : keys = [] := by
      refine List.eq_nil_iff_forall_not_mem.mpr fun key member => ?_
      have known : key ∈ (addOrigins target [] keys).keys :=
        (mem_keys_addOrigins target keys).mpr (Or.inr member)
      rw [none] at known
      exact List.not_mem_nil known
    have same := (mapM_eq_ok.mp texts).length_eq
    rw [noKeys, List.length_nil, Field.names, Keyed.length_keys] at same
    exact List.length_eq_zero_iff.mp same

section Single
variable {target : String} {file : Merged} {files : ChildFiles}

theorem Single.originFiles (single : Single target file files) (some : files.origins ≠ []) :
    originFiles files.origins = [target] := by
  have values : ∀ path ∈ firsts files.origins.values, path = target := by
    intro path member
    obtain ⟨origin, inside, rfl⟩ := List.mem_map.mp (mem_firsts.mp member)
    exact single.origins origin inside
  have distinct : (firsts files.origins.values).Nodup :=
    nodup_foldl_addNew _ List.nodup_nil
  have nonempty : firsts files.origins.values ≠ [] := by
    obtain ⟨origin, rest, same⟩ := List.exists_cons_of_ne_nil some
    have member : origin.2 ∈ firsts files.origins.values := by
      rw [mem_firsts, same]
      exact List.mem_cons_self
    exact List.ne_nil_of_mem member
  have alone : firsts files.origins.values = [target] := by
    obtain ⟨path, rest, same⟩ := List.exists_cons_of_ne_nil nonempty
    rw [same] at values distinct ⊢
    obtain rfl := values path List.mem_cons_self
    rw [List.nodup_cons] at distinct
    have nothing : rest = [] := by
      refine List.eq_nil_iff_forall_not_mem.mpr fun other member => distinct.1 ?_
      rwa [values other (List.mem_cons_of_mem _ member)] at member
    rw [nothing]
  rw [Gitlab.originFiles, alone, List.mergeSort_singleton]

theorem Single.jobPath (single : Single target file files) (chain : List String) (name : String) :
    Layer.jobPath ⟨chain, target, files.origins, file.entries⟩ name = target := by
  unfold Layer.jobPath
  cases found : Keyed.get? files.origins name with
  | none => rfl
  | some path => exact single.origins _ (Keyed.mem_of_get?_eq_some found)

end Single

theorem field_of_keyless {entries : Entries} (keyless : Field.entries (.map entries) = [])
    {name : String} (other : name ≠ Yaml.lineKey) : Value.field entries name = .null := by
  have absent : ∀ entry ∈ entries, (entry.1 == Value.text name) = false := by
    intro entry member
    have isLine : (entry.1 == Value.text Yaml.lineKey) = true := by
      by_contra differs
      have kept : entry ∈ Field.entries (.map entries) :=
        List.mem_filter.mpr ⟨member, by simpa using differs⟩
      rw [keyless] at kept
      exact List.not_mem_nil kept
    rw [Value.beq_text_iff.mp isLine, Bool.eq_false_iff]
    intro same
    exact other (Value.text.inj (Value.beq_text_iff.mp same)).symm
  rw [Value.field, Keyed.get?_of_absent absent]
  rfl

theorem gather_of_keyless (resolve : Resolver) (levels : Nat) (chain : List String) (path : String)
    (origins : Keyed String String) {entries : Entries}
    (keyless : Field.entries (.map entries) = []) :
    outcome (gather resolve levels chain path origins entries) =
      .ok { sources := rulesSources (Value.field entries "workflow") } := by
  have noJobs : rawJobsOf entries = .ok [] := by
    rw [rawJobsOf, Field.byText, keyless]
    rfl
  have whole (parse : Option Parsing) :
      outcome (gatherWith resolve parse chain path origins entries) =
        .ok { sources := rulesSources (Value.field entries "workflow") } := by
    rw [gatherWith, outcome_bind, outcome_fault, noJobs]
    rfl
  cases levels with
  | zero => exact whole none
  | succ levels => exact whole _

/-! ## A trigger and the pipeline of its file -/

def withPipeline (caller : String) (own : Pipeline) (gathered : Gathered) : Gathered :=
  { gathered with
    jobs := (own.orderedJobs.map (adopted caller own.env)).foldl Jobs.place gathered.jobs
    references := gathered.references ++ own.includes }

theorem withPipeline_of_no_jobs {caller : String} {own : Pipeline} (noJobs : own.jobs = [])
    (gathered : Gathered) : withPipeline caller own gathered =
      { gathered with references := gathered.references ++ own.includes } := by
  have none : own.orderedJobs = [] := by
    rw [Pipeline.orderedJobs, noJobs]
    exact List.mergeSort_nil
  rw [withPipeline, none]
  rfl

section Trigger
variable {resolve : Resolver} {path target caller : String} {content : List UInt8}

theorem wholeFile_eq_ok {found : Option Merged}
    (read : wholeFile resolve target content = .ok found) :
    outcome (configuration target content) = .ok none ∧ found = none ∨
      ∃ raw merged, outcome (configuration target content) = .ok (some raw) ∧
        outcome (merge resolve target (maxFiles - 1) [target] raw) = .ok merged ∧
        found = some merged := by
  simp only [wholeFile, bind_eq_ok] at read
  obtain ⟨loaded, configured, read⟩ := read
  cases loaded with
  | none => exact Or.inl ⟨configured, (Except.ok.inj read).symm⟩
  | some raw =>
    obtain ⟨merged, included, rfl⟩ := map_eq_ok.mp read
    exact Or.inr ⟨raw, merged, configured, included, rfl⟩

theorem Startable.gather_eq (startable : Startable resolve path target content) {raw : Entries}
    {merged : Merged} {files : ChildFiles}
    (configured : outcome (configuration target content) = .ok (some raw))
    (included : outcome (merge resolve target (maxFiles - 1) [target] raw) = .ok merged)
    (single : Single target merged files) :
    outcome (gather resolve maxFiles [target] target [] merged.entries) =
      outcome (gather resolve (maxFiles - 1) [path, target] target
        files.origins merged.entries) := by
  have unrefused := startable.triggered _ ⟨raw, merged, configured, included, rfl⟩
  have alone : Layer.Shortens ⟨[target], target, [], merged.entries⟩
      ⟨[path, target], target, [], merged.entries⟩ :=
    ⟨rfl, rfl, fun _ => rfl, List.subset_cons_self path [target], Nat.le_succ 1⟩
  have started : Layer.Shortens ⟨[path, target], target, files.origins, merged.entries⟩
      ⟨[path, target], target, [], merged.entries⟩ :=
    ⟨rfl, rfl, single.jobPath _, List.Subset.refl _, Nat.le_refl _⟩
  have longer : maxFiles < maxFiles - 1 + 2 := by decide
  have first := outcome_gather_congr maxFiles (maxFiles - 1) alone unrefused
    (Nat.lt_succ_self maxFiles) longer
  have second := outcome_gather_congr (maxFiles - 1) (maxFiles - 1) started unrefused longer longer
  exact first.trans second.symm

theorem Startable.inlineChild_eq_ok (startable : Startable resolve path target content)
    {includes item : Value} {written : String} (single : includes.asList = [item])
    (names : Include.ofValue item = .ok (.file written)) (isTarget : stripped written = target)
    {gathered result : Gathered}
    (read : outcome (inlineChild resolve (gatherBelow resolve) [path] path caller includes
      gathered) = .ok result) :
    ∃ own, outcome (normalize resolve target content) = .ok own ∧
      result = withPipeline caller own gathered := by
  obtain ⟨files, opens, cases⟩ := Gitlab.inlineChild_eq_ok read
  rw [startable.openedFiles_eq single names isTarget, bind_eq_ok] at opens
  obtain ⟨found, whole, opens⟩ := opens
  rcases wholeFile_eq_ok whole with ⟨configured, rfl⟩ | ⟨raw, merged, configured, included, rfl⟩
  · obtain rfl := Except.ok.inj opens
    refine ⟨_, normalize_eq_ok_iff.mpr (Or.inl ⟨configured, rfl⟩), ?_⟩
    rcases cases with ⟨-, rfl⟩ | ⟨_, _, _, _, _, _, -, origins, -⟩
    · have none : ({ platform := .gitlab, path := target } : Pipeline).jobs = [] := rfl
      exact (withPipeline_of_no_jobs none gathered).symm
    · cases origins
  · have distinct := (isMappingOf_configuration configured).holds.distinct
    have one := single_of_add (distinct_of_merge distinct included) (uncaught_eq_ok.mp opens)
    -- Files without keys start no child pipeline; the pipeline of such a file has no jobs.
    by_cases some : files.origins = []
    · have keyless := one.keyless some
      have shared : variablesOf (Value.field merged.entries "variables") = .ok [] := by
        rw [field_of_keyless keyless (by decide)]
        rfl
      refine ⟨_, normalize_eq_ok_iff.mpr (Or.inr ⟨raw, merged, [], _, configured, included, shared,
        gather_of_keyless resolve maxFiles [target] target [] keyless, rfl⟩), ?_⟩
      rcases cases with ⟨-, rfl⟩ | ⟨_, _, _, _, _, _, -, origins, -⟩
      · have none : (pipelineFrom target merged []
            { sources := rulesSources (Value.field merged.entries "workflow") }).jobs = [] := rfl
        rw [withPipeline_of_no_jobs none, one.references]
        exact congrArg (fun more => { gathered with references := gathered.references ++ more })
          (List.append_nil _).symm
      · rw [some] at origins
        cases origins
    · rcases cases with ⟨none, -⟩ | ⟨childOf, key, first, rest, shared, child, parses, origins,
        childRead, sharedRead, rfl⟩
      · exact absurd (none.resolve_left (by simp)) some
      · obtain rfl := Option.some.inj parses
        have isFirst : first = target := one.origins (key, first)
            (by rw [origins]; exact List.mem_cons_self)
        subst isFirst
        rw [one.originFiles some, one.entries] at childRead
        have childRead := (startable.gather_eq configured included one).trans childRead
        rw [one.entries] at sharedRead
        refine ⟨_, normalize_eq_ok_iff.mpr
          (Or.inr ⟨raw, merged, shared, child, configured, included,
          sharedRead, childRead, rfl⟩), ?_⟩
        rw [withChild, withPipeline, one.references, List.append_assoc]
        rfl

end Trigger

/-! ## The jobs of a configuration, one after another -/

/-- The names of the jobs that a job stands for: its own, and those of the jobs that it triggers. -/
def Brings (resolve : Resolver) (parse : Option Parsing) (layer : Layer) (name found : String) :
    Prop :=
  found = name ∨ ∃ raw includes files child read gathered,
    layer.HasJob name raw ∧ Starts raw includes ∧
    openedFiles resolve layer.chain layer.path name includes = .ok files ∧
    childLayer layer.chain files = some child ∧ parse = some read ∧
    outcome (read child.chain child.path child.origins child.entries) = .ok gathered ∧
    ∃ job ∈ (Needs.validate gathered.jobs child.path).value.ordered, found = name ++ "/" ++ job.name

theorem renames_adopted (caller : String) (shared : Keyed String Value) :
    Renames caller (adopted caller shared) :=
  ⟨fun _ => rfl, fun _ => rfl⟩

section Jobs
variable {resolve : Resolver} {parse : Option Parsing} {layer : Layer} {caller : String}
variable {gathered result : Gathered}

theorem under_inlineChild_of_elsewhere {name : String} {raw : Entries} {includes : Value}
    (hasJob : layer.HasJob name raw) (starts : Starts raw includes)
    (elsewhere : ∀ found, Brings resolve parse layer name found → isUnder caller found = false)
    (read : outcome (inlineChild resolve parse layer.chain layer.path name includes gathered) =
      .ok result) : under caller result.jobs = under caller gathered.jobs := by
  obtain ⟨files, opens, ⟨-, rfl⟩ | ⟨childOf, key, first, rest, shared, child, parses, origins,
    childRead, -, rfl⟩⟩ := inlineChild_eq_ok read
  · rfl
  · refine under_placeAll_of_elsewhere _ fun job member => ?_
    obtain ⟨old, inside, rfl⟩ := List.mem_map.mp member
    have made := childLayer_of_origins layer.chain origins
    exact elsewhere _ (Or.inr ⟨raw, includes, files, _, childOf, child, hasJob, starts, opens, made,
      parses, childRead, old, inside, rfl⟩)

theorem under_addJob_of_elsewhere {jobPath : String} {raw : Entries} {written : Job}
    (hasJob : layer.HasJob written.name raw)
    (elsewhere : ∀ found, Brings resolve parse layer written.name found →
      isUnder caller found = false)
    (read : outcome (addJob resolve parse layer.chain layer.path jobPath written raw gathered) =
      .ok result) : under caller result.jobs = under caller gathered.jobs := by
  have own := elsewhere written.name (Or.inl rfl)
  have added : under caller (withJob written gathered).jobs = under caller gathered.jobs :=
    under_put own written
  rcases addJob_eq_ok read with ⟨-, rfl⟩ | ⟨trigger, downstream, found, starts, read⟩
  · exact added
  · cases downstream with
    | project ref =>
      obtain rfl := read
      exact under_put own _
    | malformed reason =>
      obtain rfl := read
      exact added
    | child includes =>
      exact (under_inlineChild_of_elsewhere hasJob ⟨trigger, found, starts⟩ elsewhere read).trans
        added

/-- Jobs other than a caller bring in no job under it. -/
def Alone (resolve : Resolver) (parse : Option Parsing) (layer : Layer) (caller : String) : Prop :=
  ∀ name, name ≠ caller → ∀ raw, layer.HasJob name raw →
    ∀ found, Brings resolve parse layer name found → isUnder caller found = false

theorem under_addJobs_of_elsewhere (alone : Alone resolve parse layer caller) {jobs : RawJobs}
    (named : rawJobsOf layer.entries = .ok jobs) (entries : RawJobs) (inside : entries ⊆ jobs)
    (others : caller ∉ Keyed.keys entries)
    (read : outcome (addJobs resolve parse layer.chain layer.path layer.origins
      (defaultsOf layer.entries) jobs entries gathered) = .ok result) :
    under caller result.jobs = under caller gathered.jobs := by
  refine addJobs_keeps (fun reached => under caller reached.jobs = under caller gathered.jobs)
    entries ?_ rfl read
  intro name value member visible raw written kept before reached extended wrote added same
  have hasJob : layer.HasJob name raw := ⟨jobs, ⟨named, visible, value, inside member⟩, extended⟩
  have other : name ≠ caller := fun equal => others (equal ▸ List.mem_map_of_mem member)
  obtain ⟨rfl, -⟩ := job_identity wrote
  have kept := under_addJob_of_elsewhere hasJob (alone _ other raw hasJob) added
  exact kept.trans same

theorem addJobs_append {origins : Keyed String String} {path : String} {chain : List String}
    {defaults : Entries} {jobs : RawJobs} (before after : RawJobs) (gathered : Gathered) :
    outcome (addJobs resolve parse chain path origins defaults jobs (before ++ after) gathered) =
      outcome (addJobs resolve parse chain path origins defaults jobs before gathered) >>=
        fun reached =>
        outcome (addJobs resolve parse chain path origins defaults jobs after reached) := by
  induction before generalizing gathered with
  | nil => rfl
  | cons entry rest ih =>
    obtain ⟨name, value⟩ := entry
    simp only [List.cons_append, addJobs]
    by_cases hidden : isHidden name = true
    · rw [if_pos hidden, if_pos hidden, ih]
    · rw [if_neg hidden, if_neg hidden]
      cases value with
      | map entries => simp only [outcome_bind, ih, bind_assoc]
      | _ => simp only [outcome_bind, ih, bind_assoc]

theorem references_addJobs {origins : Keyed String String} {path : String} {chain : List String}
    {defaults : Entries} {jobs : RawJobs} (entries : RawJobs)
    (read : outcome (addJobs resolve parse chain path origins defaults jobs entries gathered) =
      .ok result) : gathered.references <+: result.references := by
  refine addJobs_keeps (fun reached => gathered.references <+: reached.references) entries ?_
    (List.prefix_refl _) read
  intro name value _ _ raw written kept before reached _ _ added behind
  refine behind.trans ?_
  rcases addJob_eq_ok added with ⟨-, rfl⟩ | ⟨trigger, downstream, found, starts, added⟩
  · exact List.prefix_refl _
  · cases downstream with
    | project ref =>
      obtain rfl := added
      exact List.prefix_refl _
    | malformed reason =>
      obtain rfl := added
      exact List.prefix_refl _
    | child includes =>
      obtain ⟨files, -, ⟨-, rfl⟩ | ⟨_, _, _, _, _, child, -, -, -, -, rfl⟩⟩ :=
          inlineChild_eq_ok added
      · exact List.prefix_append _ _
      · exact (List.prefix_append _ _).trans (List.prefix_append _ _)

end Jobs

/-! ## Whole configurations -/

/-- A job of a configuration triggers files, of which it names exactly one. -/
structure TriggersFile (layer : Layer) (caller target : String) (trigger : Entries) : Prop where
  job : ∃ raw, layer.HasJob caller raw ∧ Keyed.get? raw (.text "trigger") = some (.map trigger)
  file : ∃ item written, Value.asList (Value.field trigger "include") = [item] ∧
    Include.ofValue item = .ok (.file written) ∧ stripped written = target

theorem TriggersFile.starts {layer : Layer} {caller target : String} {trigger : Entries}
    (triggers : TriggersFile layer caller target trigger)
    (noProject : Value.hasField trigger "project" = false) {raw : Entries}
    (field : Keyed.get? raw (.text "trigger") = some (.map trigger)) :
    Starts raw (Value.field trigger "include") := by
  obtain ⟨item, written, single, names, -⟩ := triggers.file
  have has : Value.hasField trigger "include" = true := by
    unfold Value.hasField Keyed.has
    cases found : Keyed.get? trigger (.text "include") with
    | none =>
      rw [Value.field, found] at single
      obtain rfl : Value.null = item := List.singleton_inj.mp single
      cases names
    | some value => rfl
  refine ⟨_, field, ?_⟩
  rw [Downstream.ofValue, noProject, has]
  rfl

theorem exists_append_of_names {layer : Layer} {jobs : RawJobs} {name : String}
    (names : layer.Names jobs name) :
    ∃ before entries after, jobs = before ++ (name, .map entries) :: after ∧
      name ∉ Keyed.keys before ∧ name ∉ Keyed.keys after := by
  obtain ⟨named, -, entries, member⟩ := names
  obtain ⟨before, after, same⟩ := List.append_of_mem member
  have distinct := nodup_rawJobsOf named
  rw [same, Keyed.keys_append, Keyed.keys_cons, List.nodup_append] at distinct
  obtain ⟨-, last, apart⟩ := distinct
  refine ⟨before, entries, after, same, fun inside => ?_, (List.nodup_cons.mp last).1⟩
  exact apart name inside name List.mem_cons_self rfl

section Whole
variable {resolve : Resolver} {path target caller : String} {content : List UInt8}

theorem addJobs_under {layer : Layer} {trigger : Entries} {jobs : RawJobs} {gathered : Gathered}
    (chain : layer.chain = [path]) (top : layer.path = path)
    (startable : Startable resolve path target content)
    (triggers : TriggersFile layer caller target trigger)
    (noProject : Value.hasField trigger "project" = false)
    (alone : Alone resolve (gatherBelow resolve) layer caller)
    (named : rawJobsOf layer.entries = .ok jobs) {start : Gathered} (empty : start.jobs = [])
    (read : outcome (addJobs resolve (gatherBelow resolve) layer.chain layer.path layer.origins
      (defaultsOf layer.entries) jobs jobs start) = .ok gathered) :
    ∃ own first, outcome (normalize resolve target content) = .ok own ∧
      under caller gathered.jobs = numbered first (own.orderedJobs.map (adopted caller own.env)) ∧
      own.includes <:+: gathered.references := by
  obtain ⟨raw, ⟨others, names, extended⟩, field⟩ := triggers.job
  obtain rfl := Except.ok.inj (named.symm.trans names.1)
  obtain ⟨before, entries, after, split, notBefore, notAfter⟩ := exists_append_of_names names
  have all : before ++ (caller, .map entries) :: after ⊆ jobs := split ▸ List.Subset.refl jobs
  obtain ⟨inBefore, inAfter⟩ := List.append_subset.mp all
  -- The walk through the jobs is cut at the trigger; no other job puts anything under it.
  have whole : outcome (addJobs resolve (gatherBelow resolve) layer.chain layer.path layer.origins
      (defaultsOf layer.entries) jobs (before ++ (caller, .map entries) :: after) start) =
        .ok gathered := by rw [← split]; exact read
  rw [addJobs_append, bind_eq_ok] at whole
  obtain ⟨earlier, earlierRead, laterRead⟩ := whole
  obtain ⟨other, written, kept, reached, same, wrote, added, rests⟩ :=
    addJobs_cons names.2.1 laterRead
  obtain rfl := Except.ok.inj (extended.symm.trans same)
  obtain ⟨rfl, -⟩ := job_identity wrote
  obtain ⟨starter, found, starts⟩ := triggers.starts noProject field
  obtain ⟨item, named', single, isFile, isTarget⟩ := triggers.file
  have started : outcome (inlineChild resolve (gatherBelow resolve) [path] path written.name
      (Value.field trigger "include") (withJob written (withSources raw kept earlier))) =
        .ok reached := by
    rw [addJob_of_starts ⟨starter, found, starts⟩, chain, top] at added
    exact added
  obtain ⟨own, ownRead, rfl⟩ := startable.inlineChild_eq_ok single isFile isTarget started
  obtain ⟨_, -, settled⟩ := normalize_settled ownRead
  have noEarlier : under written.name earlier.jobs = [] := by
    rw [under_addJobs_of_elsewhere alone named before inBefore notBefore earlierRead, empty]
    rfl
  have noOwn : under written.name (earlier.jobs.put written.name written) = [] := by
    rw [under_put (isUnder_self written.name), noEarlier]
  have placed := under_adoptAll (renames_adopted written.name own.env) settled.placed.keyed noOwn
  have later := under_addJobs_of_elsewhere alone named after
      (List.cons_subset.mp inAfter).2 notAfter
    rests
  refine ⟨own, _, ownRead, later.trans placed, ?_⟩
  exact (List.suffix_append _ _).isInfix.trans (references_addJobs after rests).isInfix

/-- The jobs under a job that triggers one file are those of the file, and so are the packages that
are added with them. -/
theorem normalize_under {own : List UInt8} {layer : Layer} {trigger : Entries} {pipeline : Pipeline}
    (holds : TopLayer resolve path own layer)
    (triggers : TriggersFile layer caller target trigger)
    (noProject : Value.hasField trigger "project" = false)
    (alone : Alone resolve (gatherBelow resolve) layer caller)
    (startable : Startable resolve path target content)
    (read : outcome (normalize resolve path own) = .ok pipeline) :
    ∃ child, outcome (normalize resolve target content) = .ok child ∧
      StandUnder caller pipeline.jobs (child.orderedJobs.map (adopted caller child.env)) ∧
      child.includes <:+: pipeline.includes := by
  obtain ⟨raw, merged, configured, included, rfl⟩ := holds
  rcases normalize_eq_ok_iff.mp read with ⟨none, -⟩ |
      ⟨other, whole, env, gathered, loaded, merges, -, gathers, rfl⟩
  · rw [configured] at none
    cases none
  · obtain rfl := Option.some.inj (Except.ok.inj (configured.symm.trans loaded))
    obtain rfl := Except.ok.inj (included.symm.trans merges)
    obtain ⟨names, -, placed⟩ := gather_placed resolve maxFiles _ _ _ _ _ gathers
    have gathers : outcome
        (gatherWith resolve (gatherBelow resolve) [path] path [] merged.entries) =
        .ok gathered := gathers
    obtain ⟨jobs, named, gathers⟩ := gatherWith_eq_ok gathers
    obtain ⟨child, first, childRead, under, inside⟩ :=
      addJobs_under rfl rfl startable triggers noProject alone named rfl gathers
    obtain ⟨_, -, settled⟩ := normalize_settled childRead
    refine ⟨child, childRead, ?_, inside.trans (List.suffix_append _ _).isInfix⟩
    exact standUnder_validate (renames_adopted caller _) placed.keyed settled under path

end Whole

end SupplyLint.Gitlab
