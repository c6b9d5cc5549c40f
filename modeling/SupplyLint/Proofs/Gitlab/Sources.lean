import SupplyLint.Proofs.Document.Jobs
import SupplyLint.Proofs.Gitlab.Problems
import SupplyLint.Proofs.Gitlab.Returns
import SupplyLint.Proofs.Text.Scan

/-! # The sources that start a pipeline

A pipeline is started by the sources that the rules of its configuration name, and then
by those of its jobs, each once and in the order in which they are named first. What
child pipelines name starts nothing. Top-level keys with the same text are one job, of
which only the last mapping counts. -/
set_option autoImplicit false

namespace SupplyLint.Gitlab

open SupplyLint.Text

/-! ## Conditions -/

/-- A comparison of the source of a pipeline with a name. -/
def IsComparison (part : List Char) (name : String) : Prop :=
  ∃ blanks more opening closing,
    part = "$CI_PIPELINE_SOURCE".toList ++ (blanks ++ (['=', '='] ++
      (more ++ opening :: (name.toList ++ [closing])))) ∧
    (∀ c ∈ blanks, isBlank c = true) ∧ (∀ c ∈ more, isBlank c = true) ∧
    isQuote opening = true ∧ isQuote closing = true ∧
    name ≠ "" ∧ ∀ c ∈ name.toList, isNameLetter c = true

theorem isNameLetter_of_isQuote {c : Char} (quote : isQuote c = true) : isNameLetter c = false := by
  simp only [isQuote, Bool.or_eq_true, decide_eq_true_eq] at quote
  rcases quote with rfl | rfl <;> decide

theorem isBlank_of_isQuote {c : Char} (quote : isQuote c = true) : isBlank c = false := by
  simp only [isQuote, Bool.or_eq_true, decide_eq_true_eq] at quote
  rcases quote with rfl | rfl <;> decide

theorem quotedName_eq_some {text rest : List Char} {name : String} :
    quotedName text = some (name, rest) ↔
      ∃ opening closing, text = opening :: (name.toList ++ closing :: rest) ∧
        isQuote opening = true ∧ isQuote closing = true ∧
        name ≠ "" ∧ ∀ c ∈ name.toList, isNameLetter c = true := by
  constructor
  · intro found
    cases text with
    | nil => cases found
    | cons opening text =>
      have whole := List.takeWhile_append_dropWhile (p := isNameLetter) (l := text)
      unfold quotedName at found
      dsimp only at found
      split at found
      · next closing after stops =>
        split at found
        · next quoted =>
          simp only [Bool.and_eq_true, Bool.not_eq_true', List.isEmpty_eq_false_iff] at quoted
          obtain ⟨⟨opens, closes⟩, filled⟩ := quoted
          obtain ⟨rfl, rfl⟩ := Prod.mk.inj (Option.some.inj found)
          refine ⟨opening, closing, ?_, opens, closes, ?_, ?_⟩
          · rw [String.toList_ofList, ← stops, whole]
          · intro none
            exact filled (by simpa using congrArg String.toList none)
          · rw [String.toList_ofList]
            exact fun c => List.mem_takeWhile_imp
        · cases found
      · cases found
  · rintro ⟨opening, closing, rfl, opens, closes, filled, letters⟩
    have stop : ∀ c ∈ (closing :: rest).head?, isNameLetter c = false := by
      simpa using isNameLetter_of_isQuote closes
    have some : name.toList.isEmpty = false := by
      rw [List.isEmpty_eq_false_iff]
      exact fun none => filled (String.ext (by simpa using none))
    rw [quotedName, takeWhile_run letters stop, dropWhile_run letters stop]
    simp only [opens, closes, some, Bool.and_self, Bool.not_false, if_true, String.ofList_toList]

theorem finds_comparison : Finds sourceFinder IsComparison := by
  have equals {text : List Char} : ∀ c ∈ (['=', '='] ++ text).head?, isBlank c = false := by
    simp
    decide
  intro text name width
  constructor
  · intro found
    simp only [sourceFinder, Option.bind_eq_bind, Option.bind_eq_some_iff, afterPrefix?_eq_some,
      Option.pure_def, Option.some.injEq, Prod.mk.injEq] at found
    obtain ⟨operator, rfl, operand, stops, ⟨_, rest⟩, quoted, rfl, rfl⟩ := found
    obtain ⟨opening, closing, stopsToo, opens, closes, filled, letters⟩ :=
      quotedName_eq_some.mp quoted
    -- The blanks that the finder passes over are named, as its width counts them.
    obtain ⟨blanks, blank, first⟩ := exists_run_dropWhile isBlank operator
    obtain ⟨more, blankToo, second⟩ := exists_run_dropWhile isBlank operand
    rw [stops] at first
    rw [stopsToo] at second
    refine ⟨_, rest, ?_, ⟨blanks, more, opening, closing, rfl, blank, blankToo, opens, closes,
      filled, letters⟩, ?_⟩
    · rw [first, second]
      simp
    · rw [first, second]
      simp
      omega
  · rintro ⟨part, rest, rfl, ⟨blanks, more, opening, closing, rfl, blank, blankToo, opens, closes,
      filled, letters⟩, rfl⟩
    have source : "$CI_PIPELINE_SOURCE".toList ++ (blanks ++ (['=', '='] ++
        (more ++ opening :: (name.toList ++ [closing])))) ++ rest =
          "$CI_PIPELINE_SOURCE".toList ++ (blanks ++ (['=', '='] ++
            (more ++ opening :: (name.toList ++ closing :: rest)))) := by simp
    have quote : ∀ c ∈ (opening :: (name.toList ++ closing :: rest)).head?, isBlank c = false := by
      simpa using isBlank_of_isQuote opens
    have quoted : quotedName (opening :: (name.toList ++ closing :: rest)) = some (name, rest) :=
      quotedName_eq_some.mpr ⟨opening, closing, rfl, opens, closes, filled, letters⟩
    rw [source, sourceFinder, afterPrefix?_eq_some.mpr rfl]
    dsimp only [Option.bind_eq_bind, Option.bind_some]
    rw [dropWhile_run blank equals, afterPrefix?_eq_some.mpr rfl]
    dsimp only [Option.bind_some]
    rw [dropWhile_run blankToo quote, quoted]
    simp
    omega

theorem leftmost_comparisons (condition : String) :
    Leftmost IsComparison condition.toList (scan sourceFinder condition.toList) := by
  refine leftmost_scan finds_comparison ?_ _
  rintro name ⟨blanks, more, opening, closing, whole, -⟩
  simp at whole

/-! ## Jobs -/

/-- The names of the mappings that are read as jobs, in their order. -/
def visibleJobs (entries : RawJobs) : List String :=
  entries.filterMap fun entry => match entry with
    | (name, .map _) => if isHidden name then none else some name
    | _ => none

/-- The sources that a job names: in its rules, and behind them in its `only`. -/
def jobSources (all : RawJobs) (path name : String) : Except Failure (List String) := do
  let raw ← outcome (resolveExtends all path name)
  let kept ← uncaught (onlySources (Value.field raw "only"))
  return rulesSources (.map raw) ++ kept

theorem visibleJobs_skip {name : String} {value : Value} {rest : RawJobs}
    (noJob : isHidden name = true ∨ ¬ ∃ entries, value = .map entries) :
    visibleJobs ((name, value) :: rest) = visibleJobs rest := by
  cases value with
  | map entries =>
    have hidden := noJob.resolve_right fun none => none ⟨entries, rfl⟩
    simp [visibleJobs, hidden]
  | _ => rfl

theorem visibleJobs_cons {name : String} {entries : Entries} {rest : RawJobs}
    (visible : ¬ isHidden name = true) :
    visibleJobs ((name, .map entries) :: rest) = name :: visibleJobs rest := by
  simp [visibleJobs, visible]

section Jobs
variable {resolve : Resolver} {parse : Option Parsing} {chain : List String}
variable {path jobPath : String} {gathered result : Gathered}

theorem sources_inlineChild {caller : String} {includes : Value}
    (read : outcome (inlineChild resolve parse chain path caller includes gathered) = .ok result) :
    result.sources = gathered.sources := by
  obtain ⟨files, -, ⟨-, rfl⟩ | ⟨_, _, _, _, _, _, -, -, -, -, rfl⟩⟩ := inlineChild_eq_ok read
  · rfl
  · rfl

theorem sources_addJob {written : Job} {raw : Entries}
    (read : outcome (addJob resolve parse chain path jobPath written raw gathered) = .ok result) :
    result.sources = gathered.sources := by
  rcases addJob_eq_ok read with ⟨-, rfl⟩ | ⟨trigger, downstream, -, -, read⟩
  · rfl
  · cases downstream with
    | project ref =>
      obtain rfl := read
      rfl
    | malformed reason =>
      obtain rfl := read
      rfl
    | child includes => exact (sources_inlineChild read).trans rfl

theorem sources_addJobs {defaults : Entries} {all : RawJobs} (entries : RawJobs)
    (read : outcome (addJobs resolve parse chain path [] defaults all entries gathered) =
      .ok result) :
    ∃ each, (visibleJobs entries).mapM (jobSources all path) = .ok each ∧
      result.sources = gathered.sources ++ each.flatten := by
  induction entries generalizing gathered with
  | nil =>
    obtain rfl := addJobs_nil read
    exact ⟨[], rfl, by simp⟩
  | cons entry rest ih =>
    obtain ⟨name, value⟩ := entry
    by_cases noJob : isHidden name = true ∨ ¬ ∃ entries, value = .map entries
    · rw [visibleJobs_skip noJob]
      exact ih (addJobs_skip noJob read)
    · rw [not_or, not_not] at noJob
      obtain ⟨visible, entries, rfl⟩ := noJob
      obtain ⟨raw, written, kept, reached, extended, -, only, added, others⟩ :=
        addJobs_cons_eq_ok visible read
      obtain ⟨each, sources, same⟩ := ih others
      have own : jobSources all path name = .ok (rulesSources (.map raw) ++ kept) := by
        have extended : outcome (resolveExtends all path name) = .ok raw := extended
        rw [jobSources, extended, ok_bind, only]
        rfl
      refine ⟨(rulesSources (.map raw) ++ kept) :: each, ?_, ?_⟩
      · rw [visibleJobs_cons visible, List.mapM_cons, own, ok_bind, sources]
        rfl
      · rw [same, sources_addJob added, withSources]
        simp

end Jobs

/-! ## Configurations -/

def topEntries (raw : Entries) : Except Fault (List (String × Value)) :=
  (Field.entries (.map raw)).mapM fun entry => return (← entry.1.toText, entry.2)

def namedJobs (entries : List (String × Value)) : RawJobs :=
  entries.filter fun entry => !reservedKeys.contains entry.1

/-- The sources that a configuration names: those of its workflow, and then those of its jobs. -/
def namedSources (path : String) (raw : Entries) (jobs : RawJobs) :
    Except Failure (List String) := do
  let each ← (visibleJobs jobs).mapM (jobSources jobs path)
  return rulesSources (Value.field raw "workflow") ++ each.flatten

theorem rawJobsOf_eq_ok {raw : Entries} {jobs : RawJobs} :
    rawJobsOf raw = .ok jobs ↔
      ∃ pairs, topEntries raw = .ok pairs ∧ jobs = namedJobs (Keyed.ofPairs pairs) := by
  simp only [rawJobsOf, Field.byText, topEntries, namedJobs, bind_eq_ok, pure_eq_ok]
  constructor
  · rintro ⟨entries, ⟨pairs, texts, rfl⟩, rfl⟩
    exact ⟨pairs, texts, rfl⟩
  · rintro ⟨pairs, texts, rfl⟩
    exact ⟨_, ⟨pairs, texts, rfl⟩, rfl⟩

theorem sources_gatherWith {resolve : Resolver} {parse : Option Parsing} {chain : List String}
    {path : String} {raw : Entries} {gathered : Gathered}
    (read : outcome (gatherWith resolve parse chain path [] raw) = .ok gathered) :
    ∃ jobs, rawJobsOf raw = .ok jobs ∧ namedSources path raw jobs = .ok gathered.sources := by
  unfold gatherWith at read
  simp only [outcome_bind, bind_eq_ok, outcome_fault, uncaught_eq_ok] at read
  obtain ⟨jobs, named, added⟩ := read
  obtain ⟨each, sources, same⟩ := sources_addJobs jobs added
  refine ⟨jobs, named, ?_⟩
  rw [namedSources, sources, ok_bind, same]
  rfl

theorem startSources_eq (named : List String) :
    startSources named = if named = [] then ["push"] else named.eraseDups := by
  unfold startSources
  rw [firsts_eq_eraseDups]
  cases named with
  | nil => rfl
  | cons source rest => simp [List.eraseDups_cons]

theorem nodup_startSources (named : List String) : (startSources named).Nodup := by
  unfold startSources
  split
  · decide
  · exact nodup_foldl_addNew named List.nodup_nil

theorem startSources_ne_nil (named : List String) : startSources named ≠ [] := by
  unfold startSources
  split
  · simp
  · next some => simpa using some

theorem events_pipelineFrom (path : String) (merged : Merged) (env : Keyed String Value)
    (gathered : Gathered) :
    (pipelineFrom path merged env gathered).events = startSources gathered.sources := by
  rw [pipelineFrom, Pipeline.events, triggers_value, List.map_map]
  exact List.map_id _

/-- A condition names the sources that it compares with, and behind them that of merge requests if a
variable of these stands in it. -/
theorem exists_conditionSources (condition : String) :
    ∃ compared, Leftmost IsComparison condition.toList compared ∧
      (("$CI_MERGE_REQUEST_".toList <:+: condition.toList →
        conditionSources condition = compared ++ ["merge_request_event"]) ∧
      (¬ "$CI_MERGE_REQUEST_".toList <:+: condition.toList →
        conditionSources condition = compared)) := by
  refine ⟨_, leftmost_comparisons condition, fun mentioned => ?_, fun absent => ?_⟩
  · rw [conditionSources, contains, if_pos (isPart_iff.mpr mentioned)]
    rfl
  · rw [conditionSources, contains, if_neg (mt isPart_iff.mp absent), List.append_nil]

section Normalize
variable {resolve : Resolver} {path : String} {content : List UInt8}

theorem filter_isOfSource_normalize {raw : Entries} {merged : Merged} {env : Keyed String Value}
    {gathered : Gathered}
    (loaded : outcome (configuration path content) = .ok (some raw))
    (included : outcome (merge resolve path (maxFiles - 1) [path] raw) = .ok merged)
    (shared : variablesOf (Value.field merged.entries "variables") = .ok env)
    (gathers : outcome (gather resolve maxFiles [path] path [] merged.entries) = .ok gathered) :
    (noted (normalize resolve path content)).filter isOfSource =
      ((startSources gathered.sources).filter fun source => !events.contains source).map
        (unknownSource path) := by
  have ofFile : (noted (configuration path content)).filter isOfSource = [] :=
    (notOfSource_of_ofInclude (ofInclude_configuration path content)).filter_eq_nil
  have ofIncludes : (noted (merge resolve path (maxFiles - 1) [path] raw)).filter isOfSource = [] :=
    (notOfSource_of_ofInclude (ofInclude_merge _ _ _)).filter_eq_nil
  have ofJobs : (noted (gather resolve maxFiles [path] path [] merged.entries)).filter
      isOfSource = [] :=
    NotesOnly.filter_eq_nil (notOfSource_gather maxFiles [path] path [] merged.entries)
  have ofNeeds : (Needs.validate gathered.jobs path).problems.filter isOfSource = [] :=
    ((ofJob_validate gathered.jobs path).mono fun _ ofJob => ofJob.2).filter_eq_nil
  have ofSources : (triggers path gathered.sources).problems.filter isOfSource =
      (triggers path gathered.sources).problems :=
    List.filter_eq_self.mpr fun problem member => (ofSource_triggers _ _ problem member).1
  rw [noted_normalize loaded included shared gathers]
  simp only [List.filter_append, ofFile, ofIncludes, ofJobs, ofNeeds, ofSources, List.nil_append,
    List.append_nil]
  exact triggers_problems path gathered.sources

/-- A configuration that is loaded starts by the sources that it names with what it includes: those
of its workflow and then those of its visible jobs, each once and as they are named first, or by
pushes if it names none. Those that pipelines do not have are noted once. Of entries with one text
the last counts, at the place of the first; where the texts differ, every entry counts. -/
theorem pipeline_starts_as_named {raw : Entries} {pipeline : Pipeline}
    (loaded : outcome (configuration path content) = .ok (some raw))
    (read : outcome (normalize resolve path content) = .ok pipeline) :
    ∃ merged pairs named,
      outcome (merge resolve path (maxFiles - 1) [path] raw) = .ok merged ∧
      topEntries merged.entries = .ok pairs ∧
      namedSources path merged.entries (namedJobs (Keyed.ofPairs pairs)) = .ok named ∧
      ((pairs.map Prod.fst).Nodup →
        namedSources path merged.entries (namedJobs pairs) = .ok named) ∧
      pipeline.events = (if named = [] then ["push"] else named.eraseDups) ∧
      pipeline.events.Nodup ∧ pipeline.events ≠ [] ∧
      (noted (normalize resolve path content)).filter isOfSource =
        (pipeline.events.filter fun source => !events.contains source).map (unknownSource path) ∧
      ∀ condition, ∃ compared, Leftmost IsComparison condition.toList compared ∧
        ("$CI_MERGE_REQUEST_".toList <:+: condition.toList →
          conditionSources condition = compared ++ ["merge_request_event"]) ∧
        (¬ "$CI_MERGE_REQUEST_".toList <:+: condition.toList →
          conditionSources condition = compared) := by
  obtain ⟨empty, -⟩ | ⟨found, merged, env, gathered, loadedToo, included, shared, gathers, rfl⟩ :=
    normalize_eq_ok_iff.mp read
  · rw [loaded] at empty
    cases empty
  · obtain rfl : raw = found := Option.some.inj (Except.ok.inj (loaded.symm.trans loadedToo))
    obtain ⟨jobs, kept, named⟩ := sources_gatherWith gathers
    obtain ⟨pairs, texts, rfl⟩ := rawJobsOf_eq_ok.mp kept
    refine ⟨merged, pairs, gathered.sources, included, texts, named, fun distinct => ?_, ?_⟩
    · rwa [Keyed.ofPairs_of_nodup distinct] at named
    · rw [events_pipelineFrom]
      exact ⟨startSources_eq _, nodup_startSources _, startSources_ne_nil _,
        filter_isOfSource_normalize loaded included shared gathers, exists_conditionSources⟩

end Normalize

/-- A configuration whose workflow, a template in an included file, and a job name sources. Another
template and a child pipeline name sources that do not count. -/
def sourcedConfiguration : Document :=
  Document.ofText .gitlab "r.yml"
    ("include: a.yml\nworkflow:\n rules:\n" ++
      " - if: '$CI_PIPELINE_SOURCE == \"web\" || $CI_PIPELINE_SOURCE==\"cron\"'\n" ++
      "a:\n extends: .m\n script: a\n only: [schedules, web]\nt:\n trigger:\n  include: c.yml\n")

def sourcedFiles : Resolver :=
  Document.resolver
    [Document.ofText .gitlab "a.yml"
        ".m:\n rules:\n - if: $CI_MERGE_REQUEST_IID\n.n:\n script: n\n only: [tags]\n",
      Document.ofText .gitlab "c.yml" "x:\n script: x\n only: [api]\n"] Source.none

theorem sourced_configuration_starts_as_named :
    ∃ raw pipeline,
      outcome (configuration sourcedConfiguration.path sourcedConfiguration.content) =
        .ok (some raw) ∧
      outcome (normalize sourcedFiles sourcedConfiguration.path sourcedConfiguration.content) =
        .ok pipeline ∧
      pipeline.events = ["web", "cron", "merge_request_event", "schedule"] ∧
      pipeline.events.Nodup ∧
      (noted (normalize sourcedFiles sourcedConfiguration.path sourcedConfiguration.content)).filter
        isOfSource = [unknownSource "r.yml" "cron"] := by
  have loads : (outcome (configuration sourcedConfiguration.path
      sourcedConfiguration.content)).toOption.map Option.isSome = some true := by decide +kernel
  have starts : (outcome (normalize sourcedFiles sourcedConfiguration.path
      sourcedConfiguration.content)).toOption.map Pipeline.events =
        some ["web", "cron", "merge_request_event", "schedule"] := by decide +kernel
  obtain ⟨found, loaded, some⟩ := toOption_map_eq_some.mp loads
  obtain ⟨raw, rfl⟩ := Option.isSome_iff_exists.mp some
  obtain ⟨pipeline, read, started⟩ := toOption_map_eq_some.mp starts
  obtain ⟨-, -, -, -, -, -, -, -, distinct, -, unknown, -⟩ := pipeline_starts_as_named loaded read
  refine ⟨raw, pipeline, loaded, read, started, distinct, ?_⟩
  rw [unknown, started]
  decide +kernel

def overwrittenJob : Document :=
  Document.ofText .gitlab "a.yml"
    "1:\n script: a\n only: [schedules]\n\"1\":\n script: b\n only: [tags]\n"

theorem overwritten_job_starts_nothing :
    ∃ raw merged pairs pipeline,
      outcome (configuration overwrittenJob.path overwrittenJob.content) = .ok (some raw) ∧
      outcome (merge Source.none overwrittenJob.path (maxFiles - 1) [overwrittenJob.path] raw) =
        .ok merged ∧
      topEntries merged.entries = .ok pairs ∧
      visibleJobs (namedJobs pairs) = ["1", "1"] ∧
      pairs.map (fun entry =>
          (namedSources overwrittenJob.path merged.entries (namedJobs [entry])).toOption) =
        [some ["schedule"], some ["push"]] ∧
      outcome (normalize Source.none overwrittenJob.path overwrittenJob.content) = .ok pipeline ∧
      pipeline.events = ["push"] ∧ pipeline.events ≠ ["schedule", "push"].eraseDups := by
  have names : ((outcome (configuration overwrittenJob.path overwrittenJob.content)).toOption.bind
      fun found => found.bind fun raw => (outcome (merge Source.none overwrittenJob.path
        (maxFiles - 1) [overwrittenJob.path] raw)).toOption.bind fun merged =>
      (topEntries merged.entries).toOption.map fun pairs => (visibleJobs (namedJobs pairs),
        pairs.map fun entry =>
          (namedSources overwrittenJob.path merged.entries (namedJobs [entry])).toOption)) =
      some (["1", "1"], [some ["schedule"], some ["push"]]) := by decide +kernel
  have starts : (outcome (normalize Source.none overwrittenJob.path
      overwrittenJob.content)).toOption.map Pipeline.events = some ["push"] := by decide +kernel
  simp only [Option.bind_eq_some_iff, toOption_eq_some, toOption_map_eq_some, Prod.mk.injEq]
    at names
  obtain ⟨_, loaded, raw, rfl, merged, included, pairs, texts, visible, each⟩ := names
  obtain ⟨pipeline, read, started⟩ := toOption_map_eq_some.mp starts
  refine ⟨raw, merged, pairs, pipeline, loaded, included, texts, visible, each, read, started, ?_⟩
  rw [started]
  decide

end SupplyLint.Gitlab
