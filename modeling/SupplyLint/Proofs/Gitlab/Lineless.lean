import SupplyLint.Proofs.Gitlab.Unlined

/-! # Configurations that show no line

Configurations that differ in nothing but lines are read alike, with what they include and with the
child pipelines below them, if there are no lines in values whose text is taken, nor in those that
are kept as a ref. -/
set_option autoImplicit false

namespace SupplyLint.Gitlab

open SupplyLint.Text
open SupplyLint.Value (AllLineless allLineless_append unlined unlinedEntries)

/-! ## Files -/

theorem isHeader_unlined (value : Value) : isHeader value.unlined = isHeader value := by
  cases value with
  | map entries =>
    rw [Value.unlined_map, isHeader, ← Value.unlined_map, ← Field.names, Field.names_unlined,
      isHeader, ← Field.names]
  | _ => rfl

/-- The documents of a file that hold something, without a header before them. -/
def bodies (values : List Value) : List Value :=
  let present := values.filter fun value => match value with
    | .null => false
    | _ => true
  match present with
  | first :: second :: more => if isHeader first then second :: more else present
  | _ => present

theorem bodies_unlined (values : List Value) :
    bodies (values.map unlined) = (bodies values).map unlined := by
  have notNull (value : Value) : (match value.unlined with
      | .null => false
      | _ => true) = (match value with
        | .null => false
        | _ => true) := by
    cases value <;> rfl
  unfold bodies
  simp only [List.filter_map, Function.comp_def, notNull]
  generalize values.filter _ = present
  match present with
  | [] => rfl
  | [_] => rfl
  | first :: second :: more =>
    simp only [List.map_cons, isHeader_unlined]
    split <;> rfl

theorem configuration_sameUnder (path : String) {content other : List UInt8}
    (alike : LoadAlike content other) :
    SameUnder (Option.map unlinedEntries) (configuration path content)
      (configuration path other) := by
  refine (documents_sameUnder path alike).bindOption (.refl _ _) fun values others _ _ same => ?_
  have picked : (bodies values).map unlined = (bodies others).map unlined := by
    rw [← bodies_unlined, ← bodies_unlined, same]
  refine .of_noted (x := Source.mapping path (bodies values))
    (y := Source.mapping path (bodies others)) ?_
  rw [← mapping_unlined, ← mapping_unlined, picked]

/-- There are no lines in the includes of a file, nor in those of the files that it includes. -/
def IncludesLineless (resolve : Resolver) (file : File) : Prop :=
  ∀ last, Relation.ReflTransGen (Opens Includes (opened resolve)) file last →
    ItemsLineless (includeItems last.entries)

theorem includes_unlined {raw : Entries} (lineless : ItemsLineless (includeItems raw))
    {target : String} : Includes (unlinedEntries raw) target ↔ Includes raw target := by
  have same : targets (unlinedEntries raw) = targets raw := by
    rw [targets, includeItems_unlined, List.filterMap_map, targets]
    refine List.filterMap_congr fun item member => ?_
    obtain ⟨values, kept⟩ := lineless item member
    rw [Function.comp_apply, includeTarget, ofValue_unlined values kept, includeTarget]
  rw [← refers_targets, Refers, same, Refers]

theorem IncludesLineless.below {resolve : Resolver} {file : File}
    (lineless : IncludesLineless resolve file) {target : String}
    (tries : Tries Includes file target)
    {called : Entries} (opens : opened resolve target = .ok (some called)) :
    IncludesLineless resolve ⟨file.chain ++ [target], called⟩ :=
  fun last reached => lineless last (.head ⟨target, tries, opens, rfl⟩ reached)

section Files
variable {first second : Resolver} {path : String} {chain : List String} {raw other : Entries}

theorem enterWith_sameUnder (files : FilesAlike first second)
    (lineless : IncludesLineless first ⟨chain, raw⟩)
    (linelessToo : IncludesLineless second ⟨chain, other⟩) {written : String}
    (includes : ¬ contains (stripped written) "*" = true → Includes raw (stripped written))
    (includesToo : ¬ contains (stripped written) "*" = true → Includes other (stripped written))
    (short : chain.length < maxFiles) {merging mergingToo : Merging}
    (below : ∀ target called calledToo, unlinedEntries called = unlinedEntries calledToo →
      IncludesLineless first ⟨chain ++ [target], called⟩ →
      IncludesLineless second ⟨chain ++ [target], calledToo⟩ →
        SameUnder Merged.unlined (merging (chain ++ [target]) called)
          (mergingToo (chain ++ [target]) calledToo)) :
    SameUnder (Option.map Merged.unlined) (enterWith first path (some merging) chain written)
      (enterWith second path (some mergingToo) chain written) := by
  by_cases refused : contains (stripped written) "*" = true ∨ stripped written ∈ chain
  · exact .of_eq (enterWith_congr_of_refused path _ _ refused)
  · obtain ⟨plain, outside⟩ := not_or.mp refused
    have tries : Tries Includes ⟨chain, raw⟩ (stripped written) := ⟨includes plain, outside, short⟩
    have triesToo : Tries Includes ⟨chain, other⟩ (stripped written) :=
      ⟨includesToo plain, outside, short⟩
    rw [enterWith_of_some first path plain outside, enterWith_of_some second path plain outside]
    refine (SameUnder.of_failure (files _)).bindOption (.refl _ _)
      fun content contentToo looked lookedToo same => ?_
    rw [outcome_failure] at looked lookedToo
    refine (configuration_sameUnder _ same).bindOption (.refl _ _)
      fun called calledToo read readToo entries => ?_
    refine .map (below _ _ _ entries (lineless.below tries ?_) (linelessToo.below triesToo ?_))
      fun _ => rfl
    · rw [opened, looked]
      exact read
    · rw [opened, lookedToo]
      exact readToo

theorem merge_sameUnder (files : FilesAlike first second)
    (entries : unlinedEntries raw = unlinedEntries other)
    (lineless : IncludesLineless first ⟨chain, raw⟩)
    (linelessToo : IncludesLineless second ⟨chain, other⟩) (path : String) {room : Nat}
    (rooms : maxFiles - chain.length = room) :
    SameUnder Merged.unlined (merge first path room chain raw)
      (merge second path room chain other) := by
  induction room generalizing chain raw other with
  | zero =>
    have enters (items : List Value) : EntersUnlined (enterWith first path none chain)
        (fun written => Option.map Merged.unlined <$> enterWith first path none chain written)
          items :=
      fun _ _ _ _ => rfl
    refine .of_read (mergeWith_unlined (lineless _ .refl) (enters _)) ?_
    rw [entries]
    exact mergeWith_unlined (linelessToo _ .refl) (enters _)
  | succ room ih =>
    -- Both enter what they include as the first does.
    refine .of_read (mergeWith_unlined (lineless _ .refl) fun _ _ _ _ => rfl) ?_
    rw [entries]
    refine mergeWith_unlined (linelessToo _ .refl) fun item member written names => ?_
    have includesToo (plain : ¬ contains (stripped written) "*" = true) :
        Includes other (stripped written) := ⟨item, member, written, names, rfl, plain⟩
    refine enterWith_sameUnder files lineless linelessToo (fun plain => ?_) includesToo (by omega)
      fun target called calledToo same shown shownToo => ?_
    · have includes := (includes_unlined (linelessToo _ .refl)).mpr (includesToo plain)
      rw [← entries] at includes
      exact (includes_unlined (lineless _ .refl)).mp includes
    · refine ih same shown shownToo ?_
      rw [List.length_append, List.length_singleton]
      omega

theorem enter_sameUnder (files : FilesAlike first second)
    (lineless : IncludesLineless first ⟨chain, raw⟩)
    (linelessToo : IncludesLineless second ⟨chain, other⟩) {written : String}
    (includes : ¬ contains (stripped written) "*" = true → Includes raw (stripped written))
    (includesToo : ¬ contains (stripped written) "*" = true → Includes other (stripped written)) :
    SameUnder (Option.map Merged.unlined) (enter first path chain written)
      (enter second path chain written) := by
  rw [enter_eq, enter_eq]
  cases rooms : maxFiles - chain.length with
  | zero => exact .of_eq rfl
  | succ room =>
    refine enterWith_sameUnder files lineless linelessToo includes includesToo (by omega)
      fun target called calledToo same shown shownToo => ?_
    refine merge_sameUnder files same shown shownToo path ?_
    rw [List.length_append, List.length_singleton]
    omega

end Files

/-- There are no lines in the includes of a trigger, nor in those of the files that it includes. -/
abbrev FilesLineless (resolve : Resolver) (chain : List String) (includes : Value) : Prop :=
  IncludesLineless resolve ⟨chain, [(.text "include", includes)]⟩

theorem FilesLineless.items {resolve : Resolver} {chain : List String} {includes : Value}
    (lineless : FilesLineless resolve chain includes) : ItemsLineless includes.asList := by
  have items := lineless _ .refl
  have field : Value.field [(.text "include", includes)] "include" = includes := rfl
  simp only [includeItems, field] at items
  cases includes with
  | null => simp [Value.asList, ItemsLineless, includeValues, includeKept]
  | _ => exact items

theorem childFiles_sameUnder {first second : Resolver} (files : FilesAlike first second)
    {chain : List String} {includes includesToo : Value}
    (same : includes.unlined = includesToo.unlined) (lineless : FilesLineless first chain includes)
    (linelessToo : FilesLineless second chain includesToo) (path location : String) :
    SameUnder ChildFiles.unlined
      (childFiles (enter first path chain) path location includes.asList {})
      (childFiles (enter second path chain) path location includesToo.asList {}) := by
  let enterAlike (written : String) : Normalizing (Option Merged) :=
    Option.map Merged.unlined <$> enter first path chain written
  have enters : EntersUnlined (fun written => enter first path chain (stripped written))
      (fun written => enterAlike (stripped written)) includes.asList := fun _ _ _ _ => rfl
  refine .of_read (childFiles_unlined lineless.items enters {}) ?_
  rw [← Value.asList_unlined, same, Value.asList_unlined]
  refine childFiles_unlined linelessToo.items (fun item member written names => ?_) {}
  have includesHere (plain : ¬ contains (stripped (stripped written)) "*" = true) :
      Includes [(.text "include", includesToo)] (stripped (stripped written)) := by
    rw [stripped_stripped] at plain ⊢
    exact includes_of_written member names plain
  refine enter_sameUnder files lineless linelessToo (fun plain => ?_) includesHere
  have unlined (includes : Value) : unlinedEntries [(.text "include", includes)] =
      [(.text "include", includes.unlined)] := by
    rw [Value.unlinedEntries_eq, List.map_cons, List.map_nil,
      Value.unlinedUnder_of_ne (by simp [Yaml.lineKey])]
  have included := (includes_unlined (linelessToo _ .refl)).mpr (includesHere plain)
  rw [unlined, ← same, ← unlined] at included
  exact (includes_unlined (lineless _ .refl)).mp included

/-! ## Configurations and the child pipelines below them -/

def Gathered.unlined (gathered : Gathered) : Gathered :=
  { gathered with jobs := gathered.jobs.unlined }

namespace Layer

/-- There are no lines in the values of the jobs of a configuration whose text is taken, nor in
those that are kept as a ref, nor in the includes of the files that the jobs trigger. -/
structure IsLineless (resolve : Resolver) (layer : Layer) : Prop where
  bases : ∀ jobs name, layer.Names jobs name → BasesLineless jobs name
  values : ∀ name raw, layer.HasJob name raw →
    AllLineless (jobValues raw (defaultsOf layer.entries) ++ onlyValues (Value.field raw "only") ++
      triggerValues raw ++ triggerKept raw)
  files : ∀ name raw includes, layer.HasJob name raw → Starts raw includes →
    FilesLineless resolve layer.chain includes

abbrev withEntries (layer : Layer) (entries : Entries) : Layer :=
  { layer with entries := entries }

end Layer

theorem variablesOf_sameUnder {value other : Value} (same : value.unlined = other.unlined) :
    SameUnder (Keyed.mapValues unlined) (liftM (variablesOf value)) (liftM (variablesOf other)) :=
  .of_fault (by rw [← variablesOf_unlined, same, variablesOf_unlined])

theorem validate_sameUnder {jobs other : Jobs} (same : jobs.unlined = other.unlined)
    (path : String) :
    SameUnder Jobs.unlined (liftM (Needs.validate jobs path))
      (liftM (Needs.validate other path)) := by
  refine .of_noted ?_
  rw [← Needs.validate_unlined, same, Needs.validate_unlined]

section Jobs
variable {first second : Resolver} {parse again : Option Parsing} {layer : Layer} {other : Entries}

/-- The child pipelines of two configurations are read alike where they differ in nothing but
lines. -/
def ReadsAlike (first second : Resolver) (layer : Layer) (other : Entries) (read again : Parsing) :
    Prop :=
  ∀ child entries, layer.Triggers first child →
    (layer.withEntries other).Triggers second (child.withEntries entries) →
    unlinedEntries child.entries = unlinedEntries entries →
    SameUnder Gathered.unlined (read child.chain child.path child.origins child.entries)
      (again child.chain child.path child.origins entries)

/-- Two configurations differ in nothing but lines, and neither shows any. -/
structure LayersAlike (first second : Resolver) (parse again : Option Parsing) (layer : Layer)
    (other : Entries) : Prop where
  files : FilesAlike first second
  entries : unlinedEntries layer.entries = unlinedEntries other
  lineless : layer.IsLineless first
  linelessToo : (layer.withEntries other).IsLineless second
  below : Option.Rel (ReadsAlike first second layer other) parse again

theorem inlineChild_sameUnder (alike : LayersAlike first second parse again layer other)
    {name : String} {raw rawToo : Entries} {includes includesToo : Value}
    (hasJob : layer.HasJob name raw) (hasJobToo : (layer.withEntries other).HasJob name rawToo)
    (starts : Starts raw includes) (startsToo : Starts rawToo includesToo)
    (same : includes.unlined = includesToo.unlined) {gathered gatheredToo : Gathered}
    (sameGathered : gathered.unlined = gatheredToo.unlined) :
    SameUnder Gathered.unlined
      (inlineChild first parse layer.chain layer.path name includes gathered)
      (inlineChild second again layer.chain layer.path name includesToo gatheredToo) := by
  simp only [Gathered.unlined, Gathered.mk.injEq] at sameGathered
  obtain ⟨sameJobs, sameReferences, sameSources⟩ := sameGathered
  unfold inlineChild
  refine (childFiles_sameUnder alike.files same
    (alike.lineless.files name raw includes hasJob starts)
    (alike.linelessToo.files name rawToo includesToo hasJobToo startsToo) layer.path _).bind
      fun found foundToo opens opensToo sameFiles => ?_
  simp only [ChildFiles.unlined, ChildFiles.mk.injEq] at sameFiles
  obtain ⟨sameEntries, sameOrigins, sameRefs⟩ := sameFiles
  rw [← sameOrigins]
  cases alike.below with
  | none =>
    refine sameUnder_pure ?_
    simp only [Gathered.unlined, sameJobs, sameReferences, sameSources, sameRefs]
  | some below =>
    cases origins : found.origins with
    | nil =>
      refine sameUnder_pure ?_
      simp only [Gathered.unlined, sameJobs, sameReferences, sameSources, sameRefs]
    | cons origin rest =>
      obtain ⟨key, path⟩ := origin
      have made := childLayer_of_origins layer.chain origins
      have madeToo := childLayer_of_origins layer.chain (sameOrigins.symm.trans origins)
      rw [← sameOrigins] at madeToo
      rw [origins] at made madeToo
      -- The keys have one origin in both, so the child pipelines are reached on one chain of files.
      have reads := below _ foundToo.entries
          ⟨name, raw, includes, found, hasJob, starts, opens, made⟩
        ⟨name, rawToo, includesToo, foundToo, hasJobToo, startsToo, opensToo, madeToo⟩ sameEntries
      have shared : (Value.field found.entries "variables").unlined =
          (Value.field foundToo.entries "variables").unlined :=
        Value.field_unlined_congr sameEntries (by decide)
      refine (variablesOf_sameUnder shared).bind fun env envToo _ _ sameEnv => ?_
      refine reads.bind fun child childToo _ _ sameChild => ?_
      simp only [Gathered.unlined, Gathered.mk.injEq] at sameChild
      refine (validate_sameUnder sameChild.1 path).bind fun jobs jobsToo _ _ sameChildJobs => ?_
      refine sameUnder_pure ?_
      simp only [Gathered.unlined, adoptAll_unlined, ← Jobs.ordered_unlined, sameEnv, sameChildJobs,
        sameJobs, sameReferences, sameSources, sameRefs, sameChild.2.1]

theorem triggers_unlined {raw rawToo : Entries}
    (entries : unlinedEntries raw = unlinedEntries rawToo) :
    (Keyed.get? raw (.text "trigger")).map unlined =
      (Keyed.get? rawToo (.text "trigger")).map unlined := by
  rw [← Value.get?_unlinedEntries_text (by decide), entries,
    Value.get?_unlinedEntries_text (by decide)]

theorem withJob_unlined (job : Job) (gathered : Gathered) :
    (withJob job gathered).unlined = withJob job.unlined gathered.unlined := by
  simp only [Gathered.unlined, withJob, Jobs.unlined, Keyed.put_mapValues]
  rfl

def withDownstream (resolve : Resolver) (parse : Option Parsing) (chain : List String)
    (path jobPath : String) (written : Job) (gathered : Gathered) :
      Downstream → Normalizing Gathered
  | .project ref => return withJob { written with package := ref } gathered
  | .child includes =>
    inlineChild resolve parse chain path written.name includes (withJob written gathered)
  | .malformed reason => do
    Noted.note .unknownField jobPath ("trigger of job '" ++ written.name ++ "' " ++ reason)
      (written.name ++ ".trigger")
    return withJob written gathered

theorem addJob_of_trigger {resolve : Resolver} {parse : Option Parsing} {chain : List String}
    {path jobPath : String} {written : Job} {raw : Entries} {trigger : Value}
    (found : Keyed.get? raw (.text "trigger") = some trigger) (gathered : Gathered) :
    addJob resolve parse chain path jobPath written raw gathered =
      liftM (Downstream.ofValue trigger) >>=
        withDownstream resolve parse chain path jobPath written gathered := by
  unfold addJob
  rw [found]
  refine bind_congr_of_outcome fun downstream _ => ?_
  cases downstream <;> rfl

theorem withDownstream_sameUnder (alike : LayersAlike first second parse again layer other)
    {jobPath : String} {written writtenToo : Job} {raw rawToo : Entries}
    (hasJob : layer.HasJob written.name raw)
    (hasJobToo : (layer.withEntries other).HasJob writtenToo.name rawToo)
    (sameWritten : written.unlined = writtenToo.unlined) {gathered gatheredToo : Gathered}
    (sameGathered : gathered.unlined = gatheredToo.unlined) {downstream downstreamToo : Downstream}
    (same : downstream.unlined = downstreamToo.unlined)
    (starts : ∀ includes, downstream = .child includes → Starts raw includes)
    (startsToo : ∀ includes, downstreamToo = .child includes → Starts rawToo includes) :
    SameUnder Gathered.unlined
      (withDownstream first parse layer.chain layer.path jobPath written gathered downstream)
      (withDownstream second again layer.chain layer.path jobPath writtenToo gatheredToo
        downstreamToo) := by
  have sameName : written.name = writtenToo.name := by
    have names := congrArg Job.name sameWritten
    exact names
  have added (job jobToo : Job) (same : job.unlined = jobToo.unlined) :
      (withJob job gathered).unlined = (withJob jobToo gatheredToo).unlined := by
    rw [withJob_unlined, same, sameGathered, withJob_unlined]
  cases downstream with
  | project ref =>
    cases downstreamToo with
    | project refToo =>
      obtain rfl := Downstream.project.inj same
      refine sameUnder_pure (added _ _ ?_)
      exact congrArg (fun job : Job => { job with package := ref }) sameWritten
    | _ => cases same
  | malformed reason =>
    cases downstreamToo with
    | malformed reasonToo =>
      obtain rfl := Downstream.malformed.inj same
      unfold withDownstream
      rw [sameName]
      exact (SameUnder.refl id _).bind fun _ _ _ _ _ => sameUnder_pure (added _ _ sameWritten)
    | _ => cases same
  | child includes =>
    cases downstreamToo with
    | child includesToo =>
      unfold withDownstream
      rw [← sameName] at hasJobToo ⊢
      exact inlineChild_sameUnder alike hasJob hasJobToo (starts includes rfl)
        (startsToo includesToo rfl) (Downstream.child.inj same) (added _ _ sameWritten)
    | _ => cases same

theorem addJob_sameUnder (alike : LayersAlike first second parse again layer other)
    {jobPath : String} {written writtenToo : Job} {raw rawToo : Entries}
    (hasJob : layer.HasJob written.name raw)
    (hasJobToo : (layer.withEntries other).HasJob writtenToo.name rawToo)
    (sameWritten : written.unlined = writtenToo.unlined)
    (sameRaw : unlinedEntries raw = unlinedEntries rawToo)
    {gathered gatheredToo : Gathered} (sameGathered : gathered.unlined = gatheredToo.unlined) :
    SameUnder Gathered.unlined
      (addJob first parse layer.chain layer.path jobPath written raw gathered)
      (addJob second again layer.chain layer.path jobPath writtenToo rawToo gatheredToo) := by
  have triggers := triggers_unlined sameRaw
  cases found : Keyed.get? raw (.text "trigger") with
  | none =>
    rw [found, Option.map_none, eq_comm, Option.map_eq_none_iff] at triggers
    unfold addJob
    rw [found, triggers]
    refine sameUnder_pure ?_
    show (withJob written gathered).unlined = (withJob writtenToo gatheredToo).unlined
    rw [withJob_unlined, sameWritten, sameGathered, withJob_unlined]
  | some trigger =>
    rw [found, Option.map_some, eq_comm, Option.map_eq_some_iff] at triggers
    obtain ⟨triggerToo, foundToo, sameTrigger⟩ := triggers
    have values := alike.lineless.values _ _ hasJob
    have valuesToo := alike.linelessToo.values _ _ hasJobToo
    simp only [allLineless_append] at values valuesToo
    have reads : SameUnder Downstream.unlined (liftM (Downstream.ofValue trigger))
        (liftM (Downstream.ofValue triggerToo)) := by
      refine .of_fault ?_
      rw [← downstream_unlined found values.1.2 values.2, ← sameTrigger,
        downstream_unlined foundToo valuesToo.1.2 valuesToo.2]
    rw [addJob_of_trigger found, addJob_of_trigger foundToo]
    refine reads.bind fun downstream downstreamToo read readToo same => ?_
    rw [outcome_fault, uncaught_eq_ok] at read readToo
    refine withDownstream_sameUnder alike hasJob hasJobToo sameWritten sameGathered same ?_ ?_
    · rintro includes rfl
      exact ⟨trigger, found, read⟩
    · rintro includes rfl
      exact ⟨triggerToo, foundToo, readToo⟩

theorem addJobs_of_no_mapping {resolve : Resolver} {parse : Option Parsing} {chain : List String}
    {path : String} {origins : Keyed String String} {defaults : Entries} {all rest : RawJobs}
    {name : String} {value : Value} (visible : ¬ isHidden name = true)
    (noMapping : Field.isMapping value = false) (gathered : Gathered) :
    addJobs resolve parse chain path origins defaults all ((name, value) :: rest) gathered =
      (do
        Noted.note .unknownField ((origins.get? name).getD path)
          ("unknown top-level key '" ++ name ++ "'") name
        addJobs resolve parse chain path origins defaults all rest gathered) := by
  rw [addJobs, if_neg visible]
  cases value with
  | map entries => cases noMapping
  | _ => rfl

theorem isMapping_unlined (value : Value) :
    Field.isMapping value.unlined = Field.isMapping value := by
  cases value <;> rfl

theorem eq_map_of_isMapping {value : Value} (isMapping : Field.isMapping value = true) :
    ∃ entries, value = .map entries := by
  cases value with
  | map entries => exact ⟨entries, rfl⟩
  | _ => cases isMapping

theorem resolveExtends_sameUnder {jobs jobsToo : RawJobs} {name : String}
    (same : Keyed.mapValues unlined jobs = Keyed.mapValues unlined jobsToo)
    (lineless : BasesLineless jobs name) (linelessToo : BasesLineless jobsToo name)
    (path : String) :
    SameUnder unlinedEntries (resolveExtends jobs path name)
      (resolveExtends jobsToo path name) := by
  refine .of_read (resolveExtends_unlined lineless) ?_
  rw [same]
  exact resolveExtends_unlined linelessToo

theorem job_sameUnder {raw rawToo defaults defaultsToo : Entries}
    (sameRaw : unlinedEntries raw = unlinedEntries rawToo)
    (sameDefaults : unlinedEntries defaults = unlinedEntries defaultsToo)
    (lineless : AllLineless (jobValues raw defaults))
    (linelessToo : AllLineless (jobValues rawToo defaultsToo)) (path name : String)
    {jobs jobsToo : Jobs} (sameJobs : jobs.unlined = jobsToo.unlined) :
    SameUnder Job.unlined (job path name jobs.length raw defaults)
      (job path name jobsToo.length rawToo defaultsToo) := by
  have length : jobs.length = jobsToo.length := by
    rw [← Keyed.length_mapValues Job.unlined jobs, ← Keyed.length_mapValues Job.unlined jobsToo]
    exact congrArg List.length sameJobs
  refine .of_read (job_unlined path name jobs.length lineless) ?_
  rw [sameRaw, sameDefaults, length]
  exact job_unlined path name jobsToo.length linelessToo

theorem addJobs_job_sameUnder (alike : LayersAlike first second parse again layer other)
    {jobs jobsToo rest restToo : RawJobs} {name : String} {own ownToo : Entries}
    (sameJobs : Keyed.mapValues unlined jobs = Keyed.mapValues unlined jobsToo)
    (names : layer.Names jobs name) (namesToo : (layer.withEntries other).Names jobsToo name)
    (later : ∀ reached reachedToo, reached.unlined = reachedToo.unlined → SameUnder Gathered.unlined
      (addJobs first parse layer.chain layer.path layer.origins (defaultsOf layer.entries) jobs rest
        reached)
      (addJobs second again layer.chain layer.path layer.origins (defaultsOf other) jobsToo restToo
        reachedToo))
    {gathered gatheredToo : Gathered} (sameGathered : gathered.unlined = gatheredToo.unlined) :
    SameUnder Gathered.unlined
      (addJobs first parse layer.chain layer.path layer.origins (defaultsOf layer.entries) jobs
        ((name, .map own) :: rest) gathered)
      (addJobs second again layer.chain layer.path layer.origins (defaultsOf other) jobsToo
        ((name, .map ownToo) :: restToo) gatheredToo) := by
  simp only [Gathered.unlined, Gathered.mk.injEq] at sameGathered
  obtain ⟨sameGatheredJobs, sameReferences, sameSources⟩ := sameGathered
  have sameDefaults : unlinedEntries (defaultsOf layer.entries) =
      unlinedEntries (defaultsOf other) := by
    rw [← defaultsOf_unlined, alike.entries, defaultsOf_unlined]
  simp only [addJobs]
  rw [if_neg names.2.1, if_neg names.2.1]
  refine (resolveExtends_sameUnder sameJobs (alike.lineless.bases _ _ names)
    (alike.linelessToo.bases _ _ namesToo) _).bind fun raw rawToo extended extendedToo sameRaw => ?_
  -- From here on both jobs are known with what they extend, and that shows no line.
  have hasJob : layer.HasJob name raw := ⟨jobs, names, extended⟩
  have hasJobToo : (layer.withEntries other).HasJob name rawToo := ⟨jobsToo, namesToo, extendedToo⟩
  have values := alike.lineless.values _ _ hasJob
  have valuesToo := alike.linelessToo.values _ _ hasJobToo
  simp only [allLineless_append] at values valuesToo
  refine (job_sameUnder sameRaw sameDefaults values.1.1.1 valuesToo.1.1.1 _ name
    sameGatheredJobs).bind fun written writtenToo wrote wroteToo sameWritten => ?_
  rw [← (job_identity wrote).1] at hasJob
  rw [← (job_identity wroteToo).1] at hasJobToo
  have only : onlySources (Value.field raw "only") = onlySources (Value.field rawToo "only") := by
    rw [← onlySources_unlined values.1.1.2, Value.field_unlined_congr sameRaw (by decide),
      onlySources_unlined valuesToo.1.1.2]
  have rules : rulesSources (.map raw) = rulesSources (.map rawToo) := by
    rw [← rulesSources_unlined, Value.unlined_map, sameRaw,
      ← Value.unlined_map, rulesSources_unlined]
  have sources (kept : List String) :
      (withSources raw kept gathered).unlined = (withSources rawToo kept gatheredToo).unlined := by
    simp only [Gathered.unlined, withSources, sameGatheredJobs, sameReferences, sameSources, rules]
  rw [← only]
  refine (SameUnder.refl id _).bind fun kept _ _ _ sameKept => ?_
  obtain rfl : kept = _ := sameKept
  exact (addJob_sameUnder alike hasJob hasJobToo sameWritten sameRaw (sources kept)).bind
    fun _ _ _ _ sameReached => later _ _ sameReached

theorem addJobs_sameUnder (alike : LayersAlike first second parse again layer other)
    {jobs jobsToo : RawJobs}
    (sameJobs : Keyed.mapValues unlined jobs = Keyed.mapValues unlined jobsToo)
    (named : rawJobsOf layer.entries = .ok jobs) (namedToo : rawJobsOf other = .ok jobsToo)
    {rest restToo : RawJobs}
    (sameRest : Keyed.mapValues unlined rest = Keyed.mapValues unlined restToo)
    (inside : rest ⊆ jobs) (insideToo : restToo ⊆ jobsToo) {gathered gatheredToo : Gathered}
    (sameGathered : gathered.unlined = gatheredToo.unlined) :
    SameUnder Gathered.unlined
      (addJobs first parse layer.chain layer.path layer.origins (defaultsOf layer.entries) jobs rest
        gathered)
      (addJobs second again layer.chain layer.path layer.origins (defaultsOf other) jobsToo restToo
        gatheredToo) := by
  induction rest generalizing restToo gathered gatheredToo with
  | nil =>
    cases restToo with
    | nil => exact sameUnder_pure sameGathered
    | cons entry rest => cases sameRest
  | cons entry rest ih =>
    cases restToo with
    | nil => cases sameRest
    | cons entryToo restToo =>
      obtain ⟨name, value⟩ := entry
      obtain ⟨nameToo, valueToo⟩ := entryToo
      simp only [Keyed.mapValues_cons, List.cons.injEq, Prod.mk.injEq] at sameRest
      obtain ⟨⟨rfl, sameValue⟩, sameRest⟩ := sameRest
      obtain ⟨here, others⟩ := List.cons_subset.mp inside
      obtain ⟨hereToo, othersToo⟩ := List.cons_subset.mp insideToo
      have later (gathered gatheredToo : Gathered)
          (same : gathered.unlined = gatheredToo.unlined) :=
        ih sameRest others othersToo same
      have mapping := isMapping_unlined value
      rw [sameValue, isMapping_unlined] at mapping
      by_cases hidden : isHidden name = true
      · rw [addJobs, if_pos hidden, addJobs, if_pos hidden]
        exact later _ _ sameGathered
      · cases isMapping : Field.isMapping value with
        | false =>
          rw [isMapping] at mapping
          rw [addJobs_of_no_mapping hidden isMapping, addJobs_of_no_mapping hidden mapping]
          exact (SameUnder.refl id _).bind fun _ _ _ _ _ => later _ _ sameGathered
        | true =>
          rw [isMapping] at mapping
          obtain ⟨own, rfl⟩ := eq_map_of_isMapping isMapping
          obtain ⟨ownToo, rfl⟩ := eq_map_of_isMapping mapping
          exact addJobs_job_sameUnder alike sameJobs ⟨named, hidden, own, here⟩
            ⟨namedToo, hidden, ownToo, hereToo⟩ later sameGathered

theorem gatherWith_sameUnder (alike : LayersAlike first second parse again layer other) :
    SameUnder Gathered.unlined
      (gatherWith first parse layer.chain layer.path layer.origins layer.entries)
      (gatherWith second again layer.chain layer.path layer.origins other) := by
  have named : SameUnder (Keyed.mapValues unlined) (liftM (rawJobsOf layer.entries))
      (liftM (rawJobsOf other)) :=
    .of_fault (by rw [← rawJobsOf_unlined, alike.entries, rawJobsOf_unlined])
  have sources : rulesSources (Value.field layer.entries "workflow") =
      rulesSources (Value.field other "workflow") := by
    rw [← rulesSources_unlined, Value.field_unlined_congr alike.entries (by decide),
      rulesSources_unlined]
  refine named.bind fun jobs jobsToo found foundToo sameJobs => ?_
  rw [outcome_fault, uncaught_eq_ok] at found foundToo
  rw [sources]
  exact addJobs_sameUnder alike sameJobs found foundToo sameJobs (List.Subset.refl _)
    (List.Subset.refl _) rfl

end Jobs

/-- Configurations that differ in nothing but lines are gathered alike, down to the last of the
child pipelines below them. -/
theorem gather_sameUnder {first second : Resolver} (files : FilesAlike first second) {layer : Layer}
    {other : Entries} (entries : unlinedEntries layer.entries = unlinedEntries other)
    (lineless : ∀ last, Relation.ReflTransGen (Layer.Triggers first) layer last →
      last.IsLineless first)
    (linelessToo : ∀ last, Relation.ReflTransGen (Layer.Triggers second) (layer.withEntries other)
      last → last.IsLineless second) (levels : Nat) :
    SameUnder Gathered.unlined
      (gather first levels layer.chain layer.path layer.origins layer.entries)
      (gather second levels layer.chain layer.path layer.origins other) := by
  induction levels generalizing layer other with
  | zero =>
    exact gatherWith_sameUnder ⟨files, entries, lineless _ .refl, linelessToo _ .refl, .none⟩
  | succ levels ih =>
    refine gatherWith_sameUnder ⟨files, entries, lineless _ .refl, linelessToo _ .refl, .some ?_⟩
    intro child others triggers triggersToo same
    exact ih same (fun last reached => lineless last (.head triggers reached))
      fun last reached => linelessToo last (.head triggersToo reached)

/-- There are no lines in the values of a document whose text is taken, nor in those that are kept
as a ref: in what it includes, and in its jobs and those of all child pipelines below it. -/
structure EntriesLineless (resolve : Resolver) (path : String) (raw : Entries) : Prop where
  includes : IncludesLineless resolve ⟨[path], raw⟩
  layers : ∀ merged, outcome (merge resolve path (maxFiles - 1) [path] raw) = .ok merged →
    ∀ layer, Relation.ReflTransGen (Layer.Triggers resolve)
      ⟨[path], path, [], merged.entries⟩ layer →
      layer.IsLineless resolve

theorem pipelineOf_sameUnder {first second : Resolver} (files : FilesAlike first second)
    {path : String} {raw other : Entries} (entries : unlinedEntries raw = unlinedEntries other)
    (lineless : EntriesLineless first path raw) (linelessToo : EntriesLineless second path other) :
    SameUnder Pipeline.unlined (pipelineOf first path raw) (pipelineOf second path other) := by
  refine (merge_sameUnder files entries lineless.includes linelessToo.includes path rfl).bind
    fun merged mergedToo included includedToo sameMerged => ?_
  simp only [Merged.unlined, Merged.mk.injEq] at sameMerged
  obtain ⟨sameEntries, sameReferences⟩ := sameMerged
  have shared : (Value.field merged.entries "variables").unlined =
      (Value.field mergedToo.entries "variables").unlined :=
    Value.field_unlined_congr sameEntries (by decide)
  refine (variablesOf_sameUnder shared).bind fun env envToo _ _ sameEnv => ?_
  refine (@gather_sameUnder _ _ files ⟨[path], path, [], merged.entries⟩ _ sameEntries
    (lineless.layers merged included) (linelessToo.layers mergedToo includedToo) maxFiles).bind
      fun gathered gatheredToo _ _ sameGathered => ?_
  simp only [Gathered.unlined, Gathered.mk.injEq] at sameGathered
  obtain ⟨sameGatheredJobs, sameGatheredReferences, sameSources⟩ := sameGathered
  rw [← sameSources]
  refine (SameUnder.refl id _).bind fun started _ _ _ sameStarted => ?_
  obtain rfl : started = _ := sameStarted
  refine (validate_sameUnder sameGatheredJobs path).bind fun jobs jobsToo _ _ sameJobs => ?_
  refine sameUnder_pure ?_
  simp only [Pipeline.unlined, sameJobs, sameEnv, sameReferences, sameGatheredReferences]

theorem normalize_sameUnder {first second : Resolver} (files : FilesAlike first second)
    {path : String} {content other : List UInt8} (alike : LoadAlike content other)
    (lineless : ∀ raw, outcome (configuration path content) = .ok (some raw) →
      EntriesLineless first path raw)
    (linelessToo : ∀ raw, outcome (configuration path other) = .ok (some raw) →
      EntriesLineless second path raw) :
    SameUnder Pipeline.unlined (normalize first path content) (normalize second path other) := by
  exact (configuration_sameUnder path alike).bindOption (.refl _ _)
    fun raw rawToo loaded loadedToo entries =>
      pipelineOf_sameUnder files entries (lineless raw loaded) (linelessToo rawToo loadedToo)

end SupplyLint.Gitlab
