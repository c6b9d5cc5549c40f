import SupplyLint.Proofs.Gitlab.Returns
import SupplyLint.Proofs.Origin

/-! # Where the jobs of configurations are written

`normalize_origins`: every job of a configuration is written in the configuration
itself or in a child pipeline that is reached from it by triggers, and it is
reported in the file that first has its key there. -/
set_option autoImplicit false

namespace SupplyLint.Gitlab

open SupplyLint.Jobs

/-- A job is written in a mapping of a configuration, with the jobs that it extends. Its steps are
lines of scripts and have no places of their own. -/
structure WrittenIn (layer : Layer) (found : Job) : Prop where
  path : found.originPath = layer.jobPath found.originName
  mapping : ∃ raw, layer.HasJob found.originName raw ∧ found.line = Field.line (.map raw)
  steps : ∀ step ∈ found.steps, step.line = none

/-- A job is written in a configuration or in one that is reached from it by triggers. -/
def Reaches (resolve : Resolver) (layer : Layer) (found : Job) : Prop :=
  ∃ last, Relation.ReflTransGen (Layer.Triggers resolve) layer last ∧ WrittenIn last found

theorem WrittenIn.of_sameSource {layer : Layer} {first second : Job}
    (written : WrittenIn layer first)
    (same : first.SameSource second) : WrittenIn layer second := by
  obtain ⟨path, ⟨raw, hasJob, line⟩, steps⟩ := written
  rw [same.originPath, same.originName] at path
  rw [same.steps] at steps
  exact ⟨path, ⟨raw, same.originName ▸ hasJob, same.line.symm.trans line⟩, steps⟩

def Layer.TriggersAs (resolve : Resolver) (layer : Layer) (caller : String)
    (child : Layer) : Prop :=
  ∃ raw includes files, layer.HasJob caller raw ∧ Starts raw includes ∧
    openedFiles resolve layer.chain layer.path caller includes = .ok files ∧
    childLayer layer.chain files = some child

theorem Layer.TriggersAs.triggers {resolve : Resolver} {layer child : Layer} {caller : String}
    (triggers : layer.TriggersAs resolve caller child) : layer.Triggers resolve child :=
  ⟨caller, triggers⟩

/-- A job is written in a configuration to which callers lead, and its name begins with theirs. -/
def ComesThrough (resolve : Resolver) (layer : Layer) (callers : List String)
    (found : Job) : Prop :=
  ∃ last, Way (Layer.TriggersAs resolve) layer callers last ∧ WrittenIn last found ∧
    found.name = underCallers callers found.originName

def Comes (resolve : Resolver) (layer : Layer) (found : Job) : Prop :=
  ∃ callers, ComesThrough resolve layer callers found

theorem Comes.reaches {resolve : Resolver} {layer : Layer} {found : Job}
    (comes : Comes resolve layer found) : Reaches resolve layer found := by
  obtain ⟨callers, last, way, written, -⟩ := comes
  exact ⟨last, way.reached fun _ _ _ triggers => triggers.triggers, written⟩

theorem comes_ofPlace (resolve : Resolver) (layer : Layer) : IsOfPlace (Comes resolve layer) := by
  rintro first second same name ⟨callers, last, way, written, named⟩
  refine ⟨callers, last, way, written.of_sameSource same, ?_⟩
  rw [← name, ← same.originName]
  exact named

theorem writtenIn_of_job {layer : Layer} {name : String} {index : Nat} {raw defaults : Entries}
    {written : Job} (hasJob : layer.HasJob name raw)
    (wrote : outcome (job (layer.jobPath name) name index raw defaults) = .ok written) :
    WrittenIn layer written := by
  obtain ⟨lines, waited, labels, env, linesRead, -, -, -, rfl⟩ := job_eq_ok wrote
  refine ⟨rfl, ⟨raw, hasJob, rfl⟩, fun step member => ?_⟩
  simp only [steps, bind_eq_ok, pure_eq_ok] at linesRead
  obtain ⟨named, -, rfl⟩ := linesRead
  obtain ⟨written, -, rfl⟩ := List.mem_map.mp member
  rfl

/-- A child pipeline holds what its files hold, and its jobs are reported in these. -/
structure IsChild (files : ChildFiles) (child : Layer) : Prop where
  entries : child.entries = files.entries
  origins : child.origins = files.origins
  jobPath : ∀ name, child.jobPath name ∈ child.origins.values

theorem childLayer_eq_some {chain : List String} {files : ChildFiles} {child : Layer}
    (made : childLayer chain files = some child) : IsChild files child := by
  obtain ⟨key, first, rest, origins, rfl⟩ := exists_origin_of_childLayer made
  refine ⟨rfl, rfl, fun name => ?_⟩
  unfold Layer.jobPath
  dsimp only
  rw [origins]
  cases found : Keyed.get? ((key, first) :: rest) name with
  | none => exact List.mem_cons_self
  | some path => exact List.mem_map_of_mem (Keyed.mem_of_get?_eq_some found)

section Step
variable {resolve : Resolver} {parse : Option Parsing} {layer : Layer} {holds : Job → Prop}

/-- What holds of the jobs of every child pipeline that a configuration triggers, once its jobs have
them. -/
def HoldsBelow (resolve : Resolver) (parse : Option Parsing) (layer : Layer) (holds : Job → Prop) :
    Prop :=
  ∀ caller child, layer.TriggersAs resolve caller child → ∀ read, parse = some read → ∀ gathered,
    outcome (read child.chain child.path child.origins child.entries) = .ok gathered →
    ∀ shared, Every (fun job => holds (adopted caller shared job)) gathered.jobs

theorem IsOfPlace.adopted (ofPlace : IsOfPlace holds) (caller : String)
    (shared : Keyed String Value) : IsOfPlace fun job => holds (adopted caller shared job) :=
  fun _ _ same name => ofPlace _ _ ⟨same.originPath, same.originName, same.line, same.steps⟩
    (congrArg (caller ++ "/" ++ ·) name)

theorem every_inlineChild (ofPlace : IsOfPlace holds)
    (below : HoldsBelow resolve parse layer holds) {name : String}
    {raw : Entries} {includes : Value}
    (hasJob : layer.HasJob name raw) (starts : Starts raw includes) {gathered result : Gathered}
    (every : Every holds gathered.jobs)
    (read : outcome (inlineChild resolve parse layer.chain layer.path name includes gathered) =
      .ok result) : Every holds result.jobs := by
  obtain ⟨files, opens, ⟨-, rfl⟩ | ⟨childOf, key, first, rest, shared, child, parses, origins,
    childRead, -, rfl⟩⟩ := inlineChild_eq_ok read
  · exact every
  · have made := childLayer_of_origins layer.chain origins
    have inner := below name _ ⟨raw, includes, files, hasJob, starts, opens, made⟩ childOf parses
      child childRead shared
    have loose := (IsOfPlace.adopted ofPlace name shared).ignoresOrder
    exact every.adoptAll ofPlace.ignoresOrder (inner.validate loose first)

theorem every_addJob (ofPlace : IsOfPlace holds) (below : HoldsBelow resolve parse layer holds)
    {jobPath : String} {raw : Entries} {written : Job} (hasJob : layer.HasJob written.name raw)
    (own : holds written) {gathered result : Gathered} (every : Every holds gathered.jobs)
    (read : outcome (addJob resolve parse layer.chain layer.path jobPath written raw gathered) =
      .ok result) : Every holds result.jobs := by
  have added : Every holds (withJob written gathered).jobs := every.put written.name own
  rcases addJob_eq_ok read with ⟨-, rfl⟩ | ⟨trigger, downstream, found, starts, read⟩
  · exact added
  · cases downstream with
    | project ref =>
      obtain rfl := read
      exact every.put written.name (ofPlace written _ ⟨rfl, rfl, rfl, rfl⟩ rfl own)
    | malformed reason =>
      obtain rfl := read
      exact added
    | child includes =>
      exact every_inlineChild ofPlace below hasJob ⟨trigger, found, starts⟩ added read

theorem every_addJobs (ofPlace : IsOfPlace holds) (below : HoldsBelow resolve parse layer holds)
    (written : ∀ found, WrittenIn layer found → found.name = found.originName → holds found)
    {jobs : RawJobs}
    (named : rawJobsOf layer.entries = .ok jobs) (entries : RawJobs) (inside : entries ⊆ jobs)
    {gathered result : Gathered} (every : Every holds gathered.jobs)
    (read : outcome (addJobs resolve parse layer.chain layer.path layer.origins
      (defaultsOf layer.entries) jobs entries gathered) = .ok result) :
        Every holds result.jobs := by
  refine addJobs_keeps (fun gathered => Every holds gathered.jobs) entries ?_ every read
  intro name value member visible raw own kept before reached extended wrote added every
  have hasJob : layer.HasJob name raw := ⟨jobs, ⟨named, visible, value, inside member⟩, extended⟩
  have source := writtenIn_of_job hasJob wrote
  have sameName : own.name = own.originName := by
    obtain ⟨lines, waited, labels, env, -, -, -, -, rfl⟩ := job_eq_ok wrote
    rfl
  obtain ⟨rfl, -⟩ := job_identity wrote
  have sourced : Every holds (withSources raw kept before).jobs := every
  exact every_addJob ofPlace below hasJob (written own source sameName) sourced added

theorem every_gatherWith (ofPlace : IsOfPlace holds) (below : HoldsBelow resolve parse layer holds)
    (written : ∀ found, WrittenIn layer found → found.name = found.originName → holds found)
    {gathered : Gathered}
    (read : outcome (gatherWith resolve parse layer.chain layer.path layer.origins layer.entries) =
      .ok gathered) : Every holds gathered.jobs := by
  obtain ⟨jobs, named, read⟩ := gatherWith_eq_ok read
  exact every_addJobs ofPlace below written named jobs (List.Subset.refl jobs) every_nil read

end Step

theorem gather_comes {resolve : Resolver} (levels : Nat) {layer : Layer} {gathered : Gathered}
    (read : outcome (gather resolve levels layer.chain layer.path layer.origins layer.entries) =
      .ok gathered) : Every (Comes resolve layer) gathered.jobs := by
  have own (layer : Layer) (found : Job) (written : WrittenIn layer found)
      (named : found.name = found.originName) : Comes resolve layer found :=
    ⟨[], layer, .here layer, written, named⟩
  induction levels generalizing layer gathered with
  | zero =>
    refine every_gatherWith (comes_ofPlace resolve layer) ?_ (own layer) read
    intro caller child triggers read none
    cases none
  | succ levels ih =>
    refine every_gatherWith (comes_ofPlace resolve layer) ?_ (own layer) read
    intro caller child triggers read same gathered childRead shared
    obtain rfl := Option.some.inj same
    refine (ih childRead).imp ?_
    rintro job ⟨callers, last, way, written, named⟩
    refine ⟨caller :: callers, last, .through triggers way,
      written.of_sameSource ⟨rfl, rfl, rfl, rfl⟩, ?_⟩
    exact congrArg (caller ++ "/" ++ ·) named

/-- The configuration of a document, with all that it includes. -/
def TopLayer (resolve : Resolver) (path : String) (content : List UInt8) (layer : Layer) : Prop :=
  ∃ raw merged, outcome (configuration path content) = .ok (some raw) ∧
    outcome (merge resolve path (maxFiles - 1) [path] raw) = .ok merged ∧
    layer = ⟨[path], path, [], merged.entries⟩

theorem normalize_comes {resolve : Resolver} {path : String} {content : List UInt8}
    {pipeline : Pipeline} (read : outcome (normalize resolve path content) = .ok pipeline) :
    Every (fun job => ∃ layer, TopLayer resolve path content layer ∧ Comes resolve layer job)
      pipeline.jobs := by
  rcases normalize_eq_ok_iff.mp read with ⟨-, rfl⟩ |
      ⟨raw, merged, env, gathered, loaded, included, -, gathers, rfl⟩
  · exact every_nil
  · have comes : Every (Comes resolve ⟨[path], path, [], merged.entries⟩) gathered.jobs :=
      gather_comes maxFiles gathers
    refine (comes.validate (comes_ofPlace resolve _).ignoresOrder path).imp ?_
    exact fun job comes => ⟨_, ⟨raw, merged, loaded, included, rfl⟩, comes⟩

theorem normalize_origins {resolve : Resolver} {path : String} {content : List UInt8}
    {pipeline : Pipeline} (read : outcome (normalize resolve path content) = .ok pipeline) :
    Every (fun job => ∃ layer, TopLayer resolve path content layer ∧ Reaches resolve layer job)
      pipeline.jobs :=
  (normalize_comes read).imp fun _ ⟨layer, top, comes⟩ => ⟨layer, top, comes.reaches⟩

theorem normalize_path {resolve : Resolver} {path : String} {content : List UInt8}
    {pipeline : Pipeline} (read : outcome (normalize resolve path content) = .ok pipeline) :
    pipeline.path = path := by
  rcases normalize_eq_ok_iff.mp read with ⟨-, rfl⟩ | ⟨_, _, _, _, -, -, -, -, rfl⟩
  · rfl
  · rfl

end SupplyLint.Gitlab
