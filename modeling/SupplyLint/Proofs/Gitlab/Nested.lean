import SupplyLint.Proofs.Gitlab.Inlining
import SupplyLint.Proofs.Gitlab.JobNames
import SupplyLint.Proofs.Gitlab.Trails

/-! # Jobs of nested child pipelines

No job is lost on the way up. `mem_keys_normalize`: a job of a child pipeline, however deep it is
nested, stands among the jobs of the pipeline under its name and those of its callers. -/
set_option autoImplicit false

namespace SupplyLint.Jobs

theorem mem_keys_place {jobs : Jobs} {job : Job} {name : String} :
    name ∈ (jobs.place job).keys ↔ name ∈ jobs.keys ∨ name = job.name := by
  rw [place, Keyed.keys_put, mem_addNew]

theorem mem_keys_placeAll (more : List Job) {jobs : Jobs} {name : String} :
    name ∈ (more.foldl Jobs.place jobs).keys ↔ name ∈ jobs.keys ∨
      ∃ job ∈ more, name = job.name := by
  induction more generalizing jobs with
  | nil => simp
  | cons job rest ih => simp [ih, mem_keys_place, or_assoc]

theorem keys_validate (jobs : Jobs) (path : String) :
    (Needs.validate jobs path).value.keys = jobs.keys := by
  simp [Needs.validate, Needs.dropUnknown_value, Needs.withNeeds, Keyed.keys]

theorem exists_ordered_of_mem_keys {names : List String} {jobs : Jobs} (placed : Placed names jobs)
    (path : String) {name : String} (inside : name ∈ jobs.keys) :
    ∃ job ∈ (Needs.validate jobs path).value.ordered, job.name = name := by
  rw [← keys_validate jobs path] at inside
  obtain ⟨⟨key, job⟩, member, rfl⟩ := List.mem_map.mp inside
  refine ⟨job, ?_, ((placed.validate path).keyed.named _ member).symm⟩
  rw [Jobs.ordered, List.mem_mergeSort]
  exact List.mem_map_of_mem member

end SupplyLint.Jobs

namespace SupplyLint.Gitlab

open SupplyLint.Jobs

section Keys
variable {resolve : Resolver} {parse : Option Parsing} {layer : Layer}
variable {gathered result : Gathered}

theorem keys_subset_inlineChild {name : String} {includes : Value}
    (read : outcome (inlineChild resolve parse layer.chain layer.path name includes gathered) =
      .ok result) : gathered.jobs.keys ⊆ result.jobs.keys := by
  intro key inside
  obtain ⟨files, -, ⟨-, rfl⟩ | ⟨_, _, first, _, shared, child, -, -, -, -, rfl⟩⟩ :=
    inlineChild_eq_ok read
  · exact inside
  · exact (mem_keys_placeAll _).mpr (Or.inl inside)

theorem keys_subset_addJob {written : Job} {jobPath : String} {raw : Entries}
    (read : outcome (addJob resolve parse layer.chain layer.path jobPath written raw gathered) =
      .ok result) :
    gathered.jobs.keys ⊆ result.jobs.keys ∧ written.name ∈ result.jobs.keys := by
  have own (job : Job) (named : job.name = written.name) :
      gathered.jobs.keys ⊆ (withJob job gathered).jobs.keys ∧
        written.name ∈ (withJob job gathered).jobs.keys := by
    rw [withJob, Keyed.keys_put, ← named]
    exact ⟨fun key inside => mem_addNew.mpr (Or.inl inside), mem_addNew.mpr (Or.inr rfl)⟩
  rcases addJob_eq_ok read with ⟨-, rfl⟩ | ⟨trigger, downstream, -, -, read⟩
  · exact own written rfl
  · cases downstream with
    | project ref =>
      obtain rfl := read
      exact own { written with package := ref } rfl
    | malformed reason =>
      obtain rfl := read
      exact own written rfl
    | child includes =>
      have more := keys_subset_inlineChild read
      exact ⟨List.Subset.trans (own written rfl).1 more, more (own written rfl).2⟩

theorem mem_keys_inlineChild {name found : String} {raw : Entries} {includes : Value}
    (hasJob : layer.HasJob name raw) (starts : Starts raw includes)
    (brings : Brings resolve parse layer name found) (own : name ∈ gathered.jobs.keys)
    (read : outcome (inlineChild resolve parse layer.chain layer.path name includes gathered) =
      .ok result) : found ∈ result.jobs.keys := by
  rcases brings with rfl | ⟨_, _, files, child, childOf, inner, again, starts', opens, made, parses,
    childRead, job, member, rfl⟩
  · exact keys_subset_inlineChild read own
  · obtain rfl := hasJob.unique again
    obtain rfl := starts.unique starts'
    obtain ⟨_, first, _, origins, rfl⟩ := exists_origin_of_childLayer made
    obtain ⟨_, same,
        ⟨nothing, -⟩ | ⟨_, _, _, _, shared, _, parsesToo, originsToo, readToo, -, rfl⟩⟩ :=
      inlineChild_eq_ok read
    · obtain rfl := Except.ok.inj (opens.symm.trans same)
      rcases nothing with none | none
      · cases parses.symm.trans none
      · cases origins.symm.trans none
    · obtain rfl := Except.ok.inj (opens.symm.trans same)
      obtain rfl := Option.some.inj (parses.symm.trans parsesToo)
      obtain ⟨⟨rfl, rfl⟩, rfl⟩ :=
          List.cons.inj (origins.symm.trans originsToo) |>.imp_left Prod.mk.inj
      obtain rfl := Except.ok.inj (childRead.symm.trans readToo)
      exact (mem_keys_placeAll _).mpr (Or.inr ⟨_, List.mem_map_of_mem member, rfl⟩)

theorem mem_keys_addJob {written : Job} {jobPath found : String} {raw : Entries}
    (hasJob : layer.HasJob written.name raw)
    (brings : Brings resolve parse layer written.name found)
    (read : outcome (addJob resolve parse layer.chain layer.path jobPath written raw gathered) =
      .ok result) : found ∈ result.jobs.keys := by
  obtain rfl | ⟨again, includes, files, child, _, _, hasJob', starts, rest⟩ := id brings
  · exact (keys_subset_addJob read).2
  · obtain rfl := hasJob.unique hasJob'
    rw [addJob_of_starts starts] at read
    refine mem_keys_inlineChild hasJob starts brings ?_ read
    rw [withJob, Keyed.keys_put]
    exact mem_addNew.mpr (Or.inr rfl)

theorem keys_subset_addJobs {origins : Keyed String String} {defaults : Entries} {all : RawJobs}
    (entries : RawJobs)
    (read : outcome (addJobs resolve parse layer.chain layer.path origins defaults all entries
      gathered) = .ok result) : gathered.jobs.keys ⊆ result.jobs.keys := by
  refine addJobs_keeps (fun reached => gathered.jobs.keys ⊆ reached.jobs.keys) entries ?_
    (List.Subset.refl _) read
  intro name value _ _ raw written kept before reached _ _ added inside
  exact List.Subset.trans inside (keys_subset_addJob added).1

theorem mem_keys_addJobs {jobs : RawJobs} (named : rawJobsOf layer.entries = .ok jobs)
    (entries : RawJobs) (inside : entries ⊆ jobs) {name found : String}
    (visible : ¬ isHidden name = true) (isMap : ∃ raw, (name, .map raw) ∈ entries)
    (brings : Brings resolve parse layer name found)
    (read : outcome (addJobs resolve parse layer.chain layer.path layer.origins
      (defaultsOf layer.entries) jobs entries gathered) = .ok result) :
    found ∈ result.jobs.keys := by
  induction entries generalizing gathered with
  | nil =>
    obtain ⟨_, none⟩ := isMap
    exact absurd none List.not_mem_nil
  | cons entry rest ih =>
    obtain ⟨other, value⟩ := entry
    obtain ⟨here, later⟩ := List.cons_subset.mp inside
    obtain ⟨own, member⟩ := isMap
    rcases List.mem_cons.mp member with same | behind
    · obtain ⟨rfl, rfl⟩ := Prod.mk.inj same
      obtain ⟨raw, written, kept, reached, extended, wrote, added, rests⟩ :=
          addJobs_cons visible read
      have hasJob : layer.HasJob name raw := ⟨jobs, ⟨named, visible, own, here⟩, extended⟩
      obtain ⟨rfl, -⟩ := job_identity wrote
      exact keys_subset_addJobs rest rests (mem_keys_addJob hasJob brings added)
    · by_cases noJob : isHidden other = true ∨ ¬ ∃ entries, value = .map entries
      · exact ih later ⟨own, behind⟩ (addJobs_skip noJob read)
      · rw [not_or, not_not] at noJob
        obtain ⟨otherVisible, entries, rfl⟩ := noJob
        obtain ⟨_, _, _, reached, -, -, -, rests⟩ := addJobs_cons otherVisible read
        exact ih later ⟨own, behind⟩ rests

theorem mem_keys_gatherWith {name found : String} {raw : Entries} (hasJob : layer.HasJob name raw)
    (brings : Brings resolve parse layer name found)
    (read : outcome (gatherWith resolve parse layer.chain layer.path layer.origins layer.entries) =
      .ok gathered) : found ∈ gathered.jobs.keys := by
  obtain ⟨jobs, named, read⟩ := gatherWith_eq_ok read
  obtain ⟨_, ⟨same, visible, isMap⟩, -⟩ := hasJob
  obtain rfl := Except.ok.inj (named.symm.trans same)
  exact mem_keys_addJobs named jobs (List.Subset.refl _) visible isMap brings read

end Keys

theorem mem_keys_gather {resolve : Resolver} {levels : Nat} {layer last : Layer}
    {callers : List String} (way : Way (Layer.TriggersAs resolve) layer callers last)
    (enough : maxFiles < levels + layer.chain.length) {name : String} {raw : Entries}
    (hasJob : last.HasJob name raw) {gathered : Gathered}
    (read : outcome (gather resolve levels layer.chain layer.path layer.origins layer.entries) =
      .ok gathered) : underCallers callers name ∈ gathered.jobs.keys := by
  induction way generalizing levels gathered with
  | here layer =>
    cases levels with
    | zero => exact mem_keys_gatherWith hasJob (Or.inl rfl) read
    | succ levels => exact mem_keys_gatherWith hasJob (Or.inl rfl) read
  | @through layer child last caller callers first later ih =>
    have longer := first.triggers.length
    cases levels with
    | zero => omega
    | succ levels =>
      have enoughBelow : maxFiles < levels + child.chain.length := by omega
      have readable := (returns_gather resolve (levels + 1) layer enough).mp ⟨gathered, read⟩
      obtain ⟨inner, childRead⟩ := (returns_gather resolve levels child enoughBelow).mpr
        ((forall_reached_iff.mp readable).2 child first.triggers)
      obtain ⟨names, -, placed⟩ := gather_placed resolve levels _ _ _ _ _ childRead
      obtain ⟨job, member, named⟩ := exists_ordered_of_mem_keys placed child.path
        (ih enoughBelow hasJob childRead)
      obtain ⟨raw, includes, files, callerJob, starts, opens, made⟩ := first
      refine mem_keys_gatherWith callerJob (Or.inr ⟨raw, includes, files, child,
        gather resolve levels, inner, callerJob, starts, opens, made, rfl,
        childRead, job, member, ?_⟩)
        read
      rw [named]
      rfl

/-- A job of a child pipeline, however deep it is nested, is a job of the pipeline. -/
theorem mem_keys_normalize {resolve : Resolver} {path : String} {content : List UInt8}
    {top last : Layer} (holds : TopLayer resolve path content top) {callers : List String}
    (way : Way (Layer.TriggersAs resolve) top callers last) {name : String} {raw : Entries}
    (hasJob : last.HasJob name raw) {pipeline : Pipeline}
    (read : outcome (normalize resolve path content) = .ok pipeline) :
    underCallers callers name ∈ pipeline.jobs.keys := by
  obtain ⟨raw, merged, loaded, included, rfl⟩ := holds
  obtain ⟨none, -⟩ | ⟨_, _, env, gathered, again, alsoIncluded, -, gathers, rfl⟩ :=
    normalize_eq_ok_iff.mp read
  · cases loaded.symm.trans none
  · obtain rfl := Option.some.inj (Except.ok.inj (loaded.symm.trans again))
    obtain rfl := Except.ok.inj (included.symm.trans alsoIncluded)
    rw [pipelineFrom, keys_validate]
    exact mem_keys_gather way (Nat.lt_succ_self maxFiles) hasJob gathers

end SupplyLint.Gitlab
