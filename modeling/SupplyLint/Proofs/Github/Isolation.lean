import SupplyLint.Proofs.Github.Inlining
import SupplyLint.Proofs.Github.StepPlace
import SupplyLint.Proofs.Needs.Independence

/-! # Malformed steps and the rest of a workflow

`workflow_changesTo`: a malformed value in place of a step takes the step out of
its job, and changes nothing else in the pipeline and nothing in what is noted
elsewhere. Where a later job has the name of that job, the job is lost in both
pipelines, and they are the same. -/
set_option autoImplicit false

namespace SupplyLint.Github

open SupplyLint.Jobs
open SupplyLint.Needs
open SupplyLint.Value (AllShort)
open SupplyLint.Yaml (lineKey)

/-! ## Jobs of one name without a step -/

def dropStepOf (name : String) (position : Nat) (job : Job) : Job :=
  if job.name = name then dropStep position job else job

abbrev jobsWithoutStep (name : String) (position : Nat) (jobs : Jobs) : Jobs :=
  Keyed.mapValues (dropStepOf name position) jobs

section Jobs
variable {name : String} {position : Nat}

theorem dropStepOf_of_ne {job : Job} (other : job.name ≠ name) :
    dropStepOf name position job = job :=
  if_neg other

theorem dropStepOf_self {job : Job} (own : job.name = name) :
    dropStepOf name position job = dropStep position job :=
  if_pos own

theorem dropStepOf_sparesNeeds (name : String) (position : Nat) :
    Job.SparesNeeds (dropStepOf name position) where
  name job := by unfold dropStepOf; split <;> rfl
  index job := by unfold dropStepOf; split <;> rfl
  needs job := by unfold dropStepOf; split <;> rfl
  withNeeds job needs := by unfold dropStepOf; split <;> rfl

theorem jobsWithoutStep_of_absent {jobs : Jobs} (absent : ∀ entry ∈ jobs, entry.2.name ≠ name) :
    jobsWithoutStep name position jobs = jobs := by
  induction jobs with
  | nil => rfl
  | cons entry rest ih =>
    rw [List.forall_mem_cons] at absent
    show (entry.1, dropStepOf name position entry.2) :: jobsWithoutStep name position rest = _
    rw [dropStepOf_of_ne absent.1, ih absent.2]

theorem put_jobsWithoutStep {jobs : Jobs} (keyed : WellKeyed jobs) (job : Job) :
    (jobsWithoutStep name position jobs).put name job = jobs.put name job := by
  induction jobs with
  | nil => rfl
  | cons entry rest ih =>
    obtain ⟨distinct, named⟩ := keyed
    rw [Keyed.keys_cons, List.nodup_cons] at distinct
    rw [List.forall_mem_cons] at named
    rw [jobsWithoutStep, Keyed.mapValues_cons]
    by_cases here : entry.1 = name
    · have others : ∀ other ∈ rest, other.2.name ≠ name := by
        intro other member same
        rw [← named.2 other member] at same
        exact distinct.1 (here ▸ same ▸ List.mem_map_of_mem member)
      simp [Keyed.put, here, jobsWithoutStep_of_absent others]
    · have own : entry.2.name ≠ name := by rwa [← named.1]
      have later := ih ⟨distinct.2, named.2⟩
      simp [Keyed.put, here, dropStepOf_of_ne own, later]

theorem place_jobsWithoutStep {jobs : Jobs} {job : Job} (other : job.name ≠ name) :
    (jobsWithoutStep name position jobs).place job = jobsWithoutStep name position
    (jobs.place job) := by
  have own : dropStepOf name position { job with index := jobs.length } =
      { job with index := jobs.length } := dropStepOf_of_ne other
  simp only [Jobs.place, Keyed.length_mapValues, Keyed.put_mapValues, own]

theorem placeAll_jobsWithoutStep (more : List Job) {jobs : Jobs}
    (others : ∀ job ∈ more, job.name ≠ name) :
    more.foldl Jobs.place (jobsWithoutStep name position jobs) =
      jobsWithoutStep name position (more.foldl Jobs.place jobs) := by
  induction more generalizing jobs with
  | nil => rfl
  | cons job rest ih =>
    rw [List.forall_mem_cons] at others
    rw [List.foldl_cons, place_jobsWithoutStep others.1, ih others.2]
    rfl

theorem placeAll_of_overwritten (more : List Job) {jobs : Jobs} (keyed : WellKeyed jobs)
    (overwritten : ∃ job ∈ more, job.name = name) :
    more.foldl Jobs.place (jobsWithoutStep name position jobs) = more.foldl Jobs.place jobs := by
  induction more generalizing jobs with
  | nil =>
    obtain ⟨job, member, -⟩ := overwritten
    exact absurd member List.not_mem_nil
  | cons job rest ih =>
    rw [List.foldl_cons, List.foldl_cons]
    by_cases own : job.name = name
    · have same : (jobsWithoutStep name position jobs).place job = jobs.place job := by
        rw [Jobs.place, Jobs.place, own, put_jobsWithoutStep keyed, jobsWithoutStep,
          Keyed.length_mapValues]
      rw [same]
    · have later : ∃ job ∈ rest, job.name = name := by
        obtain ⟨other, member, same⟩ := overwritten
        rcases List.mem_cons.mp member with rfl | inside
        · exact absurd same own
        · exact ⟨other, inside, same⟩
      rw [place_jobsWithoutStep own]
      exact ih (wellKeyed_place keyed job) later

theorem place_dropStep {jobs : Jobs} (keyed : WellKeyed jobs) {job : Job} (own : job.name = name) :
    jobs.place (dropStep position job) = jobsWithoutStep name position (jobs.place job) := by
  subst own
  have dropped : dropStepOf job.name position { job with index := jobs.length } =
      dropStep position { job with index := jobs.length } := dropStepOf_self rfl
  simp only [Jobs.place, Keyed.put_mapValues, dropped]
  rw [put_jobsWithoutStep keyed]
  rfl

end Jobs

/-- Of the job that calls, nothing but its name has a part in how a call is followed, and even that
has none in what it comes to. -/
structure FollowsByName (follow : Follow) : Prop where
  ofName : ∀ path first second target, first.name = second.name →
    follow path first target = follow path second target
  outcome : ∀ path first second target,
    outcome (follow path first target) = outcome (follow path second target)

theorem followCall_byName (resolve : Resolver) (room : Nat) (chain : List String) :
    FollowsByName (followCall resolve room chain) := by
  have note (path message : String) {first second : Job} (same : first.name = second.name) :
      noteCall path first message = noteCall path second message := by
    rw [noteCall, noteCall, same]
  have refuse (path target : String) {first second : Job} (same : first.name = second.name) :
      refuseCall path first target = refuseCall path second target := by
    rw [refuseCall, refuseCall, note path _ same]
  cases room with
  | zero => exact ⟨fun path first second target same => refuse path target same, fun _ _ _ _ => rfl⟩
  | succ room =>
    constructor
    · intro path first second target same
      by_cases inChain : target ∈ chain
      · have contains : chain.contains target = true := by simpa using inChain
        simp only [followCall, if_pos contains]
        exact refuse path target same
      · have opens : openTarget resolve path first target = openTarget resolve
            path second target := by
          unfold openTarget
          simp only [note path _ same]
        rw [followCall_of_not_mem _ _ _ _ inChain, followCall_of_not_mem _ _ _ _ inChain, opens]
    · intro path first second target
      by_cases inChain : target ∈ chain
      · have contains : chain.contains target = true := by simpa using inChain
        simp only [followCall, if_pos contains, outcome_refuseCall]
      · rw [followCall_of_not_mem _ _ _ _ inChain, followCall_of_not_mem _ _ _ _ inChain,
          outcome_bind, outcome_bind, outcome_openTarget, outcome_openTarget]

/-! ## One entry -/

section Entry
variable {follow : Follow} {path name : String} {position : Nat}

def followed (follow : Follow) (path : String) (caller : Job) : Normalizing (Option Pipeline) :=
  (callTarget caller).elim (pure none) (follow path caller)

def entryJobs (own : String) (written : Job) (called : Option Pipeline) : List Job :=
  written :: adoptedJobs own called

theorem followed_iff {caller : Job} {called : Option Pipeline} :
    outcome (followed follow path caller) = .ok called ↔ Followed follow path caller called := by
  unfold followed Followed
  cases callTarget caller with
  | none => exact ⟨fun none => (Except.ok.inj none).symm, fun none => congrArg _ none.symm⟩
  | some target => exact Iff.rfl

theorem parseJobs_singleton (key : Value) (raw : Entries) (jobs : Jobs) :
    parseJobs follow path [(key, .map raw)] jobs = (do
      let own ← key.toText
      let written ← job path own jobs.length raw
      let called ← followed follow path written
      return (entryJobs own written called).foldl Jobs.place jobs) := by
  simp only [parseJobs]
  refine congrArg _ (funext fun own => bind_congr_of_outcome fun written wrote => ?_)
  obtain ⟨rfl, last, -⟩ := job_identity wrote
  have placed (called : Option Pipeline) :
      (entryJobs written.name written called).foldl Jobs.place jobs =
        inlined written.name called (jobs.put written.name written) := by
    rw [entryJobs, List.foldl_cons, ← put_eq_place written last, inlined_eq]
    rfl
  simp only [placed, followed]
  cases callTarget written with
  | none => rfl
  | some target =>
    refine congrArg (follow path written target >>= ·) (funext fun called => ?_)
    cases called <;> rfl

theorem parseJobs_cons_eq (entry : Value × Value) (rest : Entries) (jobs : Jobs) :
    parseJobs follow path (entry :: rest) jobs =
      parseJobs follow path [entry] jobs >>= parseJobs follow path rest :=
  parseJobs_append [entry] rest jobs

theorem brings_iff (byName : FollowsByName follow) {key : Value} {raw : Entries} {own : String}
    {index : Nat} {written : Job} {called : Option Pipeline} (named : key.toText = .ok own)
    (wrote : outcome (job path own index raw) = .ok written)
    (found : outcome (followed follow path written) = .ok called) :
    Brings follow path (key, .map raw) name ↔
      ∃ job ∈ entryJobs own written called, job.name = name := by
  obtain ⟨identity, -, -⟩ := job_identity wrote
  rw [followed_iff, Followed] at found
  constructor
  · rintro ⟨_, _, ownNamed, ⟨⟩, rfl | ⟨target, caller, pipeline, calls, read, job, member, rfl⟩⟩
    · obtain rfl := Except.ok.inj (named.symm.trans ownNamed)
      exact ⟨written, List.mem_cons_self, identity⟩
    · obtain rfl := Except.ok.inj (named.symm.trans ownNamed)
      rw [(entryCalls_iff wrote).mp calls] at found
      dsimp only at found
      rw [byName.outcome path written caller target, read] at found
      obtain rfl := Except.ok.inj found
      exact ⟨_, List.mem_cons_of_mem _ (List.mem_map_of_mem member), rfl⟩
  · rintro ⟨job, member, rfl⟩
    refine ⟨own, raw, named, rfl, ?_⟩
    rcases List.mem_cons.mp member with rfl | inside
    · exact Or.inl identity
    · obtain ⟨old, within, rfl⟩ := List.mem_map.mp inside
      cases called with
      | none => simp [calledJobs, Jobs.ordered, Keyed.values] at within
      | some pipeline =>
        cases call : callTarget written with
        | none =>
          rw [call] at found
          cases found
        | some target =>
          rw [call] at found
          exact Or.inr ⟨target, written, pipeline, (entryCalls_iff wrote).mpr call, found,
            old, within, rfl⟩

theorem parseJobs_entry_of_fresh (byName : FollowsByName follow) {entry : Value × Value}
    (fresh : ¬ Brings follow path entry name) (jobs : Jobs) :
    parseJobs follow path [entry] (jobsWithoutStep name position jobs) =
      jobsWithoutStep name position <$> parseJobs follow path [entry] jobs := by
  obtain ⟨key, raw⟩ := entry
  cases raw with
  | map raw =>
    simp only [parseJobs_singleton, jobsWithoutStep, Keyed.length_mapValues, map_bind]
    refine bind_congr_of_outcome fun own named => bind_congr_of_outcome fun written wrote =>
      bind_congr_of_outcome fun called found => ?_
    rw [outcome_fault, uncaught_eq_ok] at named
    rw [brings_iff byName named wrote found] at fresh
    push Not at fresh
    rw [map_pure, placeAll_jobsWithoutStep _ fresh]
  | _ => simp only [parseJobs, map_bind, map_pure]

theorem parseJobs_entry_of_brings (byName : FollowsByName follow) {entry : Value × Value}
    (brings : Brings follow path entry name) {jobs : Jobs} (keyed : WellKeyed jobs) :
    parseJobs follow path [entry] (jobsWithoutStep name position jobs) =
      parseJobs follow path [entry] jobs := by
  obtain ⟨key, value⟩ := entry
  have same := brings
  obtain ⟨_, raw, -, rfl, -⟩ := same
  simp only [parseJobs_singleton, jobsWithoutStep, Keyed.length_mapValues]
  refine bind_congr_of_outcome fun own named => bind_congr_of_outcome fun written wrote =>
    bind_congr_of_outcome fun called found => ?_
  rw [outcome_fault, uncaught_eq_ok] at named
  rw [brings_iff byName named wrote found] at brings
  rw [placeAll_of_overwritten _ keyed brings]

end Entry

section Entries
variable {follow : Follow} {path name : String} {position : Nat}

theorem parseJobs_of_fresh (byName : FollowsByName follow) (entries : Entries)
    (fresh : ∀ entry ∈ entries, ¬ Brings follow path entry name) (jobs : Jobs) :
    parseJobs follow path entries (jobsWithoutStep name position jobs) =
      jobsWithoutStep name position <$> parseJobs follow path entries jobs := by
  induction entries generalizing jobs with
  | nil => simp only [parseJobs, map_pure]
  | cons entry rest ih =>
    rw [List.forall_mem_cons] at fresh
    rw [parseJobs_cons_eq entry rest, parseJobs_cons_eq entry rest,
      parseJobs_entry_of_fresh byName fresh.1, bind_map_left, map_bind]
    exact congrArg _ (funext (ih fresh.2))

theorem parseJobs_of_brings (byName : FollowsByName follow) (entries : Entries)
    (brings : ∃ entry ∈ entries, Brings follow path entry name) {jobs : Jobs}
    (keyed : WellKeyed jobs) :
    parseJobs follow path entries (jobsWithoutStep name position jobs) =
      parseJobs follow path entries jobs := by
  induction entries generalizing jobs with
  | nil =>
    obtain ⟨entry, member, -⟩ := brings
    exact absurd member List.not_mem_nil
  | cons entry rest ih =>
    rw [parseJobs_cons_eq entry rest, parseJobs_cons_eq entry rest]
    by_cases here : Brings follow path entry name
    · rw [parseJobs_entry_of_brings byName here keyed]
    · have later : ∃ entry ∈ rest, Brings follow path entry name := by
        obtain ⟨other, member, brings⟩ := brings
        rcases List.mem_cons.mp member with rfl | inside
        · exact absurd brings here
        · exact ⟨other, inside, brings⟩
      rw [parseJobs_entry_of_fresh byName here, bind_map_left]
      refine bind_congr_of_outcome fun between read => ?_
      exact ih later (wellKeyed_parseJobs [entry] keyed read)

end Entries

/-! ## The workflow -/

namespace StepPlace
variable {raw : Entries} (place : StepPlace raw)

theorem field_replaced (value : Value) {other : String} (differs : "jobs" ≠ other) :
    Value.field (place.replaced value) other = Value.field raw other :=
  field_put_text differs _

theorem triggerField_replaced (value : Value) :
    triggerField (place.replaced value) = triggerField raw := by
  have events : Value.hasField (place.replaced value) "on" = Value.hasField raw "on" := by
    unfold Value.hasField Keyed.has replaced
    rw [Keyed.get?_put_of_differs (by decide)]
  have truth : Keyed.get? (place.replaced value) (.bool true) = Keyed.get? raw (.bool true) :=
    Keyed.get?_put_of_differs rfl _
  rw [triggerField, triggerField, events, truth, place.field_replaced value (by decide)]

theorem entries_around (mapping : Entries) :
    Field.entries (.map (place.before ++ (place.key, .map mapping) :: place.after)) =
      Field.entries (.map place.before) ++
        (place.key, .map mapping) :: Field.entries (.map place.after) := by
  simp [Field.entries, List.filter_append, place.isJob]

/-- A later entry brings in a job of the name, in place of that of the step. -/
def IsOverwritten (follow : Follow) (path name : String) : Prop :=
  ∃ entry ∈ Field.entries (.map place.after), Brings follow path entry name

/-- What becomes of the jobs if the step is left out of its own. -/
structure Leaves (follow : Follow) (path name : String) (change : Jobs → Jobs) : Prop where
  later : ∀ jobs, WellKeyed jobs →
    parseJobs follow path (Field.entries (.map place.after))
      (jobsWithoutStep name place.position jobs) =
      change <$> parseJobs follow path (Field.entries (.map place.after)) jobs
  needs : ∀ jobs path, validate (change jobs) path = change <$> validate jobs path

section Workflow
variable {follow : Follow} {path name : String} {change : Jobs → Jobs} {value : Value}

theorem leaves_of_fresh (byName : FollowsByName follow)
    (fresh : ¬ place.IsOverwritten follow path name) :
    place.Leaves follow path name (jobsWithoutStep name place.position) where
  later jobs _ := parseJobs_of_fresh byName _
    (fun entry member brings => fresh ⟨entry, member, brings⟩) jobs
  needs jobs path := validate_mapValues (dropStepOf_sparesNeeds name place.position) jobs path

theorem leaves_of_overwritten (byName : FollowsByName follow)
    (overwritten : place.IsOverwritten follow path name) : place.Leaves follow path name id where
  later jobs keyed := by rw [id_map, parseJobs_of_brings byName _ overwritten keyed]
  needs jobs path := (id_map _).symm

theorem parseJobs_changesTo (byName : FollowsByName follow) (named : place.key.toText = .ok name)
    (breaks : place.Breaks path name value) {jobs : Jobs}
    (keyed : WellKeyed jobs) :
    ChangesTo (elsewhere path name place.position) (jobsWithoutStep name place.position)
      (parseJobs follow path [(place.key, .map place.job)] jobs)
      (parseJobs follow path [(place.key, .map (place.jobWith value))] jobs) := by
  rw [parseJobs_singleton, parseJobs_singleton]
  refine changesTo_bind fun own ownNamed => ?_
  rw [outcome_fault, uncaught_eq_ok, named] at ownNamed
  obtain rfl := Except.ok.inj ownNamed
  refine (place.job_changesTo breaks jobs.length).bind fun written wrote => ?_
  obtain ⟨identity, -, -⟩ := job_identity wrote
  have same : followed follow path (dropStep place.position written) =
      followed follow path written := by
    unfold followed
    exact congrArg _ (funext fun target => byName.ofName path _ written target rfl)
  rw [same]
  refine changesTo_bind fun called _ => changesTo_pure ?_
  have others : ∀ job ∈ adoptedJobs name called, job.name ≠ name := by
    rintro job member
    obtain ⟨old, -, rfl⟩ := List.mem_map.mp member
    intro circular
    have same : name ++ "/" ++ old.name = name := circular
    have under := isUnder_join name old.name
    rw [same, isUnder_self] at under
    cases under
  rw [entryJobs, entryJobs, List.foldl_cons, List.foldl_cons, place_dropStep keyed identity,
    placeAll_jobsWithoutStep _ others]

theorem jobsOf_changesTo (byName : FollowsByName follow) (named : place.key.toText = .ok name)
    (leaves : place.Leaves follow path name change)
    (breaks : place.Breaks path name value) :
    ChangesTo (elsewhere path name place.position) change
      (jobsOf follow path (Value.field raw "jobs"))
      (jobsOf follow path (Value.field (place.replaced value) "jobs")) := by
  have own : Value.field raw "jobs" =
      .map (place.before ++ (place.key, .map place.job) :: place.after) := by
    rw [Value.field, place.jobs]
    rfl
  rw [own, replaced, field_put_self]
  simp only [jobsOf, entries_around, parseJobs_append, bind_assoc]
  refine changesTo_bind fun earlier earlierRead => ?_
  have keyed := wellKeyed_parseJobs _ placed_nil.keyed earlierRead
  rw [parseJobs_cons_eq (place.key, .map place.job),
    parseJobs_cons_eq (place.key, .map (place.jobWith value)), bind_assoc, bind_assoc]
  refine (place.parseJobs_changesTo byName named breaks keyed).bind
    fun jobs read => ?_
  rw [leaves.later jobs (wellKeyed_parseJobs _ keyed read), bind_map_left]
  refine changesTo_bind fun all _ => ?_
  rw [leaves.needs, liftM_map_noted]
  exact changesTo_map

theorem workflowWith_changesTo (byName : FollowsByName follow) (named : place.key.toText = .ok name)
    (leaves : place.Leaves follow path name change)
    (breaks : place.Breaks path name value) :
    ChangesTo (elsewhere path name place.position)
      (fun pipeline => { pipeline with jobs := change pipeline.jobs })
      (workflowWith follow path raw) (workflowWith follow path (place.replaced value)) := by
  have keys : (place.replaced value).keys = raw.keys := Keyed.keys_put_of_get? place.jobs _
  unfold workflowWith
  simp only [List.forM_eq_forM]
  rw [Keyed.forM_of_keys (fun _ _ _ => rfl) keys]
  simp (disch := decide) only [triggerField_replaced, field_replaced]
  refine changesTo_bind fun _ _ => changesTo_bind fun started _ => changesTo_bind fun granted _ =>
    changesTo_bind fun env _ => ?_
  exact (place.jobsOf_changesTo byName named leaves breaks).bind
    fun jobs _ => changesTo_pure rfl

end Workflow

end StepPlace

end SupplyLint.Github
