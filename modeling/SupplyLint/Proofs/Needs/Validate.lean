import SupplyLint.Proofs.Needs.Run
import SupplyLint.Proofs.Reading

/-! # What is left of the needs of jobs

`validate_validated`: the needs that are kept name jobs and close no cycle, a job
keeps its needs in their order, every need that is left out either names no job
or would close a cycle, and each of them is noted once. -/
set_option autoImplicit false

namespace SupplyLint.Needs

/-- Jobs under their own names, each name once. -/
structure WellKeyed (jobs : Jobs) : Prop where
  distinct : jobs.keys.Nodup
  named : ∀ entry ∈ jobs, entry.1 = entry.2.name

def Waits (jobs : Jobs) (name need : String) : Prop :=
  ∃ job, jobs.get? name = some job ∧ need ∈ job.needs

def Acyclic (edges : String → String → Prop) : Prop :=
  ∀ name, ¬ Relation.TransGen edges name name

def WithEdge (edges : String → String → Prop) (source target name need : String) : Prop :=
  edges name need ∨ name = source ∧ need = target

/-- A job with some of its needs left out; of a need that it names twice both are left out or
none. -/
structure Prunes (job kept : Job) : Prop where
  same : kept = { job with needs := kept.needs }
  sublist : kept.needs.Sublist job.needs
  whole : kept.needs = job.needs.filter kept.needs.contains

def unknownProblem (path name need : String) : Problem :=
  ⟨.unresolved, path, unknownMessage name need, location name⟩

def droppedProblem (jobs : Jobs) (path name need : String) : Problem :=
  if jobs.has need then cycleProblem path name need else unknownProblem path name need

/-- A problem for each need that is left out, in the order in which the jobs name them. -/
def droppedProblems (jobs kept : Jobs) (path : String) : List Problem :=
  jobs.flatMap fun entry =>
    (entry.2.needs.filter fun need => !(needsOf kept entry.1).contains need).map
      (droppedProblem jobs path entry.1)

structure Validated (jobs : Jobs) (path : String) (run : Noted Jobs) : Prop where
  pruned : List.Forall₂ (fun entry kept => kept.1 = entry.1 ∧ Prunes entry.2 kept.2) jobs run.value
  known : ∀ entry ∈ run.value, ∀ need ∈ entry.2.needs, run.value.has need = true
  acyclic : Acyclic (Waits run.value)
  minimal : ∀ entry ∈ jobs, ∀ need ∈ entry.2.needs, need ∉ needsOf run.value entry.1 →
    jobs.has need = false ∨ ¬ Acyclic (WithEdge (Waits run.value) entry.1 need)
  noted : run.problems.Perm (droppedProblems jobs run.value path)

/-! ## Needs of no job -/

def restrict (jobs : Jobs) (job : Job) : Job :=
  { job with needs := job.needs.filter jobs.has }

theorem keepKnown_value (jobs : Jobs) (path name : String) (wanted : List String) :
    (keepKnown jobs path name wanted).value = wanted.filter jobs.has := by
  induction wanted with
  | nil => rfl
  | cons need rest ih =>
    by_cases known : jobs.has need
    · simp [keepKnown, known, ih]
    · simp [keepKnown, known, ih]

theorem keepKnown_problems (jobs : Jobs) (path name : String) (wanted : List String) :
    (keepKnown jobs path name wanted).problems =
      (wanted.filter fun need => !jobs.has need).map (unknownProblem path name) := by
  induction wanted with
  | nil => rfl
  | cons need rest ih =>
    by_cases known : jobs.has need
    · simp [keepKnown, known, ih]
    · simp [keepKnown, known, ih, unknownProblem, Noted.note]

theorem dropUnknown_value (jobs : Jobs) (path : String) (entries : Jobs) :
    (dropUnknown jobs path entries).value =
      entries.map fun entry => (entry.1, restrict jobs entry.2) := by
  induction entries with
  | nil => rfl
  | cons entry rest ih => simp [dropUnknown, keepKnown_value, ih, restrict]

theorem dropUnknown_problems (jobs : Jobs) (path : String) (entries : Jobs) :
    (dropUnknown jobs path entries).problems = entries.flatMap fun entry =>
      (entry.2.needs.filter fun need => !jobs.has need).map (unknownProblem path entry.2.name) := by
  induction entries with
  | nil => rfl
  | cons entry rest ih => simp [dropUnknown, keepKnown_problems, ih]

abbrev knownJobs (jobs : Jobs) : Jobs :=
  jobs.map fun entry => (entry.1, restrict jobs entry.2)

theorem needsOf_knownJobs (jobs : Jobs) (name : String) :
    needsOf (knownJobs jobs) name = (needsOf jobs name).filter jobs.has := by
  simp only [needsOf, Keyed.get?_mapValues]
  cases Keyed.get? jobs name with
  | none => rfl
  | some job => rfl

theorem areJobs_knownJobs (jobs : Jobs) (name need : String)
    (wanted : need ∈ needsOf (knownJobs jobs) name) : need ∈ (knownJobs jobs).keys := by
  rw [needsOf_knownJobs] at wanted
  rw [Keyed.keys_mapValues]
  exact Keyed.has_iff.mp (List.mem_filter.mp wanted).2

theorem wellKeyed_mapNeeds {jobs : Jobs} (keyed : WellKeyed jobs) (f : Job → Job)
    (names : ∀ job, (f job).name = job.name) :
    WellKeyed (jobs.map fun entry => (entry.1, f entry.2)) where
  distinct := by simpa using keyed.distinct
  named := by
    intro entry member
    obtain ⟨old, inside, rfl⟩ := List.mem_map.mp member
    rw [names]
    exact keyed.named old inside

theorem mem_ordered_names {jobs : Jobs} (keyed : WellKeyed jobs) (name : String) :
    name ∈ jobs.ordered.map (·.name) ↔ name ∈ jobs.keys := by
  simp only [Jobs.ordered, List.mem_map, List.mem_mergeSort, Keyed.values, Keyed.keys]
  constructor
  · rintro ⟨job, ⟨entry, member, rfl⟩, rfl⟩
    exact ⟨entry, member, keyed.named entry member⟩
  · rintro ⟨entry, member, rfl⟩
    exact ⟨entry.2, ⟨entry, member, rfl⟩, (keyed.named entry member).symm⟩

theorem needsOf_entry {jobs : Jobs} (keyed : WellKeyed jobs) {entry : String × Job}
    (member : entry ∈ jobs) : needsOf jobs entry.1 = entry.2.needs := by
  rw [needsOf, (Keyed.get?_eq_some_iff keyed.distinct).mpr member]
  rfl

/-! ## Needs that are kept -/

/-- What the walks from all jobs finish. -/
structure Settles (jobs : Jobs) (path : String) (finished : Finished) (problems : List Problem) :
    Prop where
  walked : Progress (knownJobs jobs) [] ((knownJobs jobs).ordered.map (·.name)) [] finished
  everyJob : ∀ name ∈ jobs.keys, name ∈ finished.keys
  noted : problems.Perm (allCycleProblems (knownJobs jobs) path finished)

theorem validate_settles {jobs : Jobs} (keyed : WellKeyed jobs) (path : String) :
    ∃ finished problems, Settles jobs path finished problems ∧
      (validate jobs path).value = withNeeds finished (knownJobs jobs) ∧
      (validate jobs path).problems = (dropUnknown jobs path jobs).problems ++ problems := by
  have keyedKnown : WellKeyed (knownJobs jobs) :=
    wellKeyed_mapNeeds keyed (restrict jobs) (fun _ => rfl)
  obtain ⟨finished, value, walked, reached, problems⟩ :=
    walkAll_advances (knownJobs jobs) path (areJobs_knownJobs jobs)
      ((knownJobs jobs).ordered.map (·.name)) []
      (fun name member => (mem_ordered_names keyedKnown name).mp member)
  refine ⟨finished, _, ⟨walked, ?_, problems⟩, ?_, ?_⟩
  · intro name isJob
    apply reached
    rw [mem_ordered_names keyedKnown]
    simpa using isJob
  · simp [validate, dropUnknown_value, value]
  · simp [validate, dropUnknown_value]

def settle (finished : Finished) (job : Job) : Job :=
  { job with needs := (finished.get? job.name).getD job.needs }

section Kept
variable {jobs : Jobs} {path : String} {finished : Finished} {problems : List Problem}

theorem get?_withNeeds (finished : Finished) (jobs : Jobs) (name : String) :
    (withNeeds finished jobs).get? name = (jobs.get? name).map (settle finished) :=
  Keyed.get?_mapValues (settle finished) jobs name

theorem keys_withNeeds (finished : Finished) (jobs : Jobs) :
    (withNeeds finished jobs).keys = jobs.keys :=
  Keyed.keys_mapValues (settle finished) jobs

theorem needsOf_withNeeds (keyed : WellKeyed jobs) {finished : Finished} {name : String}
    {kept : List String} (isJob : name ∈ jobs.keys) (found : finished.get? name = some kept) :
    needsOf (withNeeds finished jobs) name = kept := by
  obtain ⟨job, known⟩ := Option.isSome_iff_exists.mp (Keyed.has_iff.mpr isJob)
  have same : name = job.name := keyed.named (name, job) (Keyed.mem_of_get?_eq_some known)
  rw [needsOf, get?_withNeeds, known]
  simp [settle, ← same, found]

theorem Settles.get? (settles : Settles jobs path finished problems) {name : String}
    (isJob : name ∈ jobs.keys) : ∃ kept, finished.get? name = some kept :=
  Option.isSome_iff_exists.mp (Keyed.has_iff.mpr (settles.everyJob name isJob))

theorem waits_iff (jobs : Jobs) (name need : String) :
    Waits jobs name need ↔ need ∈ needsOf jobs name := by
  simp only [Waits, needsOf]
  cases Keyed.get? jobs name with
  | none => simp
  | some job => simp

theorem waits_iff_leads (keyed : WellKeyed jobs) (settles : Settles jobs path finished problems)
    (name need : String) :
    Waits (withNeeds finished (knownJobs jobs)) name need ↔ Leads finished name need := by
  have keyedKnown : WellKeyed (knownJobs jobs) :=
    wellKeyed_mapNeeds keyed (restrict jobs) (fun _ => rfl)
  rw [waits_iff]
  by_cases isJob : name ∈ (knownJobs jobs).keys
  · obtain ⟨kept, found⟩ := settles.get? (by simpa using isJob)
    rw [needsOf_withNeeds keyedKnown isJob found]
    simp [Leads, found]
  · have absent : (withNeeds finished (knownJobs jobs)).get? name = none := by
      rw [Keyed.get?_eq_none_iff, keys_withNeeds]
      exact isJob
    rw [needsOf, absent]
    constructor
    · intro wanted
      simp at wanted
    · rintro ⟨kept, found, -⟩
      exact absurd (settles.walked.areJobs (name, kept) (Keyed.mem_of_get?_eq_some found)) isJob

theorem Settles.kept (settles : Settles jobs path finished problems) {name : String}
    {kept : List String} (found : finished.get? name = some kept) :
    kept = (needsOf jobs name).filter kept.contains ∧ ∀ need ∈ kept, need ∈ jobs.keys := by
  have faithful : kept = (needsOf (knownJobs jobs) name).filter kept.contains :=
    settles.walked.faithful (name, kept) (Keyed.mem_of_get?_eq_some found)
  rw [needsOf_knownJobs] at faithful
  have areJobs : ∀ need ∈ kept, need ∈ jobs.keys := by
    intro need keeps
    rw [faithful] at keeps
    exact Keyed.has_iff.mp (List.mem_filter.mp (List.mem_filter.mp keeps).1).2
  refine ⟨?_, areJobs⟩
  conv_lhs => rw [faithful, List.filter_filter]
  apply List.filter_congr
  intro need _
  by_cases keeps : need ∈ kept
  · simp [keeps, Keyed.has_iff.mpr (areJobs need keeps)]
  · simp [keeps]

theorem Settles.justified (settles : Settles jobs path finished problems) {name need : String}
    {kept : List String} (found : finished.get? name = some kept)
    (wanted : need ∈ needsOf jobs name)
    (isJob : jobs.has need = true) (dropped : need ∉ kept) : Reaches finished need name := by
  have known : need ∈ needsOf (knownJobs jobs) name := by
    rw [needsOf_knownJobs]
    exact List.mem_filter.mpr ⟨wanted, isJob⟩
  rcases settles.walked.justified (name, kept) (Keyed.mem_of_get?_eq_some found) need known dropped
    with back | ⟨above, -⟩
  · simpa using back
  · simp at above

theorem prunes_settle (keyed : WellKeyed jobs) (settles : Settles jobs path finished problems)
    {entry : String × Job} (member : entry ∈ jobs) :
    Prunes entry.2 (settle finished (restrict jobs entry.2)) := by
  obtain ⟨kept, found⟩ := settles.get? (List.mem_map_of_mem member)
  obtain ⟨whole, -⟩ := settles.kept found
  rw [needsOf_entry keyed member] at whole
  have needs : (settle finished (restrict jobs entry.2)).needs = kept := by
    simp [settle, restrict, ← keyed.named entry member, found]
  refine ⟨rfl, ?_, ?_⟩
  · rw [needs, whole]
    exact List.filter_sublist
  · rw [needs]
    exact whole

theorem settle_of_kept (keyed : WellKeyed jobs) (settles : Settles jobs path finished problems)
    {entry : String × Job} (member : entry ∈ jobs)
    (kept : ∀ need ∈ entry.2.needs,
      need ∈ needsOf (jobs.map fun entry => (entry.1, settle finished (restrict jobs entry.2)))
        entry.1) :
    settle finished (restrict jobs entry.2) = entry.2 := by
  have pruned := prunes_settle keyed settles member
  have found : needsOf (jobs.map fun entry => (entry.1, settle finished (restrict jobs entry.2)))
      entry.1 = (settle finished (restrict jobs entry.2)).needs := by
    rw [needsOf, Keyed.get?_mapValues (fun job => settle finished (restrict jobs job)),
      (Keyed.get?_eq_some_iff keyed.distinct).mpr member]
    rfl
  have whole : (settle finished (restrict jobs entry.2)).needs = entry.2.needs := by
    rw [pruned.whole, List.filter_eq_self, ← found]
    intro need wanted
    simpa using kept need wanted
  rw [pruned.same, whole]

theorem not_acyclic_withEdge {edges : String → String → Prop} {name need : String}
    (back : Relation.ReflTransGen edges need name) : ¬ Acyclic (WithEdge edges name need) := by
  intro acyclic
  have lifted : Relation.ReflTransGen (WithEdge edges name need) need name :=
    Relation.ReflTransGen.mono (fun _ _ edge => Or.inl edge) need name back
  exact acyclic need (Relation.TransGen.tail' lifted (Or.inr ⟨rfl, rfl⟩))

theorem Settles.perm (keyed : WellKeyed jobs) (settles : Settles jobs path finished problems) :
    finished.Perm (jobs.keys.map fun name => (name, (finished.get? name).getD [])) := by
  have distinct : finished.keys.Nodup := by
    simpa using nodup_of_ordered [] finished List.nodup_nil settles.walked.ordered
  have sameKeys : finished.keys.Perm jobs.keys := by
    rw [List.perm_ext_iff_of_nodup distinct keyed.distinct]
    intro name
    refine ⟨?_, settles.everyJob name⟩
    intro inside
    obtain ⟨entry, member, rfl⟩ := List.mem_map.mp inside
    simpa using settles.walked.areJobs entry member
  conv_lhs => rw [← Keyed.map_getD_keys finished distinct []]
  exact sameKeys.map _

theorem droppedProblems_entry (keyed : WellKeyed jobs)
    (settles : Settles jobs path finished problems) {entry : String × Job} (member : entry ∈ jobs) :
    ((entry.2.needs.filter fun need => !jobs.has need).map (unknownProblem path entry.2.name) ++
      cycleProblems path entry.1 (needsOf (knownJobs jobs) entry.1)
        ((finished.get? entry.1).getD [])).Perm
    ((entry.2.needs.filter fun need =>
        !(needsOf (withNeeds finished (knownJobs jobs)) entry.1).contains need).map
      (droppedProblem jobs path entry.1)) := by
  have keyedKnown : WellKeyed (knownJobs jobs) :=
    wellKeyed_mapNeeds keyed (restrict jobs) (fun _ => rfl)
  have isJob : entry.1 ∈ jobs.keys := List.mem_map_of_mem member
  obtain ⟨kept, found⟩ := settles.get? isJob
  obtain ⟨-, areJobs⟩ := settles.kept found
  rw [needsOf_withNeeds keyedKnown (by simpa using isJob) found, found, Option.getD_some,
    needsOf_knownJobs, needsOf_entry keyed member, ← keyed.named entry member, cycleProblems,
    List.filter_filter]
  have unknown : (entry.2.needs.filter fun need => !jobs.has need) =
      (entry.2.needs.filter fun need => !kept.contains need).filter fun need => !jobs.has need := by
    rw [List.filter_filter]
    apply List.filter_congr
    intro need _
    by_cases keeps : need ∈ kept
    · simp [keeps, Keyed.has_iff.mpr (areJobs need keeps)]
    · simp [keeps]
  have closing : (entry.2.needs.filter fun need => !kept.contains need && jobs.has need) =
      (entry.2.needs.filter fun need => !kept.contains need).filter jobs.has := by
    rw [List.filter_filter]
    apply List.filter_congr
    intro need _
    rw [Bool.and_comm]
  have unknownText : ∀ need ∈ (entry.2.needs.filter fun need => !kept.contains need).filter
      (fun need => !jobs.has need), unknownProblem path entry.1 need =
        droppedProblem jobs path entry.1 need := by
    intro need left
    have absent := (List.mem_filter.mp left).2
    rw [droppedProblem, if_neg (by simpa using absent)]
  have closingText : ∀ need ∈ (entry.2.needs.filter fun need => !kept.contains need).filter
      jobs.has, cycleProblem path entry.1 need = droppedProblem jobs path entry.1 need := by
    intro need left
    rw [droppedProblem, if_pos (List.mem_filter.mp left).2]
  rw [unknown, closing, List.map_congr_left unknownText, List.map_congr_left closingText,
    ← List.map_append]
  apply List.Perm.map
  exact List.perm_append_comm.trans (List.filter_append_perm _ _)

end Kept

theorem validate_value {jobs : Jobs} (keyed : WellKeyed jobs) (path : String) :
    ∃ finished problems, Settles jobs path finished problems ∧
      (validate jobs path).value = jobs.map fun entry =>
        (entry.1, settle finished (restrict jobs entry.2)) := by
  obtain ⟨finished, problems, settles, value, -⟩ := validate_settles keyed path
  refine ⟨finished, problems, settles, ?_⟩
  rw [value, withNeeds, List.map_map]
  rfl

theorem validate_problems {jobs : Jobs} (keyed : WellKeyed jobs) (path : String) :
    (validate jobs path).problems.Perm (droppedProblems jobs (validate jobs path).value path) := by
  obtain ⟨finished, problems, settles, value, noted⟩ := validate_settles keyed path
  rw [noted, value, dropUnknown_problems, droppedProblems]
  have cycles : problems.Perm (jobs.flatMap fun entry =>
      cycleProblems path entry.1 (needsOf (knownJobs jobs) entry.1)
        ((finished.get? entry.1).getD [])) := by
    refine settles.noted.trans ?_
    rw [allCycleProblems]
    refine ((settles.perm keyed).flatMap_right _).trans ?_
    rw [Keyed.keys, List.map_map, List.flatMap_map]
    exact List.Perm.refl _
  refine (cycles.append_left _).trans ((List.flatMap_append_perm _ _ _).trans ?_)
  exact List.Perm.flatMap_left _ fun entry member => droppedProblems_entry keyed settles member

theorem validate_validated {jobs : Jobs} (keyed : WellKeyed jobs) (path : String) :
    Validated jobs path (validate jobs path) := by
  have keyedKnown : WellKeyed (knownJobs jobs) :=
    wellKeyed_mapNeeds keyed (restrict jobs) (fun _ => rfl)
  have problems := validate_problems keyed path
  obtain ⟨finished, settled, settles, value, -⟩ := validate_settles keyed path
  have waits : Waits (validate jobs path).value = Leads finished := by
    funext name need
    rw [value]
    exact propext (waits_iff_leads keyed settles name need)
  have keys : (validate jobs path).value.keys = jobs.keys := by
    rw [value, keys_withNeeds, Keyed.keys_mapValues]
  have needs : ∀ name ∈ jobs.keys, ∃ kept, finished.get? name = some kept ∧
      needsOf (validate jobs path).value name = kept := by
    intro name isJob
    obtain ⟨kept, found⟩ := settles.get? isJob
    refine ⟨kept, found, ?_⟩
    rw [value]
    exact needsOf_withNeeds keyedKnown (by simpa using isJob) found
  refine ⟨?_, ?_, ?_, ?_, problems⟩
  · rw [value, withNeeds, List.map_map, List.forall₂_map_right_iff, List.forall₂_same]
    intro entry member
    exact ⟨rfl, prunes_settle keyed settles member⟩
  · intro entry member need keeps
    have keyedOut : WellKeyed (validate jobs path).value := by
      rw [value]
      exact wellKeyed_mapNeeds keyedKnown (settle finished) (fun _ => rfl)
    have isJob : entry.1 ∈ jobs.keys := by
      rw [← keys]
      exact List.mem_map_of_mem member
    obtain ⟨kept, found, same⟩ := needs entry.1 isJob
    rw [needsOf_entry keyedOut member] at same
    rw [Keyed.has_iff, keys]
    exact (settles.kept found).2 need (same ▸ keeps)
  · intro name
    rw [waits]
    exact acyclic_of_ordered settles.walked.ordered name
  · intro entry member need wanted dropped
    have isJob : entry.1 ∈ jobs.keys := List.mem_map_of_mem member
    obtain ⟨kept, found, same⟩ := needs entry.1 isJob
    rw [same] at dropped
    -- A need that is left out names no job, or with the needs that are kept it closes a cycle.
    by_cases known : jobs.has need
    · right
      apply not_acyclic_withEdge
      rw [waits]
      exact settles.justified found (by rwa [needsOf_entry keyed member]) known dropped
    · left
      simpa using known

/-! ## What is noted -/

inductive OfNeed (path : String) : Problem → Prop
  | unknown (name need : String) : OfNeed path (unknownProblem path name need)
  | cycle (name need : String) : OfNeed path (cycleProblem path name need)

section Noted
variable {jobs : Jobs} {path name : String}

theorem ofNeed_keepKnown (wanted : List String) :
    (keepKnown jobs path name wanted).Only (OfNeed path) := by
  induction wanted with
  | nil => exact Noted.only_pure _
  | cons need rest ih =>
    unfold keepKnown
    split
    · exact ih.bind (Noted.only_pure _)
    · exact (Noted.only_note (.unknown name need)).bind ih

theorem ofNeed_dropUnknown (entries : Jobs) :
    (dropUnknown jobs path entries).Only (OfNeed path) := by
  induction entries with
  | nil => exact Noted.only_pure _
  | cons entry rest ih => exact (ofNeed_keepKnown _).bind (ih.bind (Noted.only_pure _))

variable {walk : Finished → String → Noted Finished}

theorem ofNeed_unlessFinished (each : ∀ finished need, (walk finished need).Only (OfNeed path))
    (finished : Finished) (need : String) :
    (unlessFinished walk finished need).Only (OfNeed path) := by
  unfold unlessFinished
  split
  · exact Noted.only_pure _
  · exact each _ _

theorem ofNeed_follow (each : ∀ finished need, (walk finished need).Only (OfNeed path))
    (way wanted : List String) (finished : Finished) :
    (follow walk path name way wanted finished).Only (OfNeed path) := by
  induction wanted generalizing finished with
  | nil => exact Noted.only_pure _
  | cons need rest ih =>
    by_cases onWay : need ∈ way
    · rw [follow_cons_of_mem walk onWay]
      exact (Noted.only_note (.cycle name need)).bind (ih finished)
    · rw [follow_cons_of_not_mem walk onWay]
      exact (ofNeed_unlessFinished each _ _).bind ((ih _).bind (Noted.only_pure _))

theorem ofNeed_walkFrom (budget : Nat) (above : List String) (finished : Finished)
    (name : String) : (walkFrom jobs path budget above finished name).Only (OfNeed path) := by
  induction budget generalizing above finished name with
  | zero => exact Noted.only_pure _
  | succ budget ih =>
    rw [walkFrom_succ]
    exact (ofNeed_follow (fun finished need => ih _ finished need) _ _ _).bind (Noted.only_pure _)

theorem ofNeed_walkAll (names : List String) (finished : Finished) :
    (walkAll jobs path names finished).Only (OfNeed path) := by
  induction names generalizing finished with
  | nil => exact Noted.only_pure _
  | cons name rest ih =>
    rw [walkAll_cons]
    exact (ofNeed_unlessFinished (ofNeed_walkFrom _ _) _ _).bind (ih _)

theorem ofNeed_validate (jobs : Jobs) (path : String) : (validate jobs path).Only (OfNeed path) :=
  (ofNeed_dropUnknown jobs).bind ((ofNeed_walkAll _ _).bind (Noted.only_pure _))

end Noted

end SupplyLint.Needs
