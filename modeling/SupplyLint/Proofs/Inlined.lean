import Mathlib.Data.List.Sort
import SupplyLint.Proofs.Needs.Independence
import SupplyLint.Proofs.Placement
import SupplyLint.Proofs.Text.Split

/-! # Jobs that stand under another one

The jobs that one job brings in are put in behind it under `<caller>/<job>`.
Where no other job has such a name, they stay together in the order in which
they were put in, and their needs are those that they had before: they wait for
nothing but one another. -/
set_option autoImplicit false

namespace SupplyLint.Jobs

open SupplyLint.Needs

def isUnder (caller name : String) : Bool :=
  Text.hasPrefix name (caller ++ "/")

def under (caller : String) (jobs : Jobs) : List Job :=
  Keyed.values (jobs.filter fun entry => isUnder caller entry.1)

def numbered (first : Nat) : List Job → List Job
  | [] => []
  | job :: rest => { job with index := first } :: numbered (first + 1) rest

theorem isUnder_iff {caller name : String} :
    isUnder caller name = true ↔ ∃ inner, name = caller ++ "/" ++ inner :=
  Text.hasPrefix_iff

theorem isUnder_join (caller inner : String) : isUnder caller (caller ++ "/" ++ inner) = true :=
  isUnder_iff.mpr ⟨inner, rfl⟩

theorem isUnder_self (caller : String) : isUnder caller caller = false := by
  rw [Bool.eq_false_iff, ne_eq, isUnder_iff]
  rintro ⟨inner, same⟩
  have longer := congrArg String.length same
  simp only [String.length_append] at longer
  have one : "/".length = 1 := rfl
  omega

theorem join_inj {caller first second : String}
    (same : caller ++ "/" ++ first = caller ++ "/" ++ second) : first = second :=
  String.append_right_inj (caller ++ "/") |>.mp same

/-! ## Putting jobs in -/

section Under
variable {caller : String} {jobs : Jobs}

theorem under_put {name : String} (elsewhere : isUnder caller name = false) (job : Job) :
    under caller (jobs.put name job) = under caller jobs := by
  unfold under
  congr 1
  induction jobs with
  | nil => simp [Keyed.put, elsewhere]
  | cons entry rest ih =>
    obtain ⟨key, old⟩ := entry
    by_cases same : key == name
    · obtain rfl := eq_of_beq same
      simp [Keyed.put, elsewhere]
    · simp [Keyed.put, same, List.filter_cons, ih]

theorem wellKeyed_placeAll (more : List Job) {jobs : Jobs} (keyed : WellKeyed jobs) :
    WellKeyed (more.foldl Jobs.place jobs) := by
  induction more generalizing jobs with
  | nil => exact keyed
  | cons job rest ih => exact ih (wellKeyed_place keyed job)

theorem under_placeAll_of_elsewhere (more : List Job) {jobs : Jobs}
    (elsewhere : ∀ job ∈ more, isUnder caller job.name = false) :
    under caller (more.foldl Jobs.place jobs) = under caller jobs := by
  induction more generalizing jobs with
  | nil => rfl
  | cons job rest ih =>
    rw [List.forall_mem_cons] at elsewhere
    rw [List.foldl_cons, ih elsewhere.2]
    exact under_put elsewhere.1 _

theorem placeAll_of_fresh (more : List Job) {jobs : Jobs} (distinct : (more.map (·.name)).Nodup)
    (fresh : ∀ job ∈ more, job.name ∉ jobs.keys) :
    more.foldl Jobs.place jobs =
      jobs ++ (numbered jobs.length more).map fun job => (job.name, job) := by
  induction more generalizing jobs with
  | nil => simp [numbered]
  | cons job rest ih =>
    rw [List.map_cons, List.nodup_cons] at distinct
    rw [List.forall_mem_cons] at fresh
    rw [List.foldl_cons, place_of_not_mem fresh.1, ih distinct.2]
    · simp [numbered]
    · intro other later
      rw [Keyed.keys_append, List.mem_append, not_or]
      refine ⟨fresh.2 other later, ?_⟩
      rintro here
      obtain same : other.name = job.name := by simpa using here
      exact distinct.1 (same ▸ List.mem_map_of_mem later)

theorem names_numbered (first : Nat) (more : List Job) :
    (numbered first more).map (·.name) = more.map (·.name) := by
  induction more generalizing first with
  | nil => rfl
  | cons job rest ih => simp [numbered, ih]

theorem mem_numbered {first : Nat} {more : List Job} {job : Job}
    (member : job ∈ numbered first more) :
    ∃ old ∈ more, ∃ index : Nat, first ≤ index ∧ job = { old with index := index } := by
  induction more generalizing first with
  | nil => exact absurd member List.not_mem_nil
  | cons old rest ih =>
    rcases List.mem_cons.mp member with rfl | later
    · exact ⟨old, List.mem_cons_self, first, Nat.le_refl _, rfl⟩
    · obtain ⟨other, inside, index, beyond, same⟩ := ih later
      exact ⟨other, List.mem_cons_of_mem _ inside, index, Nat.le_of_succ_le beyond, same⟩

theorem increasing_numbered (first : Nat) (more : List Job) :
    (numbered first more).Pairwise fun x y => x.index < y.index := by
  induction more generalizing first with
  | nil => exact List.Pairwise.nil
  | cons job rest ih =>
    refine List.pairwise_cons.mpr ⟨?_, ih (first + 1)⟩
    intro other later
    obtain ⟨old, -, index, beyond, rfl⟩ := mem_numbered later
    show (first : Int) < index
    omega

theorem under_placeAll {more : List Job} (none : under caller jobs = [])
    (distinct : (more.map (·.name)).Nodup)
    (inside : ∀ job ∈ more, isUnder caller job.name = true) :
    under caller (more.foldl Jobs.place jobs) = numbered jobs.length more := by
  have noKey : ∀ name, isUnder caller name = true → name ∉ jobs.keys := by
    intro name here member
    obtain ⟨entry, old, rfl⟩ := List.mem_map.mp member
    have one : entry.2 ∈ under caller jobs :=
      List.mem_map_of_mem (List.mem_filter.mpr ⟨old, here⟩)
    rw [none] at one
    exact List.not_mem_nil one
  have all : ∀ entry ∈ (numbered jobs.length more).map (fun job => (job.name, job)),
      isUnder caller entry.1 = true := by
    intro entry member
    obtain ⟨job, numberedJob, rfl⟩ := List.mem_map.mp member
    obtain ⟨old, given, index, -, rfl⟩ := mem_numbered numberedJob
    exact inside old given
  rw [placeAll_of_fresh more distinct fun job member => noKey _ (inside job member), under,
    List.filter_append, List.filter_eq_self.mpr all, Keyed.values, List.map_append]
  show under caller jobs ++ _ = _
  rw [none, List.nil_append, List.map_map]
  exact List.map_id _

theorem ordered_under (keyed : WellKeyed jobs) {first : Nat} {more : List Job}
    (placed : under caller jobs = numbered first more) :
    (jobs.ordered.filter fun job => isUnder caller job.name) = under caller jobs := by
  have values : (jobs.values.filter fun job => isUnder caller job.name) = under caller jobs := by
    unfold under Keyed.values
    rw [List.filter_map]
    congr 1
    apply List.filter_congr
    intro entry member
    simp [keyed.named entry member]
  have inOrder : (under caller jobs).Pairwise fun x y => x.index ≤ y.index := by
    rw [placed]
    exact (increasing_numbered first more).imp Int.le_of_lt
  have sorts := (sortsBy_ordered jobs).filter fun job => isUnder caller job.name
  rw [values] at sorts
  exact sorts.eq_of_ordered inOrder

end Under

/-! ## Needs under a caller -/

theorem wellKeyed_validate {jobs : Jobs} (keyed : WellKeyed jobs) (path : String) :
    WellKeyed (validate jobs path).value := by
  obtain ⟨finished, problems, -, value⟩ := validate_value keyed path
  rw [value]
  exact wellKeyed_mapNeeds keyed (fun job => settle finished (restrict jobs job)) fun _ => rfl

/-- How the jobs that a caller brings in are named, and what they wait for. -/
structure Renames (caller : String) (adopted : Job → Job) : Prop where
  name : ∀ job, (adopted job).name = caller ++ "/" ++ job.name
  needs : ∀ job, (adopted job).needs = job.needs.map (caller ++ "/" ++ ·)

theorem under_adoptAll {caller : String} {adopted : Job → Job} (renames : Renames caller adopted)
    {called jobs : Jobs} (keyed : WellKeyed called) (none : under caller jobs = []) :
    under caller ((called.ordered.map adopted).foldl Jobs.place jobs) =
      numbered jobs.length (called.ordered.map adopted) := by
  refine under_placeAll none ?_ ?_
  · have distinct : (called.ordered.map (·.name)).Nodup := by
      have perm := (List.mergeSort_perm called.values fun x y => x.index ≤ y.index).map (·.name)
      rw [names_values keyed] at perm
      exact perm.nodup_iff.mpr keyed.distinct
    have joined := distinct.map (f := (caller ++ "/" ++ ·)) fun _ _ => join_inj
    rw [List.map_map] at joined ⊢
    exact (List.map_congr_left fun job _ => renames.name job).symm ▸ joined
  · intro job member
    obtain ⟨old, -, rfl⟩ := List.mem_map.mp member
    rw [renames.name]
    exact isUnder_join caller old.name

theorem Settled.known {names : List String} {jobs : Jobs} (settled : Settled names jobs) :
    ∀ entry ∈ jobs, ∀ need ∈ entry.2.needs, jobs.has need = true := by
  obtain ⟨before, path, placed, rfl⟩ := settled
  exact (validate_validated placed.keyed path).known

theorem Settled.acyclic {names : List String} {jobs : Jobs} (settled : Settled names jobs) :
    Acyclic (Waits jobs) := by
  obtain ⟨before, path, placed, rfl⟩ := settled
  exact (validate_validated placed.keyed path).acyclic

section Needs
variable {caller : String} {adopted : Job → Job} {names : List String} {jobs called : Jobs}
variable {first : Nat}

theorem waits_under (renames : Renames caller adopted) (keyed : WellKeyed jobs)
    (settled : Settled names called)
    (placed : under caller jobs = numbered first (called.ordered.map adopted)) {name need : String}
    (inside : isUnder caller name = true) (waits : Waits jobs name need) :
    ∃ outer inner, name = caller ++ "/" ++ outer ∧ need = caller ++ "/" ++ inner ∧
      Waits called outer inner := by
  obtain ⟨job, found, wanted⟩ := waits
  have entry : (name, job) ∈ jobs := Keyed.mem_of_get?_eq_some found
  have here : job ∈ under caller jobs :=
    List.mem_map_of_mem (List.mem_filter.mpr ⟨entry, inside⟩)
  rw [placed] at here
  obtain ⟨brought, member, index, -, rfl⟩ := mem_numbered here
  obtain ⟨old, given, rfl⟩ := List.mem_map.mp member
  obtain ⟨inner, needed, rfl⟩ : ∃ inner ∈ old.needs, caller ++ "/" ++ inner = need := by
    simpa [renames.needs old] using wanted
  obtain ⟨source, calls, rfl⟩ := List.mem_map.mp (List.mem_mergeSort.mp given)
  have calledKeyed := settled.placed.keyed
  have same : name = caller ++ "/" ++ source.1 := by
    rw [calledKeyed.named source calls]
    exact (keyed.named _ entry).trans (renames.name source.2)
  exact ⟨source.1, inner, same, rfl, source.2,
    (Keyed.get?_eq_some_iff calledKeyed.distinct).mpr calls, needed⟩

theorem has_under (renames : Renames caller adopted) (keyed : WellKeyed jobs)
    (settled : Settled names called)
    (placed : under caller jobs = numbered first (called.ordered.map adopted)) {inner : String}
    (known : called.has inner = true) : jobs.has (caller ++ "/" ++ inner) = true := by
  have listed : inner ∈ called.ordered.map (·.name) :=
    (mem_ordered_names settled.placed.keyed inner).mpr (Keyed.has_iff.mp known)
  have named : caller ++ "/" ++ inner ∈ (under caller jobs).map (·.name) := by
    rw [placed, names_numbered, List.map_map]
    obtain ⟨job, member, rfl⟩ := List.mem_map.mp listed
    exact List.mem_map.mpr ⟨job, member, renames.name job⟩
  obtain ⟨job, here, same⟩ := List.mem_map.mp named
  obtain ⟨entry, member, rfl⟩ := List.mem_map.mp here
  obtain ⟨member, -⟩ := List.mem_filter.mp member
  rw [Keyed.has_iff, ← same, ← keyed.named entry member]
  exact List.mem_map_of_mem member

theorem selfContained_under (renames : Renames caller adopted) (keyed : WellKeyed jobs)
    (settled : Settled names called)
    (placed : under caller jobs = numbered first (called.ordered.map adopted)) :
    SelfContained (isUnder caller) jobs where
  known := by
    intro name need inside waits
    obtain ⟨outer, inner, -, rfl, job, found, wanted⟩ :=
      waits_under renames keyed settled placed inside waits
    have known := settled.known _ (Keyed.mem_of_get?_eq_some found) inner wanted
    exact has_under renames keyed settled placed known
  acyclic := by
    intro name inside cycle
    have path : ∀ last, Relation.TransGen (Waits jobs) name last →
        ∃ outer inner, name = caller ++ "/" ++ outer ∧ last = caller ++ "/" ++ inner ∧
          Relation.TransGen (Waits called) outer inner := by
      intro last way
      induction way with
      | single edge =>
        obtain ⟨outer, inner, same, target, waits⟩ :=
          waits_under renames keyed settled placed inside edge
        exact ⟨outer, inner, same, target, .single waits⟩
      | tail before edge ih =>
        obtain ⟨outer, middle, same, rfl, way⟩ := ih
        obtain ⟨source, inner, again, target, waits⟩ :=
          waits_under renames keyed settled placed (isUnder_join caller middle) edge
        obtain rfl := join_inj again
        exact ⟨outer, inner, same, target, way.tail waits⟩
    obtain ⟨outer, inner, source, target, way⟩ := path name cycle
    obtain rfl := join_inj (source.symm.trans target)
    exact settled.acyclic outer way

theorem under_validate (renames : Renames caller adopted) (keyed : WellKeyed jobs)
    (settled : Settled names called)
    (placed : under caller jobs = numbered first (called.ordered.map adopted)) (path : String) :
    under caller (validate jobs path).value = numbered first (called.ordered.map adopted) := by
  have contained := selfContained_under renames keyed settled placed
  rw [← placed]
  exact congrArg Keyed.values (filter_validate keyed path contained)

/-- Jobs stand under a caller as they were brought in, one after another and with their indices. -/
structure StandUnder (caller : String) (jobs : Jobs) (brought : List Job) : Prop where
  inOrder : ∃ first, under caller jobs = numbered first brought
  ordered : (jobs.ordered.filter fun job => isUnder caller job.name) = under caller jobs

theorem standUnder_validate (renames : Renames caller adopted) (keyed : WellKeyed jobs)
    (settled : Settled names called)
    (placed : under caller jobs = numbered first (called.ordered.map adopted)) (path : String) :
    StandUnder caller (validate jobs path).value (called.ordered.map adopted) := by
  have kept := under_validate renames keyed settled placed path
  exact ⟨⟨first, kept⟩, ordered_under (wellKeyed_validate keyed path) kept⟩

end Needs

end SupplyLint.Jobs
