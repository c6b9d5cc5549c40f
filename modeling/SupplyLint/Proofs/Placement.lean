import Mathlib.Data.List.Nodup
import SupplyLint.Proofs.Needs.Independence
import SupplyLint.Proofs.Sorted

/-! # Jobs under their names

Jobs are put one after another into a list that is keyed by their names, each
with the number of jobs that are there as its index. Where no name comes twice
the jobs keep the order and the places in which they were put in; a name that
comes again takes the place of the first job under it, and a job is lost. -/
set_option autoImplicit false

namespace SupplyLint.Jobs

open SupplyLint.Needs

/-- Puts a job under its name, with the number of jobs that are there as its index. -/
def place (jobs : Jobs) (job : Job) : Jobs :=
  jobs.put job.name { job with index := jobs.length }

def indices (jobs : Jobs) : List Int :=
  jobs.values.map (·.index)

def positions (count : Nat) : List Int :=
  (List.range count).map Int.ofNat

/-- Jobs that were put in under the names, one after another. -/
structure Placed (names : List String) (jobs : Jobs) : Prop where
  keyed : WellKeyed jobs
  inOrder : names.Nodup → jobs.keys = names ∧ jobs.indices = positions jobs.length
  fewer : ¬ names.Nodup → jobs.length < names.length

theorem wellKeyed_put {jobs : Jobs} (keyed : WellKeyed jobs) (job : Job) :
    WellKeyed (jobs.put job.name job) where
  distinct := by
    rw [Keyed.keys_put]
    exact nodup_addNew keyed.distinct
  named := by
    intro entry member
    rcases Keyed.mem_put member with rfl | old
    · rfl
    · exact keyed.named entry old

theorem wellKeyed_place {jobs : Jobs} (keyed : WellKeyed jobs) (job : Job) :
    WellKeyed (jobs.place job) :=
  wellKeyed_put keyed { job with index := jobs.length }

theorem put_eq_place {jobs : Jobs} (job : Job) (last : job.index = jobs.length) :
    jobs.put job.name job = jobs.place job := by
  unfold place
  rw [← last]

theorem length_place_le (jobs : Jobs) (job : Job) : (jobs.place job).length ≤ jobs.length + 1 := by
  rw [← Keyed.length_keys, place, Keyed.keys_put, addNew, ← Keyed.length_keys jobs]
  split
  · exact Nat.le_succ _
  · exact Nat.le_of_eq (by rw [List.length_append, List.length_singleton])

theorem length_place_of_mem {jobs : Jobs} {job : Job} (taken : job.name ∈ jobs.keys) :
    (jobs.place job).length = jobs.length := by
  rw [← Keyed.length_keys, place, Keyed.keys_put, addNew_of_mem taken, Keyed.length_keys]

theorem place_of_not_mem {jobs : Jobs} {job : Job} (fresh : job.name ∉ jobs.keys) :
    jobs.place job = jobs ++ [(job.name, { job with index := jobs.length })] :=
  Keyed.put_of_not_mem fresh _

theorem positions_succ (count : Nat) : positions
    (count + 1) = positions count ++ [(count : Int)] := by
  simp [positions, List.range_succ]

theorem placed_nil : Placed [] [] where
  keyed := ⟨List.nodup_nil, by simp⟩
  inOrder := fun _ => ⟨rfl, rfl⟩
  fewer := fun collision => absurd List.nodup_nil collision

theorem nodup_concat (names : List String) (name : String) :
    (names ++ [name]).Nodup ↔ names.Nodup ∧ name ∉ names := by
  rw [← List.concat_eq_append, List.nodup_concat, and_comm]

section Place
variable {names : List String} {jobs : Jobs}

theorem Placed.length_le (placed : Placed names jobs) : jobs.length ≤ names.length := by
  by_cases distinct : names.Nodup
  · exact Nat.le_of_eq (by rw [← (placed.inOrder distinct).1, Keyed.length_keys])
  · exact Nat.le_of_lt (placed.fewer distinct)

theorem Placed.place (placed : Placed names jobs) (job : Job) :
    Placed (names ++ [job.name]) (jobs.place job) where
  keyed := wellKeyed_place placed.keyed job
  inOrder := by
    intro distinct
    obtain ⟨before, fresh⟩ := (nodup_concat names job.name).mp distinct
    obtain ⟨keys, indices⟩ := placed.inOrder before
    rw [place_of_not_mem (keys ▸ fresh)]
    constructor
    · rw [Keyed.keys_append, keys]
      rfl
    · rw [List.length_append, List.length_singleton, positions_succ, ← indices]
      simp [Jobs.indices, Keyed.values]
  fewer := by
    intro collision
    rw [List.length_append, List.length_singleton]
    by_cases before : names.Nodup
    · have taken : job.name ∈ jobs.keys := by
        rw [(placed.inOrder before).1]
        by_contra fresh
        exact collision ((nodup_concat names job.name).mpr ⟨before, fresh⟩)
      rw [length_place_of_mem taken]
      exact Nat.lt_succ_of_le placed.length_le
    · exact Nat.lt_of_le_of_lt (length_place_le jobs job) (Nat.succ_lt_succ (placed.fewer before))

theorem Placed.placeAll (more : List Job) {names : List String} {jobs : Jobs}
    (placed : Placed names jobs) :
    Placed (names ++ more.map (·.name)) (more.foldl Jobs.place jobs) := by
  induction more generalizing names jobs with
  | nil => simpa using placed
  | cons job rest ih => simpa using ih (placed.place job)

theorem length_placeAll_le (more : List Job) (jobs : Jobs) :
    (more.foldl place jobs).length ≤ jobs.length + more.length := by
  induction more generalizing jobs with
  | nil => exact Nat.le_refl _
  | cons job rest ih =>
    rw [List.foldl_cons, List.length_cons]
    have one := length_place_le jobs job
    have others := ih (jobs.place job)
    omega

theorem sortsBy_ordered (jobs : Jobs) : SortsBy Job.index jobs.values jobs.ordered :=
  sortsBy_mergeSort Job.index jobs.values

theorem ordered_eq_values (atPlaces : jobs.indices = positions jobs.length) :
    jobs.ordered = jobs.values := by
  refine (sortsBy_ordered jobs).eq_of_ordered (List.pairwise_map.mp ?_)
  have same : jobs.values.map (·.index) = positions jobs.length := atPlaces
  rw [same, positions, List.pairwise_map]
  refine List.Pairwise.imp ?_ List.pairwise_lt_range
  intro a b less
  exact Int.ofNat_le.mpr (Nat.le_of_lt less)

theorem names_values (keyed : WellKeyed jobs) : jobs.values.map (·.name) = jobs.keys := by
  rw [Keyed.values, Keyed.keys, List.map_map]
  apply List.map_congr_left
  intro entry member
  exact (keyed.named entry member).symm

theorem Placed.adoptAll (placed : Placed names jobs) {inner : List String} {called : Jobs}
    (calledPlaced : Placed inner called) (word : String) (adopted : Job → Job)
    (renamed : ∀ job, (adopted job).name = word ++ job.name) :
    Placed (names ++ inner.map (word ++ ·))
      ((called.ordered.map adopted).foldl Jobs.place jobs) := by
  have adoptedNames : (called.ordered.map adopted).map (·.name) =
      (called.ordered.map (·.name)).map (word ++ ·) := by
    simp [renamed, Function.comp_def]
  have count : (called.ordered.map adopted).length = called.length := by
    simp [Jobs.ordered, Keyed.values]
  have all := placed.placeAll (called.ordered.map adopted)
  by_cases distinct : inner.Nodup
  · obtain ⟨keys, indices⟩ := calledPlaced.inOrder distinct
    rw [adoptedNames, ordered_eq_values indices, names_values calledPlaced.keyed, keys] at all
    rw [ordered_eq_values indices]
    exact all
  · have collision : ¬ (names ++ inner.map (word ++ ·)).Nodup := by
      intro nodup
      exact distinct (List.Nodup.of_map _ (List.nodup_append.mp nodup).2.1)
    refine ⟨all.keyed, fun nodup => absurd nodup collision, fun _ => ?_⟩
    have bound := length_placeAll_le (called.ordered.map adopted) jobs
    have before := placed.length_le
    have inside := calledPlaced.fewer distinct
    rw [List.length_append, List.length_map]
    omega

theorem Placed.validate (placed : Placed names jobs) (path : String) :
    Placed names (validate jobs path).value := by
  obtain ⟨finished, problems, -, value⟩ := validate_value placed.keyed path
  have keys : (Needs.validate jobs path).value.keys = jobs.keys := by
    rw [value]
    exact Keyed.keys_mapValues (fun job => settle finished (restrict jobs job)) jobs
  have length : (Needs.validate jobs path).value.length = jobs.length := by
    rw [value, List.length_map]
  have indices : (Needs.validate jobs path).value.indices = jobs.indices := by
    rw [value]
    simp [Jobs.indices, Keyed.values, settle, restrict]
  refine ⟨?_, ?_, ?_⟩
  · rw [value]
    exact wellKeyed_mapNeeds placed.keyed (fun job => settle finished (restrict jobs job))
      (fun _ => rfl)
  · intro distinct
    rw [keys, indices, length]
    exact placed.inOrder distinct
  · intro collision
    rw [length]
    exact placed.fewer collision

end Place

/-- Jobs that were put in under the names, with the needs that can be kept. -/
def Settled (names : List String) (jobs : Jobs) : Prop :=
  ∃ before path, Placed names before ∧ jobs = (validate before path).value

theorem Settled.placed {names : List String} {jobs : Jobs} (settled : Settled names jobs) :
    Placed names jobs := by
  obtain ⟨before, path, placed, rfl⟩ := settled
  exact placed.validate path

theorem settled_nil : Settled [] [] :=
  ⟨[], "", placed_nil, rfl⟩

theorem settled_singleton {name : String} {job : Job} (named : job.name = name)
    (first : job.index = 0) (free : job.needs = []) : Settled [name] [(name, job)] := by
  subst named
  have placed : Placed [job.name] [(job.name, job)] := by
    have same : Keyed.put [] job.name job = Jobs.place [] job := put_eq_place job first
    rw [show [(job.name, job)] = Keyed.put [] job.name job from rfl, same]
    exact placed_nil.place job
  have noNeeds : ∀ name need, ¬ Waits [(job.name, job)] name need := by
    rintro name need ⟨found, inside, wanted⟩
    have member := Keyed.mem_of_get?_eq_some inside
    rw [List.mem_singleton, Prod.mk.injEq] at member
    rw [member.2, free] at wanted
    exact List.not_mem_nil wanted
  have kept : validate [(job.name, job)] "" = pure [(job.name, job)] := by
    refine validate_of_acyclic placed.keyed ?_ ?_ ""
    · intro entry member need wanted
      rw [List.mem_singleton] at member
      rw [member, free] at wanted
      exact absurd wanted List.not_mem_nil
    · intro name cycle
      obtain ⟨need, edge, -⟩ := Relation.TransGen.head'_iff.mp cycle
      exact noNeeds name need edge
  exact ⟨_, "", placed, by rw [kept]; rfl⟩

end SupplyLint.Jobs
