import Mathlib.Logic.Relation
import SupplyLint.Pipeline.Field
import SupplyLint.Proofs.Placement

/-! # Where jobs are written

Putting jobs in, taking needs out and inlining leave alone where a job is written:
its file, its name there, its line and its steps. What holds of jobs because of
where they are written and of their names, holds of them wherever they are put. A
job that is inlined is reached through callers, and its name begins with theirs. -/
set_option autoImplicit false

namespace SupplyLint

structure Job.SameSource (first second : Job) : Prop where
  originPath : first.originPath = second.originPath
  originName : first.originName = second.originName
  line : first.line = second.line
  steps : first.steps = second.steps

/-- The line at which a step of a mapping is written: that of an item of its steps. -/
def StepAt (mapping : Entries) (position line : Int) : Prop :=
  ∃ items entries, Value.field mapping "steps" = .list items ∧
    items[position.toNat]? = some (.map entries) ∧ Field.line (.map entries) = some line

/-- A job is written as a mapping, its steps as items of that mapping. -/
structure Job.WrittenAs (mapping : Entries) (job : Job) : Prop where
  line : job.line = Field.line (.map mapping)
  steps : ∀ step ∈ job.steps, ∀ line, step.line = some line → StepAt mapping step.position line

theorem Job.WrittenAs.of_sameSource {mapping : Entries} {first second : Job}
    (written : first.WrittenAs mapping) (same : first.SameSource second) :
    second.WrittenAs mapping where
  line := same.line.symm.trans written.line
  steps := by
    rw [← same.steps]
    exact written.steps

/-- A property of jobs that depends only on their names and on where they are written. -/
def IsOfPlace (holds : Job → Prop) : Prop :=
  ∀ first second : Job, first.SameSource second → first.name = second.name →
    holds first → holds second

def IgnoresOrder (holds : Job → Prop) : Prop :=
  ∀ (job : Job) (index : Int) (needs : List String), holds job →
    holds { job with index := index, needs := needs }

theorem IsOfPlace.ignoresOrder {holds : Job → Prop} (ofPlace : IsOfPlace holds) :
    IgnoresOrder holds :=
  fun job _ _ own => ofPlace job _ ⟨rfl, rfl, rfl, rfl⟩ rfl own

namespace Jobs

def Every (holds : Job → Prop) (jobs : Jobs) : Prop :=
  ∀ entry ∈ jobs, holds entry.2

variable {holds : Job → Prop} {jobs : Jobs}

theorem every_nil : Every holds [] := by
  intro entry member
  exact absurd member List.not_mem_nil

theorem Every.of_mem_values (every : Every holds jobs) {job : Job} (member : job ∈ jobs.values) :
    holds job := by
  obtain ⟨entry, inside, rfl⟩ := List.mem_map.mp member
  exact every entry inside

theorem Every.imp {weaker : Job → Prop} (every : Every holds jobs)
    (implies : ∀ job, holds job → weaker job) : Every weaker jobs :=
  fun entry member => implies entry.2 (every entry member)

theorem Every.put (every : Every holds jobs) (name : String) {job : Job} (own : holds job) :
    Every holds (jobs.put name job) := by
  intro entry member
  rcases Keyed.mem_put member with rfl | old
  · exact own
  · exact every entry old

theorem Every.placeAll (loose : IgnoresOrder holds) (more : List Job) {jobs : Jobs}
    (every : Every holds jobs) (each : ∀ job ∈ more, holds job) :
    Every holds (more.foldl Jobs.place jobs) := by
  induction more generalizing jobs with
  | nil => exact every
  | cons job rest ih =>
    rw [List.forall_mem_cons] at each
    exact ih (every.put job.name (loose job jobs.length job.needs each.1)) each.2

theorem Every.adoptAll (loose : IgnoresOrder holds) (every : Every holds jobs) {called : Jobs}
    {adopted : Job → Job} (inner : Every (fun job => holds (adopted job)) called) :
    Every holds ((called.ordered.map adopted).foldl Jobs.place jobs) := by
  refine every.placeAll loose _ ?_
  intro job member
  obtain ⟨old, inside, rfl⟩ := List.mem_map.mp member
  exact inner.of_mem_values (List.mem_mergeSort.mp inside)

theorem Every.validate (loose : IgnoresOrder holds) (every : Every holds jobs) (path : String) :
    Every holds (Needs.validate jobs path).value := by
  intro entry member
  simp only [Needs.validate, Noted.value_bind, Noted.value_pure, Needs.dropUnknown_value,
    Needs.withNeeds, List.map_map, List.mem_map] at member
  obtain ⟨old, inside, rfl⟩ := member
  exact loose old.2 old.2.index _ (every old inside)

end Jobs

/-! ## Callers -/

/-- A way down from one place to another, with the names of the jobs that lead there. -/
inductive Way {α : Type} (step : α → String → α → Prop) : α → List String → α → Prop
  | here (place : α) : Way step place [] place
  | through {place next last : α} {caller : String} {callers : List String}
      (first : step place caller next) (later : Way step next callers last) :
      Way step place (caller :: callers) last

def underCallers (callers : List String) (name : String) : String :=
  callers.foldr (fun caller inner => caller ++ "/" ++ inner) name

section Ways
variable {α : Type} {step : α → String → α → Prop} {place last : α} {callers : List String}

theorem Way.reached {relates : α → α → Prop} (way : Way step place callers last)
    (weaker : ∀ place caller next, step place caller next → relates place next) :
    Relation.ReflTransGen relates place last := by
  induction way with
  | here => exact .refl
  | through first _ ih => exact .head (weaker _ _ _ first) ih

theorem Way.length_add_le (way : Way step place callers last) (measure : α → Nat)
    (grows : ∀ place caller next, step place caller next → measure place < measure next) :
    callers.length + measure place ≤ measure last := by
  induction way with
  | here => simp
  | through first _ ih =>
    have more := grows _ _ _ first
    rw [List.length_cons]
    omega

theorem Way.length_le (way : Way step place callers last) (measure : α → Nat) (bound : Nat)
    (grows : ∀ place caller next, step place caller next →
      measure place < measure next ∧ measure place < bound) :
    callers.length + measure place ≤ max bound (measure place) := by
  induction way with
  | here =>
    rw [List.length_nil, Nat.zero_add]
    exact Nat.le_max_right _ _
  | through first _ ih =>
    have more := grows _ _ _ first
    rw [List.length_cons]
    omega

end Ways

end SupplyLint
