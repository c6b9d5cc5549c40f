import Mathlib.Data.List.Nodup
import Mathlib.Logic.Relation
import SupplyLint.Gitlab.Extends
import SupplyLint.Proofs.Keyed
import SupplyLint.Proofs.Reading
import SupplyLint.Proofs.Value.Text

/-! # What a job extends

A job is merged over the jobs that it extends, and these over what they extend
themselves. All of them are read, however long the way to them is, and so a job
can be resolved exactly when the names of bases have a text in each of them. -/
set_option autoImplicit false

namespace SupplyLint.Gitlab

open SupplyLint.Value (AllShort)

def extendsField (jobs : RawJobs) (name : String) : Value :=
  Value.field ((rawJob jobs name).getD []) "extends"

def Extends (jobs : RawJobs) (name base : String) : Prop :=
  ∃ bases, Field.texts (extendsField jobs name) = .ok bases ∧ base ∈ bases ∧
    (rawJob jobs base).isSome

/-- A job extends another one that is not on the way to it. -/
def ExtendsBeyond (jobs : RawJobs) (way : List String) (name base : String) : Prop :=
  Extends jobs name base ∧ base ∉ way

def NamesBases (jobs : RawJobs) (name : String) : Prop :=
  AllShort (Field.written (extendsField jobs name))

section Extends
variable {jobs : RawJobs} {path name base : String} {way above : List String}

theorem mem_keys_of_rawJob (isJob : (rawJob jobs name).isSome) : name ∈ jobs.keys := by
  by_contra outside
  have absent := Keyed.get?_eq_none_iff.mpr outside
  rw [rawJob, absent] at isJob
  exact absurd isJob (by decide)

/-- What is below a job is the job itself or below one of its bases, and the way down from there
need not come back to the job. -/
theorem below_iff :
    Relation.ReflTransGen (ExtendsBeyond jobs above) name base ↔
      base = name ∨ ∃ next, ExtendsBeyond jobs (above ++ [name]) name next ∧
        Relation.ReflTransGen (ExtendsBeyond jobs (above ++ [name])) next base := by
  constructor
  · intro reached
    -- A way that comes back to the job starts anew there, so what counts is where it goes last.
    induction reached with
    | refl => exact Or.inl rfl
    | @tail between last before step ih =>
      by_cases back : last = name
      · exact Or.inl back
      · have beyond : ExtendsBeyond jobs (above ++ [name]) between last :=
          ⟨step.1, by simp [step.2, back]⟩
        rcases ih with rfl | ⟨next, first, later⟩
        · exact Or.inr ⟨last, beyond, .refl⟩
        · exact Or.inr ⟨next, first, later.tail beyond⟩
  · have weaker : ∀ one other, ExtendsBeyond jobs (above ++ [name]) one other →
        ExtendsBeyond jobs above one other :=
      fun one other step => ⟨step.1, fun inside => step.2 (List.mem_append_left _ inside)⟩
    rintro (rfl | ⟨next, first, later⟩)
    · exact .refl
    · exact .head (weaker _ _ first) (Relation.ReflTransGen.mono weaker _ _ later)

theorem returns_mergeBases (resolveBase : String → Normalizing Entries) (bases : List String)
    (merged : Entries) :
    Returns (outcome (mergeBases resolveBase jobs path name way bases merged)) ↔
      ∀ base ∈ bases, base ∉ way → (rawJob jobs base).isSome →
        Returns (outcome (resolveBase base)) := by
  induction bases generalizing merged with
  | nil => exact iff_of_true (returns_ok _) (by simp)
  | cons base rest ih =>
    rw [List.forall_mem_cons]
    unfold mergeBases
    by_cases onWay : way.contains base = true
    · have inside : base ∈ way := by simpa using onWay
      rw [if_pos onWay, outcome_bind, returns_bind_iff fun _ _ => ih merged]
      exact and_congr_left fun _ => iff_of_true (returns_ok _) fun outside => absurd inside outside
    · have outside : base ∉ way := by simpa using onWay
      rw [if_neg onWay]
      by_cases unknown : (rawJob jobs base).isNone = true
      · rw [if_pos unknown, outcome_bind, returns_bind_iff fun _ _ => ih merged]
        refine and_congr_left fun _ => iff_of_true (returns_ok _) fun _ isJob => ?_
        rw [Option.isNone_iff_eq_none] at unknown
        rw [unknown] at isJob
        exact absurd isJob (by decide)
      · have isJob : (rawJob jobs base).isSome := by
          rw [Option.isSome_iff_ne_none]
          exact fun none => unknown (Option.isNone_iff_eq_none.mpr none)
        rw [if_neg unknown, outcome_bind, returns_bind_iff fun resolved _ => ih _]
        simp [outside, isJob]

theorem length_le_of_subset_keys (distinct : way.Nodup) (listed : way ⊆ jobs.keys) :
    way.length ≤ jobs.length := by
  rw [← Keyed.length_keys jobs]
  exact distinct.length_le_of_subset listed

/-- A way holds jobs, and no job twice, so it is not longer than the list of jobs. -/
theorem length_way (distinct : way.Nodup) (areJobs : ∀ name ∈ way, (rawJob jobs name).isSome) :
    way.length ≤ jobs.length :=
  length_le_of_subset_keys distinct fun name member => mem_keys_of_rawJob (areJobs name member)

theorem returns_resolveWithin (budget : Nat) (enough : jobs.length < budget + above.length)
    (distinct : (above ++ [name]).Nodup)
    (areJobs : ∀ job ∈ above ++ [name], (rawJob jobs job).isSome) :
    Returns (outcome (resolveWithin jobs path budget above name)) ↔
      ∀ base, Relation.ReflTransGen (ExtendsBeyond jobs above) name base →
        NamesBases jobs base := by
  induction budget generalizing above name with
  | zero =>
    -- The way with the job would be longer than the list of jobs.
    have bound := length_way distinct areJobs
    rw [List.length_append, List.length_singleton] at bound
    omega
  | succ budget ih =>
    have below (next : String) (step : ExtendsBeyond jobs (above ++ [name]) name next) :
        Returns (outcome (resolveWithin jobs path budget (above ++ [name]) next)) ↔
          ∀ base, Relation.ReflTransGen (ExtendsBeyond jobs (above ++ [name])) next base →
            NamesBases jobs base := by
      apply ih
      · rw [List.length_append, List.length_singleton]
        omega
      · exact List.Nodup.append distinct (List.nodup_singleton next) (by simp [step.2])
      · intro job member
        rcases List.mem_append.mp member with before | last
        · exact areJobs job before
        · rw [List.mem_singleton.mp last]
          exact step.1.choose_spec.2.2
    have step (bases : List String) :
        Returns (outcome (mergeBases (resolveWithin jobs path budget (above ++ [name])) jobs path
          name (above ++ [name]) bases []) >>= fun merged => .ok (Field.merge merged
            (Keyed.erase ((rawJob jobs name).getD []) (.text "extends")))) ↔
        ∀ base ∈ bases, base ∉ above ++ [name] → (rawJob jobs base).isSome →
          Returns (outcome (resolveWithin jobs path budget (above ++ [name]) base)) := by
      rw [returns_bind_of_forall fun _ _ => returns_ok _, returns_mergeBases]
    simp only [resolveWithin, outcome_bind, outcome_fault, outcome_pure]
    rw [returns_bind]
    simp only [step, uncaught_eq_ok]
    constructor
    · rintro ⟨bases, found, returned⟩ base reached
      rcases below_iff.mp reached with rfl | ⟨next, onward, later⟩
      · exact (Field.returns_texts _).mp ⟨bases, found⟩
      · obtain ⟨others, same, member, isJob⟩ := onward.1
        obtain rfl := Except.ok.inj (found.symm.trans same)
        exact (below next onward).mp (returned next member onward.2 isJob) base later
    · intro all
      obtain ⟨bases, found⟩ := (Field.returns_texts _).mpr (all name .refl)
      refine ⟨bases, found, fun next member outside isJob => ?_⟩
      have onward : ExtendsBeyond jobs (above ++ [name]) name next :=
        ⟨⟨bases, found, member, isJob⟩, outside⟩
      exact (below next onward).mpr fun base later =>
        all base (below_iff.mpr (Or.inr ⟨next, onward, later⟩))

theorem returns_resolveExtends (isJob : (rawJob jobs name).isSome) :
    Returns (outcome (resolveExtends jobs path name)) ↔
      ∀ base, Relation.ReflTransGen (Extends jobs) name base → NamesBases jobs base := by
  have everywhere : ExtendsBeyond jobs [] = Extends jobs := by
    funext one other
    simp [ExtendsBeyond]
  rw [resolveExtends, returns_resolveWithin, everywhere]
  · simp
  · simp
  · simpa using isJob

theorem isJob_of_mem_bases {bases : List String}
    (found : Field.texts (extendsField jobs name) = .ok bases) (member : base ∈ bases) :
    (rawJob jobs name).isSome := by
  by_contra none
  rw [Option.not_isSome_iff_eq_none] at none
  rw [extendsField, none] at found
  obtain rfl := Except.ok.inj found
  cases member

theorem mergeBases_congr {first second : String → Normalizing Entries} {bases : List String}
    (same : ∀ base ∈ bases, base ∉ way → (rawJob jobs base).isSome → first base = second base)
    (merged : Entries) :
    mergeBases first jobs path name way bases merged =
      mergeBases second jobs path name way bases merged := by
  induction bases generalizing merged with
  | nil => rfl
  | cons base rest ih =>
    obtain ⟨own, others⟩ := List.forall_mem_cons.mp same
    unfold mergeBases
    by_cases onWay : way.contains base = true
    · rw [if_pos onWay, if_pos onWay]
      exact bind_congr_of_outcome fun _ _ => ih others merged
    · rw [if_neg onWay, if_neg onWay]
      by_cases unknown : (rawJob jobs base).isNone = true
      · rw [if_pos unknown, if_pos unknown]
        exact bind_congr_of_outcome fun _ _ => ih others merged
      · have isJob : (rawJob jobs base).isSome :=
          Option.isSome_iff_ne_none.mpr (by simpa using unknown)
        rw [if_neg unknown, if_neg unknown, own (by simpa using onWay) isJob]
        exact bind_congr_of_outcome fun resolved _ => ih others _

theorem resolveWithin_congr_of_listed {budget fewer : Nat}
    (enough : jobs.length ≤ budget + above.length)
    (enoughBelow : jobs.length ≤ fewer + above.length)
    (distinct : (above ++ [name]).Nodup) (listed : above ++ [name] ⊆ jobs.keys) :
    resolveWithin jobs path budget above name = resolveWithin jobs path fewer above name := by
  induction fewer generalizing budget above name with
  | zero =>
    -- The way with the job would be longer than the list of jobs.
    have short := length_le_of_subset_keys distinct listed
    rw [List.length_append, List.length_singleton] at short
    omega
  | succ fewer ih =>
    have short := length_le_of_subset_keys distinct listed
    rw [List.length_append, List.length_singleton] at short
    obtain ⟨budget, rfl⟩ := Nat.exists_eq_succ_of_ne_zero (n := budget) (by omega)
    simp only [resolveWithin]
    refine bind_congr_of_outcome fun bases _ => ?_
    refine congrArg (· >>= _) (mergeBases_congr (fun base _ beyond isJob => ?_) [])
    apply ih
    · rw [List.length_append, List.length_singleton]
      omega
    · rw [List.length_append, List.length_singleton]
      omega
    · exact distinct.append (List.nodup_singleton base) (by simpa using beyond)
    · exact List.append_subset.mpr ⟨listed, by simpa using mem_keys_of_rawJob isJob⟩

/-- However jobs extend one another, the budget is not used up: a way of bases holds jobs, each
once. -/
theorem resolveWithin_congr {budget fewer : Nat} (enough : jobs.length < budget + above.length)
    (enoughBelow : jobs.length < fewer + above.length) (distinct : above.Nodup)
    (outside : name ∉ above) (areJobs : ∀ job ∈ above, (rawJob jobs job).isSome) :
    resolveWithin jobs path budget above name = resolveWithin jobs path fewer above name := by
  have short := length_way distinct areJobs
  obtain ⟨budget, rfl⟩ := Nat.exists_eq_succ_of_ne_zero (n := budget) (by omega)
  obtain ⟨fewer, rfl⟩ := Nat.exists_eq_succ_of_ne_zero (n := fewer) (by omega)
  simp only [resolveWithin]
  refine bind_congr_of_outcome fun bases found => ?_
  rw [outcome_fault, uncaught_eq_ok] at found
  refine congrArg (· >>= _) (mergeBases_congr (fun base member beyond isJob => ?_) [])
  have own := isJob_of_mem_bases found member
  have wayDistinct : (above ++ [name]).Nodup :=
    distinct.append (List.nodup_singleton name) (by simpa using outside)
  apply resolveWithin_congr_of_listed
  · rw [List.length_append, List.length_singleton]
    omega
  · rw [List.length_append, List.length_singleton]
    omega
  · exact wayDistinct.append (List.nodup_singleton base) (by simpa using beyond)
  · refine List.append_subset.mpr ⟨List.append_subset.mpr ⟨?_, ?_⟩, ?_⟩
    · exact fun job member => mem_keys_of_rawJob (areJobs job member)
    · simpa using mem_keys_of_rawJob own
    · simpa using mem_keys_of_rawJob isJob

theorem resolveWithin_eq {budget : Nat} (enough : jobs.length < budget) :
    resolveWithin jobs path budget [] name = resolveExtends jobs path name :=
  resolveWithin_congr enough (Nat.lt_succ_self _) List.nodup_nil List.not_mem_nil
    fun _ none => absurd none List.not_mem_nil

end Extends

end SupplyLint.Gitlab
