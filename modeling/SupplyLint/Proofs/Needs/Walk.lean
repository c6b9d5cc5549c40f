import Mathlib.Data.List.Perm.Subperm
import Mathlib.Logic.Relation
import SupplyLint.Pipeline.Needs
import SupplyLint.Proofs.Keyed

/-! # Walks through the needs of jobs

What a walk adds to the finished jobs, given the needs of all jobs.  Jobs are
finished after the needs they keep, so what is finished has no cycle.  A need
that is left out is on the way of the walk, and the jobs on the way lead to the
one that leaves it out by needs that are kept, so keeping it would close a cycle.
While a walk is under way that is known only from the jobs it started with. -/
set_option autoImplicit false

namespace SupplyLint.Needs

def Leads (finished : Finished) (name need : String) : Prop :=
  ∃ kept, finished.get? name = some kept ∧ need ∈ kept

abbrev Reaches (finished : Finished) : String → String → Prop :=
  Relation.ReflTransGen (Leads finished)

def cycleProblem (path name need : String) : Problem :=
  ⟨.unresolved, path, cycleMessage name need, location name⟩

def cycleProblems (path name : String) (needs kept : List String) : List Problem :=
  (needs.filter fun need => !kept.contains need).map (cycleProblem path name)

/-- Every job is new when it is finished, and the needs that it keeps are finished before it. -/
def Ordered : List String → Finished → Prop
  | _, [] => True
  | seen, (name, kept) :: rest =>
    name ∉ seen ∧ (∀ need ∈ kept, need ∈ seen) ∧ Ordered (seen ++ [name]) rest

/-- What a walk from some roots has added to the finished jobs, below the jobs that led to it. -/
structure Progress (jobs : Jobs) (above roots : List String) (before new : Finished) : Prop where
  ordered : Ordered before.keys new
  areJobs : ∀ entry ∈ new, entry.1 ∈ jobs.keys
  faithful : ∀ entry ∈ new, entry.2 = (needsOf jobs entry.1).filter entry.2.contains
  justified : ∀ entry ∈ new, ∀ need ∈ needsOf jobs entry.1, need ∉ entry.2 →
    Reaches (before ++ new) need entry.1 ∨
      need ∈ above ∧ ∃ root ∈ roots, Reaches (before ++ new) root entry.1
  apart : ∀ entry ∈ new, entry.1 ∉ above

theorem ordered_append (seen : List String) (first second : Finished) :
    Ordered seen (first ++ second) ↔
      Ordered seen first ∧ Ordered (seen ++ first.keys) second := by
  induction first generalizing seen with
  | nil => simp [Ordered]
  | cons entry rest ih =>
    obtain ⟨name, kept⟩ := entry
    simp only [List.cons_append, Ordered, ih, Keyed.keys_cons, List.append_assoc, List.nil_append,
      and_assoc]

theorem nodup_of_ordered (seen : List String) (new : Finished) (distinct : seen.Nodup)
    (ordered : Ordered seen new) : (seen ++ new.keys).Nodup := by
  induction new generalizing seen with
  | nil => simpa using distinct
  | cons entry rest ih =>
    obtain ⟨name, kept⟩ := entry
    obtain ⟨fresh, -, later⟩ := ordered
    have longer : (seen ++ [name]).Nodup := by
      rw [List.nodup_append]
      refine ⟨distinct, by simp, ?_⟩
      intro a old b new same
      obtain rfl : b = name := by simpa using new
      exact fresh (same ▸ old)
    simpa using ih (seen ++ [name]) longer later

theorem idxOf_lt_of_ordered (seen : List String) (new : Finished) (ordered : Ordered seen new)
    (entry : String × List String) (member : entry ∈ new) (need : String)
    (keeps : need ∈ entry.2) :
    (seen ++ new.keys).idxOf need < (seen ++ new.keys).idxOf entry.1 := by
  induction new generalizing seen with
  | nil => simp at member
  | cons first rest ih =>
    obtain ⟨name, kept⟩ := first
    obtain ⟨fresh, earlier, later⟩ := ordered
    rcases List.mem_cons.mp member with rfl | member
    · have inside : need ∈ seen := earlier need keeps
      rw [List.idxOf_append_of_mem inside, List.idxOf_append_of_notMem fresh]
      have bound := List.idxOf_lt_length_of_mem inside
      omega
    · simpa using ih (seen ++ [name]) later member

theorem acyclic_of_ordered {finished : Finished} (ordered : Ordered [] finished) (name : String) :
    ¬ Relation.TransGen (Leads finished) name name := by
  have step : ∀ {a b : String}, Leads finished a b →
      finished.keys.idxOf b < finished.keys.idxOf a := by
    rintro a b ⟨kept, found, keeps⟩
    simpa using idxOf_lt_of_ordered [] finished ordered (a, kept)
      (Keyed.mem_of_get?_eq_some found) b keeps
  have descends : ∀ {a b : String}, Relation.TransGen (Leads finished) a b →
      finished.keys.idxOf b < finished.keys.idxOf a := by
    intro a b path
    induction path with
    | single edge => exact step edge
    | tail _ edge ih => exact Nat.lt_trans (step edge) ih
  intro cycle
  exact Nat.lt_irrefl _ (descends cycle)

/-! ## More finished jobs -/

theorem Leads.append {before : Finished} {name need : String} (leads : Leads before name need)
    (more : Finished) : Leads (before ++ more) name need := by
  obtain ⟨kept, found, keeps⟩ := leads
  exact ⟨kept, by simp [Keyed.get?_append, found], keeps⟩

theorem reaches_append {before : Finished} {name need : String} (reaches : Reaches before name need)
    (more : Finished) : Reaches (before ++ more) name need :=
  Relation.ReflTransGen.mono (fun _ _ leads => Leads.append leads more) name need reaches

theorem leads_last {before : Finished} {name need : String} {kept : List String}
    (fresh : name ∉ before.keys) (keeps : need ∈ kept) :
    Leads (before ++ [(name, kept)]) name need := by
  refine ⟨kept, ?_, keeps⟩
  simp [Keyed.get?_append, Keyed.get?_eq_none_iff.mpr fresh, Keyed.get?]

theorem progress_nil (jobs : Jobs) (above roots : List String) (before : Finished) :
    Progress jobs above roots before [] where
  ordered := trivial
  areJobs := by simp
  faithful := by simp
  justified := by simp
  apart := by simp

theorem Progress.append {jobs : Jobs} {above roots : List String}
    {root : String} {before first second : Finished}
    (one : Progress jobs above [root] before first)
    (others : Progress jobs above roots (before ++ first) second) :
    Progress jobs above (root :: roots) before (first ++ second) where
  ordered := by
    rw [ordered_append]
    exact ⟨one.ordered, by simpa using others.ordered⟩
  areJobs := by
    intro entry member
    rcases List.mem_append.mp member with early | late
    · exact one.areJobs entry early
    · exact others.areJobs entry late
  faithful := by
    intro entry member
    rcases List.mem_append.mp member with early | late
    · exact one.faithful entry early
    · exact others.faithful entry late
  justified := by
    intro entry member need wanted dropped
    rw [← List.append_assoc]
    rcases List.mem_append.mp member with early | late
    · rcases one.justified entry early need wanted dropped with back | ⟨higher, start, here, down⟩
      · exact Or.inl (reaches_append back second)
      · obtain rfl : start = root := by simpa using here
        exact Or.inr ⟨higher, start, by simp, reaches_append down second⟩
    · rcases others.justified entry late need wanted dropped with back | ⟨higher, start, here, down⟩
      · exact Or.inl back
      · exact Or.inr ⟨higher, start, by simp [here], down⟩
  apart := by
    intro entry member
    rcases List.mem_append.mp member with early | late
    · exact one.apart entry early
    · exact others.apart entry late

/-- A job is finished after the walks from the needs that it keeps. Those it leaves out are on the
way to it. -/
theorem Progress.finish {jobs : Jobs} {above : List String} {name : String}
    {before new : Finished} {kept : List String}
    (walked : Progress jobs (name :: above) kept before new)
    (keeps : kept = (needsOf jobs name).filter fun need => !(name :: above).contains need)
    (reached : ∀ need ∈ kept, need ∈ Keyed.keys (before ++ new))
    (fresh : name ∉ Keyed.keys (before ++ new)) (elsewhere : name ∉ above)
    (isJob : name ∈ jobs.keys) : Progress jobs above [name] before (new ++ [(name, kept)]) where
  ordered := by
    rw [ordered_append]
    rw [Keyed.keys_append] at reached fresh
    exact ⟨walked.ordered, fresh, reached, trivial⟩
  areJobs := by
    intro entry member
    rcases List.mem_append.mp member with early | last
    · exact walked.areJobs entry early
    · obtain rfl : entry = (name, kept) := by simpa using last
      exact isJob
  faithful := by
    intro entry member
    rcases List.mem_append.mp member with early | last
    · exact walked.faithful entry early
    · obtain rfl : entry = (name, kept) := by simpa using last
      subst keeps
      apply List.filter_congr
      intro need wanted
      simp [wanted]
  justified := by
    intro entry member need wanted dropped
    rw [← List.append_assoc]
    rcases List.mem_append.mp member with early | last
    · rcases walked.justified entry early need wanted dropped with back | ⟨onWay, start, here, down⟩
      · exact Or.inl (reaches_append back _)
      -- The job that left out the need is below this one, and the need is this one or above it.
      · have fromName : Reaches ((before ++ new) ++ [(name, kept)]) name entry.1 :=
          Relation.ReflTransGen.head (leads_last fresh here) (reaches_append down _)
        rcases List.mem_cons.mp onWay with rfl | higher
        · exact Or.inl fromName
        · exact Or.inr ⟨higher, name, by simp, fromName⟩
    · obtain rfl : entry = (name, kept) := by simpa using last
      have onWay : need ∈ name :: above := by
        by_contra outside
        apply dropped
        rw [keeps]
        simpa using And.intro wanted (by simpa using outside)
      rcases List.mem_cons.mp onWay with rfl | higher
      · exact Or.inl .refl
      · exact Or.inr ⟨higher, name, by simp, .refl⟩
  apart := by
    intro entry member
    rcases List.mem_append.mp member with early | last
    · have := walked.apart entry early
      simp only [List.mem_cons, not_or] at this
      exact this.2
    · obtain rfl : entry = (name, kept) := by simpa using last
      exact elsewhere

end SupplyLint.Needs
