import SupplyLint.Proofs.Needs.Walk

/-! # Walks from one job and from all jobs

`walkFrom_advances`: with a budget for every job that is not on the way, a walk
from a job finishes it and adds what a walk may add.  The names on the way are
different names of jobs, which is why the number of jobs is budget enough.
`walkAll_advances`: the walks from all jobs finish every job. -/
set_option autoImplicit false

namespace SupplyLint.Needs

def allCycleProblems (jobs : Jobs) (path : String) (new : Finished) : List Problem :=
  new.flatMap fun entry => cycleProblems path entry.1 (needsOf jobs entry.1) entry.2

/-- A walk finishes its roots, keeps what was finished before, and notes each need that is left
out. -/
def Advances (jobs : Jobs) (path : String) (above roots : List String)
    (before : Finished) (run : Noted Finished) : Prop :=
  ∃ new, run.value = before ++ new ∧ Progress jobs above roots before new ∧
    (∀ root ∈ roots, root ∈ Keyed.keys (before ++ new)) ∧
    run.problems.Perm (allCycleProblems jobs path new)

def Unfinished (way : List String) (finished : Finished) : Prop :=
  ∀ step ∈ way, step ∉ finished.keys

theorem unfinished_append {jobs : Jobs} {way roots : List String}
    {before new : Finished} (unfinished : Unfinished way before)
    (walked : Progress jobs way roots before new) : Unfinished way (before ++ new) := by
  intro step onWay
  rw [Keyed.keys_append, List.mem_append, not_or]
  refine ⟨unfinished step onWay, ?_⟩
  intro inside
  obtain ⟨entry, member, rfl⟩ := List.mem_map.mp inside
  exact walked.apart entry member onWay

def unlessFinished (walk : Finished → String → Noted Finished) (finished : Finished)
    (need : String) : Noted Finished :=
  if finished.has need then pure finished else walk finished need

theorem follow_cons_of_mem (walk : Finished → String → Noted Finished) {path name need : String}
    {way rest : List String} {finished : Finished} (onWay : need ∈ way) :
    follow walk path name way (need :: rest) finished =
      (Noted.note .unresolved path (cycleMessage name need) (location name) >>= fun _ =>
        follow walk path name way rest finished) := by
  simp [follow, onWay]

theorem follow_cons_of_not_mem (walk : Finished → String → Noted Finished)
    {path name need : String} {way rest : List String} {finished : Finished} (offWay : need ∉ way) :
    follow walk path name way (need :: rest) finished =
      (unlessFinished walk finished need >>= fun reached =>
        follow walk path name way rest reached >>= fun last => pure (need :: last.1, last.2)) := by
  by_cases old : finished.has need
  · simp [follow, offWay, unlessFinished, old]
  · simp [follow, offWay, unlessFinished, old]

theorem walkFrom_succ (jobs : Jobs) (path : String) (budget : Nat) (above : List String)
    (finished : Finished) (name : String) :
    walkFrom jobs path (budget + 1) above finished name =
      (follow (walkFrom jobs path budget (name :: above)) path name (name :: above)
        (needsOf jobs name) finished >>= fun last => pure (last.2.put name last.1)) := rfl

theorem walkAll_cons (jobs : Jobs) (path name : String) (rest : List String) (finished : Finished) :
    walkAll jobs path (name :: rest) finished =
      (unlessFinished (walkFrom jobs path jobs.length []) finished name >>=
        walkAll jobs path rest) := by
  by_cases old : finished.has name
  · simp [walkAll, unlessFinished, old]
  · simp [walkAll, unlessFinished, old]

section Follow
variable {jobs : Jobs} {path : String} {way : List String}
    {walk : Finished → String → Noted Finished}

theorem unlessFinished_advances
    (walks : ∀ before need, need ∈ jobs.keys → need ∉ way → need ∉ before.keys →
      Unfinished way before → Advances jobs path way [need] before (walk before need))
    (before : Finished) {need : String} (isJob : need ∈ jobs.keys) (offWay : need ∉ way)
    (unfinished : Unfinished way before) :
    Advances jobs path way [need] before (unlessFinished walk before need) := by
  unfold unlessFinished
  by_cases old : need ∈ before.keys
  · rw [if_pos (Keyed.has_iff.mpr old)]
    refine ⟨[], by simp, progress_nil jobs way [need] before, ?_, by simp [allCycleProblems]⟩
    intro root here
    obtain rfl : root = need := by simpa using here
    simpa using old
  · rw [if_neg (by simpa [Keyed.has_iff] using old)]
    exact walks before need isJob offWay old unfinished

theorem follow_advances (name : String)
    (walks : ∀ before need, need ∈ jobs.keys → need ∉ way → need ∉ before.keys →
      Unfinished way before → Advances jobs path way [need] before (walk before need))
    (wanted : List String) (before : Finished) (areJobs : ∀ need ∈ wanted, need ∈ jobs.keys)
    (unfinished : Unfinished way before) :
    ∃ new, (follow walk path name way wanted before).value =
        (wanted.filter fun need => !way.contains need, before ++ new) ∧
      Progress jobs way (wanted.filter fun need => !way.contains need) before new ∧
      (∀ need ∈ wanted, need ∉ way → need ∈ Keyed.keys (before ++ new)) ∧
      (follow walk path name way wanted before).problems.Perm
        ((wanted.filter way.contains).map (cycleProblem path name) ++
          allCycleProblems jobs path new) := by
  induction wanted generalizing before with
  | nil =>
    exact ⟨[], by simp [follow], progress_nil jobs way _ before, by simp, by
      simp [follow, allCycleProblems]⟩
  | cons need rest ih =>
    have restJobs : ∀ other ∈ rest, other ∈ jobs.keys := by
      intro other member
      exact areJobs other (List.mem_cons_of_mem _ member)
    -- A need on the way is noted as a cycle and left out; any other one is walked from and kept.
    by_cases onWay : need ∈ way
    · obtain ⟨new, value, walked, reached, problems⟩ := ih before restJobs unfinished
      refine ⟨new, ?_, ?_, ?_, ?_⟩
      · rw [follow_cons_of_mem walk onWay, Noted.value_bind, value]
        simp [onWay]
      · simpa [onWay] using walked
      · intro other member offWay
        rcases List.mem_cons.mp member with rfl | later
        · exact absurd onWay offWay
        · exact reached other later offWay
      · rw [follow_cons_of_mem walk onWay, Noted.problems_bind]
        simpa [onWay, cycleProblem, Noted.note] using problems
    · obtain ⟨first, firstValue, firstWalked, firstReached, firstProblems⟩ :=
        unlessFinished_advances walks before (areJobs need (by simp)) onWay unfinished
      obtain ⟨new, value, walked, reached, problems⟩ :=
        ih (before ++ first) restJobs (unfinished_append unfinished firstWalked)
      refine ⟨first ++ new, ?_, ?_, ?_, ?_⟩
      · rw [follow_cons_of_not_mem walk onWay, Noted.value_bind, firstValue,
          Noted.value_bind, value]
        simp [onWay]
      · simpa [onWay] using firstWalked.append walked
      · intro other member offWay
        rw [← List.append_assoc]
        rcases List.mem_cons.mp member with rfl | later
        · rw [Keyed.keys_append]
          exact List.mem_append_left _ (firstReached other (by simp))
        · exact reached other later offWay
      · have swapped := (firstProblems.append problems).trans
          (List.perm_append_comm_assoc _ _ _)
        rw [follow_cons_of_not_mem walk onWay, Noted.problems_bind, firstValue, Noted.problems_bind]
        simpa [onWay, allCycleProblems] using swapped

end Follow

/-- A walk from a job that is not finished, below the jobs above it. -/
theorem walkFrom_advances (jobs : Jobs) (path : String)
    (areJobs : ∀ name, ∀ need ∈ needsOf jobs name, need ∈ jobs.keys) (budget : Nat)
    (above : List String) (before : Finished) (name : String)
    (wayJobs : ∀ step ∈ name :: above, step ∈ jobs.keys) (distinct : (name :: above).Nodup)
    (enough : jobs.length ≤ budget + above.length)
    (unfinished : Unfinished (name :: above) before) :
    Advances jobs path above [name] before (walkFrom jobs path budget above before name) := by
  induction budget generalizing above before name with
  | zero =>
    -- No job is on the way twice, so the way never outgrows the jobs.
    have bound := (List.subperm_of_subset distinct wayJobs).length_le
    rw [Keyed.length_keys, List.length_cons] at bound
    omega
  | succ budget ih =>
    have walks : ∀ earlier need, need ∈ jobs.keys → need ∉ name :: above → need ∉ earlier.keys →
        Unfinished (name :: above) earlier → Advances jobs path (name :: above) [need]
          earlier (walkFrom jobs path budget (name :: above) earlier need) := by
      intro earlier need isJob offWay fresh unfinishedWay
      apply ih
      · intro step onWay
        rcases List.mem_cons.mp onWay with rfl | onWay
        · exact isJob
        · exact wayJobs step onWay
      · exact List.nodup_cons.mpr ⟨offWay, distinct⟩
      · rw [List.length_cons]
        omega
      · intro step onWay
        rcases List.mem_cons.mp onWay with rfl | onWay
        · exact fresh
        · exact unfinishedWay step onWay
    obtain ⟨new, value, walked, reached, problems⟩ :=
      follow_advances name walks (needsOf jobs name) before (areJobs name) unfinished
    have fresh : name ∉ Keyed.keys (before ++ new) :=
      unfinished_append unfinished walked name (by simp)
    have finished := walked.finish rfl (by
      intro need kept
      obtain ⟨wanted, offWay⟩ := List.mem_filter.mp kept
      exact reached need wanted (by simpa using offWay)) fresh (List.nodup_cons.mp distinct).1
      (wayJobs name (by simp))
    refine ⟨_, ?_, finished, ?_, ?_⟩
    · rw [walkFrom_succ, Noted.value_bind, value, Noted.value_pure, Keyed.put_of_not_mem fresh,
        List.append_assoc]
    · intro root here
      obtain rfl : root = name := by simpa using here
      simp
    · have dropped : ((needsOf jobs name).filter (name :: above).contains) =
          (needsOf jobs name).filter fun need =>
            !((needsOf jobs name).filter fun need => !(name :: above).contains need).contains
              need := by
        apply List.filter_congr
        intro need wanted
        simp [wanted]
      have noted := problems.trans List.perm_append_comm
      rw [dropped] at noted
      rw [walkFrom_succ, Noted.problems_bind]
      simpa [allCycleProblems, cycleProblems] using noted

theorem walkAll_advances (jobs : Jobs) (path : String)
    (areJobs : ∀ name, ∀ need ∈ needsOf jobs name, need ∈ jobs.keys) (names : List String)
    (before : Finished) (ofJobs : ∀ name ∈ names, name ∈ jobs.keys) :
    Advances jobs path [] names before (walkAll jobs path names before) := by
  induction names generalizing before with
  | nil =>
    exact ⟨[], by simp [walkAll], progress_nil _ _ _ before, by simp, by
      simp [walkAll, allCycleProblems]⟩
  | cons name rest ih =>
    have walks : ∀ earlier need, need ∈ jobs.keys → need ∉ ([] : List String) →
        need ∉ earlier.keys → Unfinished [] earlier → Advances jobs path [] [need]
          earlier (walkFrom jobs path jobs.length [] earlier need) := by
      intro earlier need isJob _ fresh _
      apply walkFrom_advances jobs path areJobs
      · simpa using isJob
      · simp
      · simp
      · simpa [Unfinished] using fresh
    obtain ⟨first, firstValue, firstWalked, firstReached, firstProblems⟩ :=
      unlessFinished_advances walks before (ofJobs name (by simp)) (by simp)
        (by simp [Unfinished])
    obtain ⟨new, value, walked, reached, problems⟩ :=
      ih (before ++ first) (fun other member => ofJobs other (List.mem_cons_of_mem _ member))
    refine ⟨first ++ new, ?_, firstWalked.append walked, ?_, ?_⟩
    · rw [walkAll_cons, Noted.value_bind, firstValue, value, List.append_assoc]
    · intro root member
      rw [← List.append_assoc]
      rcases List.mem_cons.mp member with rfl | later
      · rw [Keyed.keys_append]
        exact List.mem_append_left _ (firstReached root (by simp))
      · exact reached root later
    · rw [walkAll_cons, Noted.problems_bind, firstValue]
      simpa [allCycleProblems] using firstProblems.append problems

end SupplyLint.Needs
