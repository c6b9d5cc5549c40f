import SupplyLint.Proofs.Github.Returns
import SupplyLint.Proofs.Reading

/-! # Workflows that are reached in different ways

A workflow is read in the same way however it is reached, as long as no call is
refused on the longer one of two ways: the chain of files matters for nothing but
for the calls that are refused. -/
set_option autoImplicit false

namespace SupplyLint.Github

/-- No call that is met in the files that are reached from a file is refused. -/
def NoneRefused (resolve : Resolver) (file : File) : Prop :=
  ∀ last, Relation.ReflTransGen (Opens Calls (opened resolve)) file last →
    ∀ target, Calls last.entries target → Tries Calls last target

theorem NoneRefused.opens {resolve : Resolver} {file next : File}
    (unrefused : NoneRefused resolve file) (step : Opens Calls (opened resolve) file next) :
    NoneRefused resolve next :=
  fun last reached => unrefused last (.head step reached)

theorem noneRefused_of_noCalls {resolve : Resolver} {file : File}
    (noCalls : ∀ target, ¬ Calls file.entries target) : NoneRefused resolve file := by
  intro last reached target calls
  rcases Relation.ReflTransGen.cases_head reached with rfl | ⟨next, ⟨opened, tries, -⟩, -⟩
  · exact absurd calls (noCalls target)
  · exact absurd tries.1 (noCalls opened)

def entryTarget (entry : Value × Value) : Option String :=
  match entry.2 with
  | .map raw => (usesText (Value.field raw "uses")).toOption.bind targetOf
  | _ => none

theorem entryCalls_iff_entryTarget {entry : Value × Value} {target : String} :
    EntryCalls entry target ↔ entryTarget entry = some target := by
  obtain ⟨key, value⟩ := entry
  unfold entryTarget
  constructor
  · rintro ⟨raw, uses, rfl, read, same⟩
    simpa [read, Except.toOption] using same
  · intro found
    cases value with
    | map raw =>
      obtain ⟨uses, read, same⟩ := Option.bind_eq_some_iff.mp found
      exact ⟨raw, uses, rfl, toOption_eq_some.mp read, same⟩
    | _ => cases found

section Congruence
variable {first second : Follow}

theorem entryCalls_iff {path name target : String} {index : Nat} {key : Value} {raw : Entries}
    {written : Job} (wrote : outcome (job path name index raw) = .ok written) :
    EntryCalls (key, .map raw) target ↔ callTarget written = some target := by
  obtain ⟨-, -, uses⟩ := job_identity wrote
  constructor
  · rintro ⟨_, found, ⟨⟩, usesRead, same⟩
    obtain rfl := Except.ok.inj (uses.symm.trans usesRead)
    exact same
  · intro same
    exact ⟨raw, written.uses, rfl, uses, same⟩

theorem parseJobs_congr (path : String) (entries : Entries)
    (same : ∀ entry ∈ entries, ∀ target, EntryCalls entry target →
      ∀ caller, first path caller target = second path caller target) (jobs : Jobs) :
    parseJobs first path entries jobs = parseJobs second path entries jobs := by
  induction entries generalizing jobs with
  | nil => rfl
  | cons entry rest ih =>
    obtain ⟨key, raw⟩ := entry
    rw [List.forall_mem_cons] at same
    obtain ⟨own, others⟩ := same
    cases raw with
    | map raw =>
      simp only [parseJobs]
      refine bind_congr_of_outcome fun name _ => bind_congr_of_outcome fun written wrote => ?_
      cases call : callTarget written with
      | none => exact ih others _
      | some target =>
        simp only [own target ((entryCalls_iff wrote).mpr call) written]
        refine bind_congr_of_outcome fun called _ => ?_
        cases called with
        | none => exact ih others _
        | some called => exact ih others _
    | _ =>
      simp only [parseJobs]
      exact bind_congr_of_outcome fun name _ => bind_congr_of_outcome fun _ _ => ih others _

theorem workflowWith_congr {path : String} {raw : Entries}
    (same : ∀ target, Calls raw target →
      ∀ caller, first path caller target = second path caller target) :
    workflowWith first path raw = workflowWith second path raw := by
  have jobs : jobsOf first path (Value.field raw "jobs") =
      jobsOf second path (Value.field raw "jobs") := by
    unfold jobsOf
    split
    · rfl
    · next entries field =>
      refine congrArg (· >>= _) (parseJobs_congr path _ ?_ [])
      intro entry member target calls
      exact same target ⟨entry, member, calls⟩
    · rfl
  unfold workflowWith
  rw [jobs]

end Congruence

theorem followCall_of_not_mem (resolve : Resolver) (room : Nat)
    {chain : List String} (path : String)
    (caller : Job) {target : String} (outside : target ∉ chain) :
    followCall resolve (room + 1) chain path caller target =
      (openTarget resolve path caller target >>= fun
        | none => pure none
        | some called => some <$> workflow resolve room (chain ++ [target]) target called) := by
  have notInside : ¬ chain.contains target = true := by simpa using outside
  refine (if_neg notInside).trans (congrArg _ (funext fun found => ?_))
  cases found with
  | none => rfl
  | some called => rfl

theorem followCall_opens {resolve : Resolver} {file : File} {path target : String} {caller : Job}
    {called : Pipeline} (calls : Calls file.entries target)
    (followed : outcome (followCall resolve (maxFiles - file.chain.length) file.chain path caller
      target) = .ok (some called)) :
    ∃ next, Opens Calls (opened resolve) file next ∧ next.chain = file.chain ++ [target] ∧
      outcome (workflow resolve (maxFiles - next.chain.length) next.chain target next.entries) =
        .ok called := by
  cases room : maxFiles - file.chain.length with
  | zero =>
    rw [room, followCall, outcome_refuseCall] at followed
    cases followed
  | succ fewer =>
    rw [room] at followed
    by_cases inChain : target ∈ file.chain
    · have contains : file.chain.contains target = true := by simpa using inChain
      simp only [followCall] at followed
      rw [if_pos contains, outcome_refuseCall] at followed
      cases followed
    · rw [followCall_of_not_mem _ _ _ _ inChain, outcome_bind, outcome_openTarget,
        bind_eq_ok] at followed
      obtain ⟨found, opens, followed⟩ := followed
      cases found with
      | none => cases followed
      | some raw =>
        simp only [outcome_map, map_eq_ok, Option.some.injEq, exists_eq_right] at followed
        have below : maxFiles - (file.chain ++ [target]).length = fewer := by
          rw [List.length_append, List.length_singleton]
          omega
        refine ⟨⟨file.chain ++ [target], raw⟩,
          ⟨target, ⟨calls, inChain, by omega⟩, opens, rfl⟩, rfl, ?_⟩
        rw [below]
        exact followed

theorem workflow_congr {resolve : Resolver} {file : File} {shorter : List String}
    (unrefused : NoneRefused resolve file) (inChain : shorter ⊆ file.chain)
    (less : shorter.length ≤ file.chain.length) (path : String) :
    workflow resolve (maxFiles - shorter.length) shorter path file.entries =
      workflow resolve (maxFiles - file.chain.length) file.chain path file.entries := by
  induction room : maxFiles - file.chain.length generalizing file shorter path with
  | zero =>
    rw [workflow_eq, workflow_eq]
    refine workflowWith_congr fun target calls => ?_
    -- From a full chain every call would be refused, so there is none.
    have tries := unrefused file .refl target calls
    exact absurd tries.2.2 (Nat.not_lt.mpr (Nat.le_of_sub_eq_zero room))
  | succ fewer ih =>
    rw [workflow_eq, workflow_eq]
    refine workflowWith_congr fun target calls caller => ?_
    have tries := unrefused file .refl target calls
    obtain ⟨more, shorterRoom⟩ : ∃ more, maxFiles - shorter.length = more + 1 :=
      ⟨maxFiles - shorter.length - 1, by omega⟩
    have outside : target ∉ shorter := fun inside => tries.2.1 (inChain inside)
    rw [shorterRoom, followCall_of_not_mem _ _ _ _ outside,
      followCall_of_not_mem _ _ _ _ tries.2.1]
    refine bind_congr_of_outcome fun found opens => ?_
    cases found with
    | none => rfl
    | some called =>
      rw [outcome_openTarget] at opens
      have next : NoneRefused resolve ⟨file.chain ++ [target], called⟩ :=
        unrefused.opens ⟨target, tries, opens, rfl⟩
      have inside : shorter ++ [target] ⊆ file.chain ++ [target] := by
        intro path member
        rw [List.mem_append] at member ⊢
        exact member.imp_left (inChain ·)
      have below := ih next inside (by simpa using less) target
        (by rw [List.length_append, List.length_singleton]; omega)
      have roomBelow : maxFiles - (shorter ++ [target]).length = more := by
        rw [List.length_append, List.length_singleton]
        omega
      rw [roomBelow] at below
      exact congrArg (some <$> ·) below

end SupplyLint.Github
