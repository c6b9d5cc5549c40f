import SupplyLint.Proofs.Gitlab.ChildFiles
import SupplyLint.Proofs.Gitlab.Configuration
import SupplyLint.Proofs.Gitlab.Includes
import SupplyLint.Proofs.Plain

/-! # What the jobs of configurations hold

`normalize_plain`: the jobs of a configuration and of its child pipelines are
plain, and all that it includes or triggers elsewhere are GitLab projects. -/
set_option autoImplicit false

namespace SupplyLint.Gitlab

open SupplyLint.Jobs
open SupplyLint.PackageRef
open SupplyLint.Text

/-! ## References -/

def AreHashed (references : List PackageRef) : Prop :=
  ∀ ref ∈ references, ref.scheme ∈ hashedSchemes

theorem areHashed_append {first second : List PackageRef} (here : AreHashed first)
    (there : AreHashed second) : AreHashed (first ++ second) := by
  intro ref member
  rcases List.mem_append.mp member with inFirst | inSecond
  · exact here ref inFirst
  · exact there ref inSecond

theorem areHashed_nil : AreHashed [] := by
  intro ref member
  exact absurd member List.not_mem_nil

theorem ofValue_hashed {item : Value} {ref : Option PackageRef}
    (read : Include.ofValue item = .ok (.package ref)) : AreHashed ref.toList := by
  intro package member
  rw [Option.mem_toList] at member
  subst member
  cases item with
  | text target =>
    simp only [Include.ofValue] at read
    split at read
    · cases read
    · cases read
  | map entries =>
    simp only [Include.ofValue, Include.ofEntries] at read
    split at read
    · obtain ⟨path, -, made⟩ := map_eq_ok.mp read
      cases made
    · split at read
      · simp only [bind_eq_ok, pure_eq_ok, Include.package.injEq] at read
        obtain ⟨project, -, made⟩ := read
        exact ofGitlabProject_eq_some made
      · split at read
        · obtain ⟨component, -, made⟩ := map_eq_ok.mp read
          exact ofGitlabComponent_eq_some (Include.package.inj made)
        · obtain ⟨what, -, made⟩ := map_eq_ok.mp read
          cases made
  | _ => cases read

def EntersHashed (enter : String → Normalizing (Option Merged)) : Prop :=
  ∀ target file, outcome (enter target) = .ok (some file) → AreHashed file.references

theorem mergeList_hashed {enter : String → Normalizing (Option Merged)}
    (enters : EntersHashed enter)
    (path : String) (items : List Value) {merged result : Merged}
    (before : AreHashed merged.references)
    (read : outcome (mergeList enter path items merged) = .ok result) :
    AreHashed result.references := by
  refine mergeList_holds (fun merged => AreHashed merged.references) items ?_ ?_ before read
  · intro item _ target _ file opens base hashed
    exact areHashed_append hashed (enters target file opens)
  · intro item _ ref names base hashed
    exact areHashed_append hashed (ofValue_hashed names)

theorem mergeWith_hashed {enter : String → Normalizing (Option Merged)}
    (enters : EntersHashed enter) {path : String} {raw : Entries} {result : Merged}
    (read : outcome (mergeWith enter path raw) = .ok result) : AreHashed result.references := by
  rcases mergeWith_eq_ok read with ⟨-, rfl⟩ | ⟨included, listed, rfl⟩
  · exact areHashed_nil
  · have hashed : AreHashed included.references :=
        mergeList_hashed enters path _ areHashed_nil listed
    exact hashed

def MergesHashed (merging : Option Merging) : Prop :=
  ∀ merge, merging = some merge → ∀ chain raw result,
    outcome (merge chain raw) = .ok result → AreHashed result.references

theorem enterWith_hashed {resolve : Resolver} {path : String} {merging : Option Merging}
    (merges : MergesHashed merging) (chain : List String) :
    EntersHashed (enterWith resolve path merging chain) := by
  intro target file entered
  by_cases refused : contains (stripped target) "*" = true ∨ stripped target ∈ chain
  · rw [outcome_enterWith_refused resolve path refused] at entered
    cases entered
  · obtain ⟨plain, outside⟩ := not_or.mp refused
    cases merging with
    | none =>
      rw [outcome_enterWith_none] at entered
      cases entered
    | some merge =>
      rw [outcome_enterWith_some resolve path plain outside] at entered
      obtain ⟨found, -, entered⟩ := bind_eq_ok.mp entered
      cases found with
      | none => cases entered
      | some raw =>
        simp only [map_eq_ok, Option.some.injEq, exists_eq_right] at entered
        exact merges merge rfl _ _ file entered

theorem mergesHashed_none : MergesHashed none := by
  intro merge none
  cases none

theorem mergesHashed_merge (resolve : Resolver) (path : String) (room : Nat) :
    MergesHashed (some (merge resolve path room)) := by
  induction room with
  | zero =>
    intro _ same chain raw result read
    cases same
    exact mergeWith_hashed (enterWith_hashed mergesHashed_none chain) read
  | succ room ih =>
    intro _ same chain raw result read
    cases same
    exact mergeWith_hashed (enterWith_hashed ih chain) read

theorem enter_hashed (resolve : Resolver) (path : String) (chain : List String) :
    EntersHashed (enter resolve path chain) := by
  intro target file entered
  unfold enter at entered
  split at entered
  · exact enterWith_hashed mergesHashed_none chain target file entered
  · exact enterWith_hashed (mergesHashed_merge resolve path _) chain target file entered

theorem childFiles_hashed {enter : String → Normalizing (Option Merged)}
    (enters : EntersHashed enter) (path location : String) (items : List Value)
    {files result : ChildFiles} (before : AreHashed files.references)
    (read : outcome (childFiles enter path location items files) = .ok result) :
    AreHashed result.references := by
  refine childFiles_holds (fun files => AreHashed files.references) items ?_ before read
  intro item _ before more takes hashed
  cases takes with
  | file names opens added =>
    obtain ⟨keys, -, rfl⟩ := add_eq_ok added
    exact areHashed_append hashed (enters _ _ opens)
  | package names => exact areHashed_append hashed (ofValue_hashed names)
  | nothing => exact hashed

/-! ## Jobs -/

theorem steps_isPlain {raw defaults : Entries} {lines : List Step}
    (read : steps raw defaults = .ok lines) : ∀ step ∈ lines, step.IsPlain := by
  simp only [steps, bind_eq_ok, pure_eq_ok] at read
  obtain ⟨named, -, rfl⟩ := read
  intro step member
  obtain ⟨line, -, rfl⟩ := List.mem_map.mp member
  exact Step.isPlain_of_run rfl

theorem job_isPlain {path name : String} {index : Nat} {raw defaults : Entries} {written : Job}
    (read : outcome (job path name index raw defaults) = .ok written) :
      written.IsPlain IsHashed := by
  obtain ⟨lines, waited, labels, env, linesRead, -, -, -, rfl⟩ := job_eq_ok read
  exact ⟨⟨labels, rfl⟩, steps_isPlain linesRead, fun ref member => isWritten_of_mem_images member,
    by simp⟩

theorem downstream_hashed {trigger : Value} {package : PackageRef}
    (starts : Downstream.ofValue trigger = .ok (.project (some package))) :
    package.scheme ∈ hashedSchemes := by
  cases trigger with
  | text name =>
    simp only [Downstream.ofValue, Except.ok.injEq, Downstream.project.injEq] at starts
    exact ofGitlabProject_eq_some starts
  | map entries =>
    simp only [Downstream.ofValue] at starts
    split at starts
    · simp only [bind_eq_ok, pure_eq_ok, Downstream.project.injEq] at starts
      obtain ⟨project, -, made⟩ := starts
      exact ofGitlabProject_eq_some made
    · split at starts
      · cases starts
      · cases starts
  | _ => cases starts

structure Gathered.IsPlain (gathered : Gathered) : Prop where
  jobs : gathered.jobs.ArePlain IsHashed
  references : AreHashed gathered.references

def ReadsPlain (parse : Option Parsing) : Prop :=
  ∀ childOf, parse = some childOf → ∀ chain path origins raw gathered,
    outcome (childOf chain path origins raw) = .ok gathered → gathered.IsPlain

section Plain
variable {resolve : Resolver} {parse : Option Parsing} {chain : List String} {path : String}

theorem inlineChild_isPlain (reads : ReadsPlain parse) {caller : String} {includes : Value}
    {gathered result : Gathered} (plain : gathered.IsPlain)
    (read : outcome (inlineChild resolve parse chain path caller includes gathered) = .ok result) :
    result.IsPlain := by
  obtain ⟨files, opened, cases⟩ := inlineChild_eq_ok read
  have inFiles := childFiles_hashed (enter_hashed resolve path chain) path _ _ areHashed_nil opened
  have known := areHashed_append plain.references inFiles
  rcases cases with ⟨-, rfl⟩ |
      ⟨childOf, key, first, rest, shared, child, parses, -, childRead, -, rfl⟩
  · exact ⟨plain.jobs, known⟩
  · have inner := reads childOf parses _ _ _ _ _ childRead
    refine ⟨?_, areHashed_append known inner.references⟩
    exact plain.jobs.adoptAll (inner.jobs.validate first)
      fun job own => ⟨own.labels, own.steps, own.images, own.package⟩

theorem addJob_isPlain (reads : ReadsPlain parse) {jobPath : String} {written : Job} {raw : Entries}
    {gathered result : Gathered} (own : written.IsPlain IsHashed) (plain : gathered.IsPlain)
    (read : outcome (addJob resolve parse chain path jobPath written raw gathered) = .ok result) :
    result.IsPlain := by
  have added : (withJob written gathered).IsPlain :=
    ⟨plain.jobs.put written.name own, plain.references⟩
  rcases addJob_eq_ok read with ⟨-, rfl⟩ | ⟨trigger, downstream, -, starts, read⟩
  · exact added
  · cases downstream with
    | project ref =>
      obtain rfl := read
      refine ⟨plain.jobs.put written.name ⟨own.labels, own.steps, own.images, ?_⟩, plain.references⟩
      intro package same
      have same : ref = some package := same
      subst same
      exact downstream_hashed starts
    | malformed reason =>
      obtain rfl := read
      exact added
    | child includes => exact inlineChild_isPlain reads added read

theorem addJobs_isPlain (reads : ReadsPlain parse) {origins : Keyed String String}
    {defaults : Entries} {all : RawJobs} (entries : RawJobs) {gathered result : Gathered}
    (plain : gathered.IsPlain)
    (read : outcome (addJobs resolve parse chain path origins defaults all entries gathered) =
      .ok result) : result.IsPlain := by
  refine addJobs_keeps Gathered.IsPlain entries ?_ plain read
  intro name own _ _ raw written kept before reached _ wrote added plain
  have sourced : (withSources raw kept before).IsPlain := ⟨plain.jobs, plain.references⟩
  exact addJob_isPlain reads (job_isPlain wrote) sourced added

theorem gatherWith_isPlain (reads : ReadsPlain parse) :
    ReadsPlain (some (gatherWith resolve parse)) := by
  intro _ same chain path origins raw gathered read
  cases same
  obtain ⟨jobs, -, read⟩ := gatherWith_eq_ok read
  exact addJobs_isPlain reads jobs ⟨arePlain_nil, areHashed_nil⟩ read

theorem gather_isPlain (resolve : Resolver) (levels : Nat) :
    ReadsPlain (some (gather resolve levels)) := by
  induction levels with
  | zero =>
    refine gatherWith_isPlain ?_
    intro childOf none
    cases none
  | succ levels ih => exact gatherWith_isPlain ih

end Plain

theorem normalize_plain {resolve : Resolver} {path : String} {content : List UInt8}
    {pipeline : Pipeline} (read : outcome (normalize resolve path content) = .ok pipeline) :
    pipeline.jobs.ArePlain IsHashed ∧ AreHashed pipeline.includes := by
  rcases normalize_eq_ok_iff.mp read with ⟨-, rfl⟩ | ⟨raw, merged, env, gathered, -, included, -,
    gathers, rfl⟩
  · exact ⟨arePlain_nil, areHashed_nil⟩
  · have plain := gather_isPlain resolve maxFiles _ rfl _ _ _ _ _ gathers
    refine ⟨plain.jobs.validate path, areHashed_append ?_ plain.references⟩
    exact mergesHashed_merge resolve path (maxFiles - 1) _ rfl _ _ merged included

end SupplyLint.Gitlab
