import SupplyLint.Proofs.Document.Jobs
import SupplyLint.Proofs.Gitlab.Inlining

/-! # Triggers agree with the documents that they name

`triggered_jobs_agree`: what stands under a job that triggers a file of the
repository is what the file gives when it is read alone, and so are the packages
that come with it. -/
set_option autoImplicit false

namespace SupplyLint.Document

open SupplyLint.Gitlab (Alone Layer NoneRefused Startable Starts TopLayer TriggersFile adopted
  gatherBelow inlineChild)
open SupplyLint.Jobs

theorem triggered_jobs_agree {resolve : Resolver} {path caller target : String}
    {content called : List UInt8} {layer : Layer} {trigger : Entries} {pipeline : Pipeline}
    (holds : TopLayer resolve path content layer)
    (triggers : TriggersFile layer caller target trigger)
    (noProject : Value.hasField trigger "project" = false)
    (alone : Alone resolve (gatherBelow resolve) layer caller)
    (startable : Startable resolve path target called)
    (read : outcome (Gitlab.normalize resolve path content) = .ok pipeline) :
    ∃ own, outcome (Gitlab.normalize resolve target called) = .ok own ∧
      StandUnder caller pipeline.jobs (own.orderedJobs.map (adopted caller own.env)) ∧
      (∀ gathered result,
        outcome (inlineChild resolve (gatherBelow resolve) [path] path caller
          (Value.field trigger "include") gathered) = .ok result →
        result.references = gathered.references ++ own.includes) ∧
      own.includes <:+: pipeline.includes := by
  obtain ⟨own, ownRead, under, inside⟩ :=
    Gitlab.normalize_under holds triggers noProject alone startable read
  refine ⟨own, ownRead, under, fun gathered result added => ?_, inside⟩
  obtain ⟨item, written, single, names, isTarget⟩ := triggers.file
  obtain ⟨again, againRead, rfl⟩ := startable.inlineChild_eq_ok single names isTarget added
  obtain rfl := Except.ok.inj (ownRead.symm.trans againRead)
  rfl

/-! ## A configuration with one trigger -/

def topLayer? (resolve : Resolver) (document : Document) : Option Layer := do
  let raw ← (← (outcome (Gitlab.configuration document.path document.content)).toOption)
  let merged ←
    (outcome (Gitlab.merge resolve document.path (maxFiles - 1) [document.path] raw)).toOption
  return ⟨[document.path], document.path, [], merged.entries⟩

theorem topLayer_iff {resolve : Resolver} {document : Document} {layer : Layer} :
    TopLayer resolve document.path document.content layer ↔
      topLayer? resolve document = some layer := by
  constructor
  · rintro ⟨raw, merged, configured, included, rfl⟩
    simp [topLayer?, configured, included, Except.toOption]
  · intro found
    simp only [topLayer?, Option.bind_eq_bind, Option.bind_eq_some_iff] at found
    obtain ⟨_, configured, raw, rfl, merged, included, same⟩ := found
    exact ⟨raw, merged, toOption_eq_some.mp configured, toOption_eq_some.mp included,
      (Option.some.inj same).symm⟩

def jobsOf (layer : Layer) : Except Failure (List (String × Entries)) := do
  let jobs ← uncaught (Gitlab.rawJobsOf layer.entries)
  let visible := jobs.filter fun entry => !Gitlab.isHidden entry.1 && Field.isMapping entry.2
  visible.mapM fun entry => do
    let raw ← outcome (Gitlab.resolveExtends jobs (layer.jobPath entry.1) entry.1)
    return (entry.1, raw)

theorem hasJob_iff {layer : Layer} {jobs : List (String × Entries)}
    (found : jobsOf layer = .ok jobs)
    {name : String} {raw : Entries} : layer.HasJob name raw ↔ (name, raw) ∈ jobs := by
  simp only [jobsOf, bind_eq_ok, uncaught_eq_ok, mapM_eq_ok, pure_eq_ok] at found
  obtain ⟨written, named, each⟩ := found
  constructor
  · rintro ⟨same, ⟨again, visible, entries, member⟩, extended⟩
    obtain rfl := Except.ok.inj (named.symm.trans again)
    have kept : (name, Value.map entries) ∈ written.filter
        fun entry => !Gitlab.isHidden entry.1 && Field.isMapping entry.2 :=
      List.mem_filter.mpr ⟨member, by simp [visible, Field.isMapping]⟩
    obtain ⟨job, inside, other, resolved, rfl⟩ := exists_of_mem_forall₂ each.flip kept
    obtain rfl := Except.ok.inj (extended.symm.trans resolved)
    exact inside
  · intro member
    obtain ⟨⟨key, value⟩, kept, resolved, extended, same⟩ := exists_of_mem_forall₂ each member
    obtain ⟨rfl, rfl⟩ := Prod.mk.inj same
    obtain ⟨inside, visible⟩ := List.mem_filter.mp kept
    rw [Bool.and_eq_true, Bool.not_eq_true'] at visible
    cases value with
    | map entries =>
      exact ⟨written, ⟨named, by simp [visible.1], entries, inside⟩, extended⟩
    | _ => cases visible.2

/-- Whether a job has a trigger, and the one file that the trigger names. -/
def triggerOf (raw : Entries) : Option (Option (Entries × String)) :=
  (Keyed.get? raw (.text "trigger")).map fun trigger =>
    match trigger with
    | .map entries =>
      match (Value.asList (Value.field entries "include")).map Gitlab.Include.ofValue with
      | [.ok (.file written)] => some (entries, Gitlab.stripped written)
      | _ => none
    | _ => none

theorem triggersFile_of_triggerOf {layer : Layer} {name target : String} {raw trigger : Entries}
    (hasJob : layer.HasJob name raw) (triggers : triggerOf raw = some (some (trigger, target))) :
    TriggersFile layer name target trigger := by
  obtain ⟨value, field, triggers⟩ := Option.map_eq_some_iff.mp triggers
  split at triggers
  · next entries =>
    split at triggers
    · next written items =>
      obtain ⟨rfl, rfl⟩ := Prod.mk.inj (Option.some.inj triggers)
      obtain ⟨item, rest, single, names, nothing⟩ := List.map_eq_cons_iff.mp items
      rw [List.map_eq_nil_iff.mp nothing] at single
      exact ⟨⟨raw, hasJob, field⟩, item, written, single, names, rfl⟩
    · cases triggers
  · cases triggers

theorem not_starts_of_triggerOf {raw : Entries} (none : triggerOf raw = none) (includes : Value) :
    ¬ Starts raw includes := by
  rintro ⟨trigger, field, -⟩
  rw [triggerOf, field] at none
  cases none

/-- The jobs of the configuration of a document: of each its name, the file that its trigger names,
and whether the trigger names a project too. -/
def triggersOf (resolve : Resolver) (document : Document) :
    Option (List (String × Option (Option (String × Bool)))) := do
  let jobs ← (jobsOf (← topLayer? resolve document)).toOption
  return jobs.map fun job => (job.1, (triggerOf job.2).map fun file =>
    file.map fun named => (named.2, Value.hasField named.1 "project"))

theorem triggersOf_eq_some {resolve : Resolver} {document : Document}
    {listed : List (String × Option (Option (String × Bool)))}
    (found : triggersOf resolve document = some listed) :
    ∃ layer, TopLayer resolve document.path document.content layer ∧
      (∀ name raw, layer.HasJob name raw → ∃ shown, (name, shown) ∈ listed ∧
        (shown = none → ∀ includes, ¬ Starts raw includes)) ∧
      ∀ name target project, (name, some (some (target, project))) ∈ listed →
        ∃ trigger, TriggersFile layer name target trigger ∧
          Value.hasField trigger "project" = project := by
  simp only [triggersOf, Option.bind_eq_bind, Option.bind_eq_some_iff] at found
  obtain ⟨layer, top, jobs, jobsRead, same⟩ := found
  obtain rfl := Option.some.inj same
  have jobsRead := toOption_eq_some.mp jobsRead
  refine ⟨layer, topLayer_iff.mpr top, fun name raw hasJob => ?_,
    fun name target project member => ?_⟩
  · have inside := (hasJob_iff jobsRead).mp hasJob
    refine ⟨_, List.mem_map_of_mem inside, fun none => not_starts_of_triggerOf ?_⟩
    exact Option.map_eq_none_iff.mp none
  · obtain ⟨⟨key, raw⟩, inside, pair⟩ := List.mem_map.mp member
    obtain ⟨rfl, shown⟩ := Prod.mk.inj pair
    obtain ⟨file, triggers, named⟩ := Option.map_eq_some_iff.mp shown
    obtain ⟨⟨trigger, path⟩, rfl, same⟩ := Option.map_eq_some_iff.mp named
    obtain ⟨rfl, rfl⟩ := Prod.mk.inj same
    exact ⟨trigger, triggersFile_of_triggerOf ((hasJob_iff jobsRead).mpr inside) triggers, rfl⟩

def includesNone (raw : Entries) : Bool :=
  (Gitlab.includeItems raw).all fun item => match Gitlab.Include.ofValue item with
    | .ok (.file _) => false
    | _ => true

theorem noneRefused_of_includesNone {resolve : Resolver} {file : File}
    (none : includesNone file.entries = true) : NoneRefused resolve file := by
  have includes (target : String) : ¬ Gitlab.Includes file.entries target := by
    rintro ⟨item, member, written, found, -⟩
    have noFile := List.all_eq_true.mp none item member
    simp [found] at noFile
  intro last reached target named
  rcases Relation.ReflTransGen.cases_head reached with rfl | ⟨next, ⟨opened, tries, -⟩, -⟩
  · exact absurd named (includes target)
  · exact absurd tries.1 (includes opened)

theorem noneRefused_of_no_starts {resolve : Resolver} {layer : Layer}
    (none : ∀ name raw, layer.HasJob name raw → ∀ includes, ¬ Starts raw includes) :
    layer.NoneRefused resolve := by
  intro last reached name raw includes hasJob starts
  rcases Relation.ReflTransGen.cases_head reached with rfl | ⟨next, triggers, -⟩
  · exact absurd starts (none name raw hasJob includes)
  · obtain ⟨name, raw, includes, files, hasJob, starts, -⟩ := triggers
    exact absurd starts (none name raw hasJob includes)

/-- A file that includes no file and starts nothing has nothing that could be refused. -/
structure Quiet (resolve : Resolver) (called : Document) : Prop where
  included : ∀ raw, outcome (Gitlab.configuration called.path called.content) = .ok (some raw) →
    ∀ chain, NoneRefused resolve ⟨chain, raw⟩
  triggered : ∀ layer, TopLayer resolve called.path called.content layer →
    ∀ chain, Layer.NoneRefused resolve { layer with chain := chain }

theorem quiet_of_no_triggers {resolve : Resolver} {called : Document}
    (includes : (outcome (Gitlab.configuration called.path called.content)).toOption.map
      (fun raw => raw.all includesNone) = some true)
    {listed : List (String × Option (Option (String × Bool)))}
    (found : triggersOf resolve called = some listed)
    (none : listed.all (fun job => job.2.isNone) = true) : Quiet resolve called where
  included := by
    intro raw configured chain
    obtain ⟨other, same, all⟩ := toOption_map_eq_some.mp includes
    obtain rfl := Except.ok.inj (configured.symm.trans same)
    exact noneRefused_of_includesNone all
  triggered := by
    intro layer top chain
    obtain ⟨other, same, jobs, -⟩ := triggersOf_eq_some found
    obtain rfl := Option.some.inj ((topLayer_iff.mp top).symm.trans (topLayer_iff.mp same))
    refine noneRefused_of_no_starts fun name raw hasJob => ?_
    obtain ⟨shown, member, absent⟩ := jobs name raw hasJob
    exact absent (Option.isNone_iff_eq_none.mp (List.all_eq_true.mp none _ member))

theorem alone_of_no_starts {resolve : Resolver} {parse : Option Gitlab.Parsing} {layer : Layer}
    {caller : String}
    (others : ∀ name, name ≠ caller → ∀ raw, layer.HasJob name raw →
      isUnder caller name = false ∧ ∀ includes, ¬ Starts raw includes) :
    Alone resolve parse layer caller := by
  intro name other raw hasJob found brings
  rcases brings with rfl | ⟨same, includes, files, child, read, gathered, hasSame, starts, -⟩
  · exact (others _ other raw hasJob).1
  · exact absurd starts ((others name other same hasSame).2 includes)

def startingDocument : Document :=
  ofText .gitlab "a.yml" "a:\n script: b\nt:\n trigger:\n  include: c.yml\n"

def startedDocument : Document :=
  ofText .gitlab "c.yml"
    ("include:\n project: g/p\nvariables:\n V: 1\n" ++
      "x:\n needs: [y]\n variables:\n  V: 2\ny:\n script: a\n")

def startedFiles : Resolver :=
  resolver [startedDocument] Source.none

theorem trigger_of_two_jobs_agrees :
    ∃ pipeline own, outcome (startingDocument.pipeline startedFiles) = .ok pipeline ∧
      outcome (startedDocument.pipeline startedFiles) = .ok own ∧
      own.jobs.keys = ["x", "y"] ∧ own.includes.length = 1 ∧
      StandUnder "t" pipeline.jobs (own.orderedJobs.map (adopted "t" own.env)) ∧
      own.includes <:+: pipeline.includes := by
  have triggers : triggersOf startedFiles startingDocument =
      some [("a", none), ("t", some (some ("c.yml", false)))] := by decide +kernel
  have noTriggers : triggersOf startedFiles startedDocument = some [("x", none), ("y", none)] := by
    decide +kernel
  have includes : (outcome (Gitlab.configuration startedDocument.path
      startedDocument.content)).toOption.map (fun raw => raw.all includesNone) = some true := by
    decide +kernel
  have returned : (outcome (startingDocument.pipeline startedFiles)).toOption.isSome = true := by
    decide +kernel
  have facts : (outcome (startedDocument.pipeline startedFiles)).toOption.map
      (fun own => (own.jobs.keys, own.includes.length)) = some (["x", "y"], 1) := by
    decide +kernel
  have found : (startedFiles "c.yml").toOption = some (some startedDocument.content) := by
    decide +kernel
  obtain ⟨layer, top, jobs, files⟩ := triggersOf_eq_some triggers
  obtain ⟨trigger, triggersFile, noProject⟩ := files "t" "c.yml" false (by simp)
  have quiet := quiet_of_no_triggers includes noTriggers rfl
  have startable : Startable startedFiles "a.yml" "c.yml" startedDocument.content :=
    ⟨toOption_eq_some.mp found, by decide, by decide, fun raw opens => quiet.included raw opens _,
      fun below topBelow => quiet.triggered below topBelow _⟩
  have alone : Alone startedFiles (gatherBelow startedFiles) layer "t" := by
    refine alone_of_no_starts fun name other raw hasJob => ?_
    obtain ⟨shown, member, absent⟩ := jobs name raw hasJob
    simp only [List.mem_cons, Prod.mk.injEq, List.not_mem_nil, or_false, other, false_and] at member
    exact ⟨by rw [member.1]; decide, absent member.2⟩
  obtain ⟨pipeline, read⟩ := Option.isSome_iff_exists.mp returned
  obtain ⟨own, ownRead, under, -, inside⟩ := triggered_jobs_agree top triggersFile noProject alone
    startable (toOption_eq_some.mp read)
  obtain ⟨same, sameRead, shown⟩ := toOption_map_eq_some.mp facts
  obtain rfl := Except.ok.inj (ownRead.symm.trans sameRead)
  obtain ⟨keys, count⟩ := Prod.mk.inj shown
  exact ⟨pipeline, own, toOption_eq_some.mp read, ownRead, keys, count, under, inside⟩

/-! ## Triggers that start no file

A trigger with a project starts that project, a path with an asterisk stands for
many files, and a configuration does not start itself. -/

/-- A job names one file for its trigger, no other job stands under it and nothing beyond the file
is refused, and still the jobs under it are not those of the file. -/
def Disagrees (resolve : Resolver) (document called : Document) (caller : String) : Prop :=
  ∃ layer trigger pipeline own,
    TopLayer resolve document.path document.content layer ∧
    TriggersFile layer caller called.path trigger ∧
    Alone resolve (gatherBelow resolve) layer caller ∧
    resolve called.path = .ok (some called.content) ∧ Quiet resolve called ∧
    outcome (Gitlab.normalize resolve document.path document.content) = .ok pipeline ∧
    outcome (Gitlab.normalize resolve called.path called.content) = .ok own ∧
    ¬ StandUnder caller pipeline.jobs (own.orderedJobs.map (adopted caller own.env))

theorem length_numbered (first : Nat) (jobs : List Job) :
    (numbered first jobs).length = jobs.length := by
  induction jobs generalizing first with
  | nil => rfl
  | cons job rest ih => simp [numbered, ih]

theorem disagrees_of_no_jobs {resolve : Resolver} {document called : Document} {caller : String}
    (project : Bool)
    (triggers : triggersOf resolve document = some [(caller, some (some (called.path, project)))])
    (noTriggers : triggersOf resolve called = some [("x", none)])
    (includes : (outcome (Gitlab.configuration called.path called.content)).toOption.map
      (fun raw => raw.all includesNone) = some true)
    (found : (resolve called.path).toOption = some (some called.content))
    (jobs : (outcome (Gitlab.normalize resolve document.path document.content)).toOption.map
      (fun pipeline => (under caller pipeline.jobs).length) = some 0)
    (ownJobs : (outcome (Gitlab.normalize resolve called.path called.content)).toOption.map
      (fun own => own.jobs.length) = some 1) :
    Disagrees resolve document called caller := by
  obtain ⟨layer, top, others, files⟩ := triggersOf_eq_some triggers
  obtain ⟨trigger, triggersFile, -⟩ := files caller called.path project List.mem_cons_self
  have alone : Alone resolve (gatherBelow resolve) layer caller := by
    refine alone_of_no_starts fun name other raw hasJob => ?_
    obtain ⟨shown, member, -⟩ := others name raw hasJob
    exact absurd (Prod.mk.inj (List.mem_singleton.mp member)).1 other
  obtain ⟨pipeline, read, none⟩ := toOption_map_eq_some.mp jobs
  obtain ⟨own, ownRead, one⟩ := toOption_map_eq_some.mp ownJobs
  refine ⟨layer, trigger, pipeline, own, top, triggersFile, alone, toOption_eq_some.mp found,
    quiet_of_no_triggers includes noTriggers rfl, read, ownRead, fun stand => ?_⟩
  obtain ⟨first, placed⟩ := stand.inOrder
  have count := congrArg List.length placed
  rw [none, length_numbered, List.length_map, Pipeline.orderedJobs, Jobs.ordered,
    List.length_mergeSort, Keyed.values, List.length_map, one] at count
  exact absurd count (by decide)

def projectTrigger : Document :=
  ofText .gitlab "a.yml" "t:\n trigger:\n  project: g/p\n  include: c.yml\n"

def wildcardTrigger : Document :=
  ofText .gitlab "a.yml" "t:\n trigger:\n  include: 'c*.yml'\n"

def selfTrigger : Document :=
  ofText .gitlab "a.yml" "t:\n trigger:\n  include: a.yml\n"

def oneJob (path : String) : Document :=
  ofText .gitlab path "x:\n script: a\n"

def oneJobAt (path : String) : Resolver :=
  oneFile path "x:\n script: a\n"

theorem triggers_that_start_no_file :
    Disagrees (oneJobAt "c.yml") projectTrigger (oneJob "c.yml") "t" ∧
      Disagrees (oneJobAt "c*.yml") wildcardTrigger (oneJob "c*.yml") "t" ∧
      Disagrees (oneJobAt "a.yml") selfTrigger (oneJob "a.yml") "t" := by
  refine ⟨?_, ?_, ?_⟩
  · exact disagrees_of_no_jobs true (by decide +kernel) (by decide +kernel)
      (by decide +kernel) (by decide +kernel) (by decide +kernel) (by decide +kernel)
  · exact disagrees_of_no_jobs false (by decide +kernel) (by decide +kernel)
      (by decide +kernel) (by decide +kernel) (by decide +kernel) (by decide +kernel)
  · exact disagrees_of_no_jobs false (by decide +kernel) (by decide +kernel)
      (by decide +kernel) (by decide +kernel) (by decide +kernel) (by decide +kernel)

end SupplyLint.Document
