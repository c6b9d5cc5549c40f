import SupplyLint.Proofs.Document.Jobs
import SupplyLint.Proofs.Document.Repository
import SupplyLint.Proofs.Github.Inlining

/-! # Calls agree with the documents that they name

`called_jobs_agree`: what stands under a job that calls a file of the repository
is what the file gives when it is read alone, and what is wrong with the file is
noted once, however often it is called. -/
set_option autoImplicit false

namespace SupplyLint.Document

open SupplyLint.Github (adopted Callable CallsAlone entriesOf followTop)
open SupplyLint.Jobs

theorem called_jobs_agree {resolve : Resolver} {path caller target : String}
    {content called : List UInt8} {raw : Entries} {pipeline : Pipeline}
    (holds : entriesOf path content = .ok (some raw))
    (isWorkflow : Github.isActionMetadata path = false)
    (calls : CallsAlone resolve path raw caller target)
    (callable : Callable resolve path target called)
    (read : outcome (Github.normalize resolve path content) = .ok pipeline) :
    ∃ own, outcome (Github.normalize resolve target called) = .ok own ∧
      StandUnder caller pipeline.jobs (own.orderedJobs.map (adopted caller own.permissions)) ∧
      (∀ written, noted (followTop resolve path path written target) =
        noted (Github.normalize resolve target called)) ∧
      noted (Github.normalize resolve target called) <:+:
        noted (Github.normalize resolve path content) ∧
      ∀ (documents : List Document) (fallback : Resolver) (normalized : Normalized),
        ⟨.github, path, content⟩ ∈ documents → resolver (byPath documents) fallback = resolve →
        readAll documents fallback = .ok normalized →
        ∀ problem ∈ noted (Github.normalize resolve target called),
          normalized.problems.count problem = 1 := by
  obtain ⟨own, ownRead, under, inside⟩ :=
    Github.normalize_under holds isWorkflow calls callable read
  refine ⟨own, ownRead, under, callable.noted_follow, inside, ?_⟩
  rintro documents fallback normalized member rfl all problem met
  exact count_problem all member (inside.subset met)

/-! ## A workflow with one call -/

def callingDocument : Document :=
  ofText .github "c.yml" "jobs:\n a:\n  runs-on: l\n c:\n  uses: ./t.yml@v1\n"

def calledDocument : Document :=
  ofText .github "t.yml"
    "permissions: read-all\njobs:\n y:\n  needs: [x, z]\n x:\n  permissions:\n   contents: read\n"

def callingFiles : Resolver :=
  resolver [callingDocument, calledDocument] Source.none

theorem byPath_callingDocuments :
    byPath [callingDocument, calledDocument] = [callingDocument, calledDocument] := by
  have sorted : (!decide (calledDocument.path < callingDocument.path)) = true := by decide +kernel
  apply List.mergeSort_of_pairwise
  refine List.pairwise_cons.mpr ⟨fun other member => ?_, List.pairwise_singleton _ _⟩
  rw [List.mem_singleton.mp member]
  exact sorted

def callsOf (document : Document) : Option (List (Option String × Option String)) :=
  (entriesOf document.path document.content).toOption.bind fun found =>
    found.map fun raw => (Field.entries (Value.field raw "jobs")).map fun entry =>
      (entry.1.toText.toOption, Github.entryTarget entry)

theorem callsOf_eq_some {document : Document} {calls : List (Option String × Option String)}
    (found : callsOf document = some calls) :
    ∃ raw, entriesOf document.path document.content = .ok (some raw) ∧
      (Field.entries (Value.field raw "jobs")).map
        (fun entry => (entry.1.toText.toOption, Github.entryTarget entry)) = calls := by
  obtain ⟨_, opens, found⟩ := Option.bind_eq_some_iff.mp found
  obtain ⟨raw, rfl, same⟩ := Option.map_eq_some_iff.mp found
  exact ⟨raw, toOption_eq_some.mp opens, same⟩

theorem callingDocument_callsAlone {raw : Entries}
    (entries : (Field.entries (Value.field raw "jobs")).map
      (fun entry => (entry.1.toText.toOption, Github.entryTarget entry)) =
        [(some "a", none), (some "c", some "t.yml")]) :
    CallsAlone callingFiles "c.yml" raw "c" "t.yml" := by
  obtain ⟨first, rest, jobs, own, others⟩ := List.map_eq_cons_iff.mp entries
  obtain ⟨second, rest, rfl, calls, nothing⟩ := List.map_eq_cons_iff.mp others
  obtain rfl := List.map_eq_nil_iff.mp nothing
  obtain ⟨named, target⟩ := Prod.mk.inj calls
  obtain ⟨ownName, noTarget⟩ := Prod.mk.inj own
  refine ⟨[first], second, [], jobs, toOption_eq_some.mp named,
    Github.entryCalls_iff_entryTarget.mpr target, ?_⟩
  intro other member name brings
  obtain rfl := List.mem_singleton.mp member
  obtain ⟨word, _, text, -, rfl | ⟨file, _, _, calls, -⟩⟩ := brings
  · obtain rfl := Except.ok.inj ((toOption_eq_some.mp ownName).symm.trans text)
    decide
  · rw [Github.entryCalls_iff_entryTarget, noTarget] at calls
    cases calls

theorem calledDocument_noCalls {raw : Entries}
    (entries : (Field.entries (Value.field raw "jobs")).map
      (fun entry => (entry.1.toText.toOption, Github.entryTarget entry)) =
        [(some "y", none), (some "x", none)]) (target : String) : ¬ Github.Calls raw target := by
  rintro ⟨entry, member, calls⟩
  rw [Github.entryCalls_iff_entryTarget] at calls
  have listed := List.mem_map_of_mem (f := fun entry : Value × Value =>
    (entry.1.toText.toOption, Github.entryTarget entry)) member
  rw [entries, calls] at listed
  simp at listed

theorem call_of_two_jobs_agrees :
    ∃ pipeline own normalized,
      outcome (callingDocument.pipeline callingFiles) = .ok pipeline ∧
      outcome (calledDocument.pipeline callingFiles) = .ok own ∧ own.jobs.keys = ["y", "x"] ∧
      StandUnder "c" pipeline.jobs (own.orderedJobs.map (adopted "c" own.permissions)) ∧
      readAll [callingDocument, calledDocument] Source.none = .ok normalized ∧
      normalized.problems.count (Needs.unknownProblem "t.yml" "y" "z") = 1 := by
  have jobs : callsOf callingDocument = some [(some "a", none), (some "c", some "t.yml")] := by
    decide +kernel
  have calledJobs : callsOf calledDocument = some [(some "y", none), (some "x", none)] := by
    decide +kernel
  have keys : ((outcome (calledDocument.pipeline callingFiles)).toOption.map (·.jobs.keys)) =
      some ["y", "x"] := by decide +kernel
  have returned : (outcome (callingDocument.pipeline callingFiles)).toOption.isSome = true := by
    decide +kernel
  have all : (readEach callingFiles [callingDocument, calledDocument] {}).toOption.isSome =
      true := by
    decide +kernel
  have met : (noted (calledDocument.pipeline callingFiles)).contains
      (Needs.unknownProblem "t.yml" "y" "z") = true := by decide +kernel
  have found : (callingFiles "t.yml").toOption = some (some calledDocument.content) := by
    decide +kernel
  obtain ⟨raw, holds, entries⟩ := callsOf_eq_some jobs
  obtain ⟨calledRaw, calledHolds, calledEntries⟩ := callsOf_eq_some calledJobs
  obtain ⟨pipeline, read⟩ := Option.isSome_iff_exists.mp returned
  obtain ⟨normalized, allRead⟩ := Option.isSome_iff_exists.mp all
  have callable : Callable callingFiles "c.yml" "t.yml" calledDocument.content := by
    refine ⟨toOption_eq_some.mp found, by decide, by decide, ?_⟩
    intro called opens
    obtain rfl := Option.some.inj (Except.ok.inj (calledHolds.symm.trans opens))
    exact Github.noneRefused_of_noCalls (calledDocument_noCalls calledEntries)
  obtain ⟨own, ownRead, under, -, -, once⟩ := called_jobs_agree holds (by decide)
    (callingDocument_callsAlone entries) callable (toOption_eq_some.mp read)
  obtain ⟨same, sameRead, ownKeys⟩ := toOption_map_eq_some.mp keys
  obtain rfl := Except.ok.inj (ownRead.symm.trans sameRead)
  have whole : readAll [callingDocument, calledDocument] Source.none = .ok normalized := by
    rw [readAll, byPath_callingDocuments]
    exact toOption_eq_some.mp allRead
  refine ⟨pipeline, own, normalized, toOption_eq_some.mp read, ownRead, ownKeys, under, whole, ?_⟩
  have files : resolver (byPath [callingDocument, calledDocument]) Source.none = callingFiles := by
    rw [byPath_callingDocuments]
    rfl
  exact once _ Source.none normalized List.mem_cons_self files whole _
    (List.contains_iff_mem.mp met)

end SupplyLint.Document
