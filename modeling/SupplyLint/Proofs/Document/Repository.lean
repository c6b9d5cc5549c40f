import Mathlib.Data.List.Nodup
import SupplyLint.Pipeline.Document
import SupplyLint.Proofs.Keyed
import SupplyLint.Proofs.Reading
import SupplyLint.Proofs.Sorted

/-! # All documents of a repository

The pipelines of a repository are those of its documents, in the order of their
paths, so they do not depend on how the documents are given. What is wrong with
any of them is noted where it is first met, and nothing is noted twice. -/
set_option autoImplicit false

namespace SupplyLint.Document

structure ReadsEach (resolve : Resolver) (documents : List Document) (before after : Normalized) :
    Prop where
  pipelines : ∃ read, after.pipelines = before.pipelines ++ read ∧
    List.Forall₂ (fun document pipeline => outcome (document.pipeline resolve) = .ok pipeline)
      documents read
  problems : ∀ problem, problem ∈ after.problems ↔
    problem ∈ before.problems ∨ ∃ document ∈ documents, problem ∈ noted (document.pipeline resolve)
  once : before.problems.Nodup → after.problems.Nodup

theorem readEach_reads {resolve : Resolver} {documents : List Document} {before after : Normalized}
    (read : readEach resolve documents before = .ok after) :
    ReadsEach resolve documents before after := by
  induction documents generalizing before with
  | nil =>
    obtain rfl := Except.ok.inj read
    exact ⟨⟨[], by simp, .nil⟩, by simp, id⟩
  | cons document rest ih =>
    rw [readEach, run_eq] at read
    cases found : outcome (document.pipeline resolve) with
    | error failure =>
      rw [found] at read
      cases read
    | ok pipeline =>
      rw [found] at read
      obtain ⟨⟨later, pipelines, each⟩, problems, once⟩ := ih read
      refine ⟨⟨pipeline :: later, ?_, .cons found each⟩, ?_, ?_⟩
      · rw [pipelines, List.append_assoc]
        rfl
      · intro problem
        simp only [problems, mem_foldl_addNew, List.mem_cons, exists_eq_or_imp, or_assoc]
      · exact fun distinct => once (nodup_foldl_addNew _ distinct)

theorem readAll_reads {documents : List Document} {fallback : Resolver} {normalized : Normalized}
    (read : readAll documents fallback = .ok normalized) :
    ReadsEach (resolver (byPath documents) fallback) (byPath documents) {} normalized :=
  readEach_reads read

theorem count_problem {documents : List Document} {fallback : Resolver} {normalized : Normalized}
    (read : readAll documents fallback = .ok normalized) {document : Document}
    (member : document ∈ documents) {problem : Problem}
    (met : problem ∈ noted (document.pipeline (resolver (byPath documents) fallback))) :
    normalized.problems.count problem = 1 := by
  have reads := readAll_reads read
  have inside : document ∈ byPath documents := List.mem_mergeSort.mpr member
  exact List.count_eq_one_of_mem (reads.once List.nodup_nil)
    ((reads.problems problem).mpr (Or.inr ⟨document, inside, met⟩))

end SupplyLint.Document
