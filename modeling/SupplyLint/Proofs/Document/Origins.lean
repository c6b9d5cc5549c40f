import SupplyLint.Pipeline.Document
import SupplyLint.Proofs.Github.Origins
import SupplyLint.Proofs.Gitlab.Origins

/-! # Where the jobs of the pipeline of a document are written

A job is reported in the document itself, or in a file that the document calls or
triggers, directly or through others. -/
set_option autoImplicit false

namespace SupplyLint.Document

/-- A job of the pipeline of a document is written in the document or in a file that it reaches. -/
def Origin (resolve : Resolver) (document : Document) (job : Job) : Prop :=
  document.platform = .github ∧
      (∃ raw, Github.entriesOf document.path document.content = .ok (some raw) ∧
        Github.Origin resolve document.path raw job) ∨
    document.platform = .gitlab ∧
      ∃ layer, Gitlab.TopLayer resolve document.path document.content layer ∧
        Gitlab.Reaches resolve layer job

theorem pipeline_origins {resolve : Resolver} {document : Document} {pipeline : Pipeline}
    (read : outcome (document.pipeline resolve) = .ok pipeline) :
    pipeline.jobs.Every (Origin resolve document) := by
  unfold Document.pipeline at read
  cases platform : document.platform with
  | github =>
    rw [platform] at read
    exact (Github.normalize_origins read).imp fun job origin => Or.inl ⟨platform, origin⟩
  | gitlab =>
    rw [platform] at read
    exact (Gitlab.normalize_origins read).imp fun job origin => Or.inr ⟨platform, origin⟩
  | other value =>
    rw [platform, outcome_throw] at read
    cases read

theorem pipeline_path {resolve : Resolver} {document : Document} {pipeline : Pipeline}
    (read : outcome (document.pipeline resolve) = .ok pipeline) :
      pipeline.path = document.path := by
  unfold Document.pipeline at read
  cases platform : document.platform with
  | github =>
    rw [platform] at read
    exact Github.normalize_path read
  | gitlab =>
    rw [platform] at read
    exact Gitlab.normalize_path read
  | other value =>
    rw [platform, outcome_throw] at read
    cases read

/-- A document calls or triggers a file of the repository, directly or through others. -/
def BringsIn (resolve : Resolver) (document : Document) (target : String) : Prop :=
  document.platform = .github ∧
      (∃ raw file, Github.entriesOf document.path document.content = .ok (some raw) ∧
        Relation.TransGen (Opens Github.Calls (Github.opened resolve)) ⟨[document.path], raw⟩ file ∧
        file.chain.getLast? = some target) ∨
    document.platform = .gitlab ∧
      ∃ layer child, Gitlab.TopLayer resolve document.path document.content layer ∧
        Relation.TransGen (Gitlab.Layer.Triggers resolve) layer child ∧
        target ∈ child.origins.values

theorem Origin.path {resolve : Resolver} {document : Document} {job : Job}
    (origin : Origin resolve document job) :
    job.originPath = document.path ∨ BringsIn resolve document job.originPath := by
  rcases origin with ⟨github, raw, holds, origin⟩ | ⟨gitlab, layer, top, last, reached, written⟩
  · rcases origin with ⟨-, written⟩ | ⟨-, last, path, reached, here, written⟩
    · exact Or.inl written.path
    · rw [written.path]
      rcases Relation.reflTransGen_iff_eq_or_transGen.mp reached with rfl | further
      · exact Or.inl (Option.some.inj here).symm
      · exact Or.inr (Or.inl ⟨github, raw, last, holds, further, here⟩)
  · rw [written.path]
    rcases Relation.reflTransGen_iff_eq_or_transGen.mp reached with rfl | further
    · obtain ⟨raw, merged, -, -, rfl⟩ := top
      exact Or.inl rfl
    · obtain ⟨above, -, _, _, _, files, -, -, -, made⟩ := Relation.TransGen.tail'_iff.mp further
      have member := (Gitlab.childLayer_eq_some made).jobPath job.originName
      exact Or.inr (Or.inr ⟨gitlab, layer, last, top, further, member⟩)

end SupplyLint.Document
