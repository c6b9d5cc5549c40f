import SupplyLint.Pipeline.Document
import SupplyLint.Proofs.Document.Jobs
import SupplyLint.Proofs.Github.Returns
import SupplyLint.Proofs.Gitlab.Returns

/-! # Which documents can be read

`survives_iff_readable`: a document gives a pipeline, and is left out with a
problem when its content is not loaded, exactly when nothing but a lack of YAML
goes wrong with its content and with the files that it reaches, and the values
whose text is taken have one. The documents of a repository are read when each
of them can be. -/
set_option autoImplicit false

namespace SupplyLint.Document

def EntriesReadable (resolve : Resolver) (document : Document) : Prop :=
  match document.platform with
  | .github => ∀ raw, Github.entriesOf document.path document.content = .ok (some raw) →
      Github.EntriesReadable resolve document.path raw
  | .gitlab =>
    ∀ raw, outcome (Gitlab.configuration document.path document.content) = .ok (some raw) →
      Gitlab.EntriesReadable resolve document.path raw
  | .other _ => False

structure IsReadable (resolve : Resolver) (document : Document) : Prop where
  loads : Loads document.content
  entries : document.EntriesReadable resolve

theorem IsReadable.known {resolve : Resolver} {document : Document}
    (readable : document.IsReadable resolve) :
    document.platform = .github ∨ document.platform = .gitlab := by
  have entries := readable.entries
  unfold EntriesReadable at entries
  cases platform : document.platform with
  | github => exact Or.inl rfl
  | gitlab => exact Or.inr rfl
  | other value =>
    rw [platform] at entries
    exact entries.elim

theorem returns_pipeline (resolve : Resolver) (document : Document) :
    Returns (outcome (document.pipeline resolve)) ↔ document.IsReadable resolve := by
  have parts : document.IsReadable resolve ↔
      Loads document.content ∧ document.EntriesReadable resolve :=
    ⟨fun readable => ⟨readable.loads, readable.entries⟩, fun both => ⟨both.1, both.2⟩⟩
  rw [parts]
  unfold Document.pipeline EntriesReadable
  cases document.platform with
  | github => exact Github.returns_normalize resolve document.path document.content
  | gitlab => exact Gitlab.returns_normalize resolve document.path document.content
  | other value => simp

theorem returns_readEach (resolve : Resolver) (documents : List Document)
    (normalized : Normalized) :
    Returns (readEach resolve documents normalized) ↔
      ∀ document ∈ documents, document.IsReadable resolve := by
  induction documents generalizing normalized with
  | nil => simp [readEach]
  | cons document rest ih =>
    rw [List.forall_mem_cons, ← returns_pipeline, readEach, outcome]
    rcases (document.pipeline resolve).run with ⟨⟨failure⟩ | ⟨pipeline⟩, problems⟩
    · simp
    · simp only [returns_ok, true_and]
      exact ih _

theorem returns_readAll (documents : List Document) (fallback : Resolver) :
    Returns (readAll documents fallback) ↔
      ∀ document ∈ documents, document.IsReadable (resolver (byPath documents) fallback) := by
  rw [readAll, returns_readEach]
  simp only [byPath, List.mem_mergeSort]

/-! ## Documents that are left out -/

/-- A document is left out: its pipeline is empty, and the one problem is that it cannot be
parsed. -/
def IsLeftOut (resolve : Resolver) (document : Document) : Prop :=
  ∃ message, (document.pipeline resolve).run =
    ⟨.ok { platform := document.platform, path := document.path },
      [⟨.unparsable, document.path, message, ""⟩]⟩

/-- A document whose content is not loaded does no more than to be left out, and every other one
gives a pipeline. -/
structure Survives (resolve : Resolver) (document : Document) : Prop where
  returns : Returns (outcome (document.pipeline resolve))
  leftOut : ¬ Returns (Yaml.load document.content) → document.IsLeftOut resolve

theorem leftOut_of_malformed {resolve : Resolver} {document : Document}
    (known : document.platform = .github ∨ document.platform = .gitlab)
    (malformed : Yaml.load document.content = .error .malformed) : document.IsLeftOut resolve := by
  refine ⟨"invalid YAML: " ++ Yaml.detail, ?_⟩
  unfold Document.pipeline
  rcases known with platform | platform
  · rw [platform]
    simp only [Github.normalize, Source.documents, malformed]
    rfl
  · rw [platform]
    simp only [Gitlab.normalize, Gitlab.configuration, Source.documents, malformed]
    rfl

theorem survives_iff_readable (resolve : Resolver) (document : Document) :
    document.Survives resolve ↔ document.IsReadable resolve := by
  rw [← returns_pipeline]
  refine ⟨Survives.returns, fun returned => ⟨returned, fun unloaded => ?_⟩⟩
  have readable := (returns_pipeline resolve document).mp returned
  apply leftOut_of_malformed readable.known
  cases failed : Yaml.load document.content with
  | ok values => exact absurd ⟨values, failed⟩ unloaded
  | error failure =>
    cases failure with
    | malformed => rfl
    | fault fault => exact absurd failed (readable.loads fault)

def dated (date : String) : Document :=
  ofText .github "w.yml" ("a: " ++ date ++ "\n")

theorem possible_date_survives :
    (dated "2024-12-01").IsReadable Source.none ∧ (dated "2024-12-01").Survives Source.none := by
  have returned : (outcome ((dated "2024-12-01").pipeline Source.none)).toOption.isSome = true := by
    decide +kernel
  obtain ⟨pipeline, read⟩ := Option.isSome_iff_exists.mp returned
  have readable := (returns_pipeline Source.none (dated "2024-12-01")).mp
    ⟨pipeline, toOption_eq_some.mp read⟩
  exact ⟨readable, (survives_iff_readable Source.none (dated "2024-12-01")).mpr readable⟩

/-- A month that there is not in a document keeps every repository with the document from being
read. -/
theorem impossible_date_ends_reading :
    (∀ target, Returns (Source.none target)) ∧ ¬ (dated "2024-13-01").Survives Source.none ∧
      ∀ (others : List Document) (fallback : Resolver),
        ¬ Returns (readAll (dated "2024-13-01" :: others) fallback) := by
  have fails : ¬ Loads (dated "2024-13-01").content := by decide +kernel
  refine ⟨fun target => returns_ok _, fun survives => ?_, fun others fallback returned => ?_⟩
  · exact fails ((returns_pipeline _ _).mp survives.returns).loads
  · exact fails ((returns_readAll _ _).mp returned _ List.mem_cons_self).loads

end SupplyLint.Document
