import SupplyLint.Proofs.Report
import SupplyLint.Proofs.Scan.Exclusion

/-! # Which scans can be reported

The findings of a scan name the steps that they are about as the documents do, by any
value. `reports_return_iff`: a report comes to a text exactly when it can write these
names, and on a terminal all that it shows has bytes. So the two other formats never fail
if no document names a step by a value without a JSON form. -/
set_option autoImplicit false

namespace SupplyLint

theorem Finding.nameOfStep_eq (step : Step) :
    (∃ text, Finding.nameOfStep step = .text text) ∨
      step.name.present = true ∧ Finding.nameOfStep step = step.name := by
  unfold Finding.nameOfStep
  dsimp only
  split
  · next present => exact Or.inr ⟨present, rfl⟩
  · refine Or.inl ?_
    split
    · split <;> exact ⟨_, rfl⟩
    · exact ⟨_, rfl⟩

theorem Finding.IsAbout.stepName {pipeline : Pipeline} {finding : Finding}
    (about : finding.IsAbout pipeline) :
    (∃ text, finding.stepName = .text text) ∨
      finding.step ≠ none ∧ finding.stepName.present = true ∧
        ∃ job ∈ pipeline.jobs.values, ∃ step ∈ job.steps, finding.stepName = step.name := by
  obtain ⟨rule, title, message, job, step, evidence, holds, rfl⟩ := about
  cases holds with
  | whole => exact Or.inl ⟨"", rfl⟩
  | job member => exact Or.inl ⟨"", rfl⟩
  | @step job step member inside =>
    rcases Finding.nameOfStep_eq step with ⟨text, named⟩ | ⟨present, named⟩
    · exact Or.inl ⟨text, named⟩
    · refine Or.inr ⟨Option.some_ne_none _, ?_, job, member, step, inside, named⟩
      show (Finding.nameOfStep step).present = true
      rw [named, present]

namespace Scan

open SupplyLint.Report

section Scan
variable {config : Config} {rules : List Rule} {repository : Repository} {cancelledThen : Bool}
variable {scene : Scene} {outcome : Outcome}

theorem failure_of_finish {collected : Collected}
    (finished : (finish config rules repository cancelledThen scene collected).2 = .ok outcome) :
    outcome.failure = none := by
  unfold finish at finished
  cases cancelled : scene.checkCancelled repository.name with
  | error failure =>
    rw [cancelled] at finished
    cases finished
  | ok _ =>
    rw [cancelled] at finished
    simp only [bind_eq_ok] at finished
    obtain ⟨normalized, -, -, -, findings, -, made⟩ := finished
    obtain rfl := Except.ok.inj made
    rfl

theorem failure_of_scanRepository
    (scan : (scanRepository config rules repository cancelledThen scene).2 = .ok outcome) :
    outcome.failure = none := by
  unfold scanRepository at scan
  split at scan
  · cases scan
  · dsimp only at scan
    split at scan
    · cases scan
    · exact failure_of_finish scan

theorem stepName_of_mem_findings (locates : ∀ rule ∈ rules, rule.Locates)
    (scan : (scanRepository config rules repository cancelledThen scene).2 = .ok outcome)
    {finding : Finding} (member : finding ∈ outcome.findings) :
    (∃ text, finding.stepName = .text text) ∨
      finding.step ≠ none ∧ finding.stepName.present = true ∧
        ∃ document ∈ scanned config repository, ∃ pipeline,
          SupplyLint.outcome (document.pipeline
            (Document.resolver (Document.byPath (scanned config repository)) repository.read)) =
              .ok pipeline ∧
          ∃ job ∈ pipeline.jobs.values, ∃ step ∈ job.steps, finding.stepName = step.name := by
  obtain ⟨document, listed, pipeline, own, read, about, rfl⟩ :=
    exists_isAbout_of_mem_findings locates scan member
  rcases about.stepName with text | ⟨atStep, present, holds⟩
  · exact Or.inl text
  · exact Or.inr ⟨atStep, present, document, listed, pipeline, read, holds⟩

/-- Every document that is scanned names its steps by values that have JSON forms. -/
def NamesRepresentable (config : Config) (repository : Repository) : Prop :=
  ∀ document ∈ scanned config repository, ∀ pipeline,
    SupplyLint.outcome (document.pipeline
      (Document.resolver (Document.byPath (scanned config repository)) repository.read)) =
        .ok pipeline →
    ∀ job ∈ pipeline.jobs.values, ∀ step ∈ job.steps,
      step.name.present = true → step.name.isRepresentable = true

theorem representable_of_mem_findings (locates : ∀ rule ∈ rules, rule.Locates)
    (scan : (scanRepository config rules repository cancelledThen scene).2 = .ok outcome)
    (names : NamesRepresentable config repository) :
    ∀ finding ∈ outcome.findings, finding.stepName.isRepresentable = true := by
  intro finding member
  rcases stepName_of_mem_findings locates scan member with ⟨text, named⟩ | ⟨-, present, held⟩
  · rw [named]
    rfl
  · obtain ⟨document, listed, pipeline, read, job, inJobs, step, inSteps, named⟩ := held
    rw [named] at present ⊢
    exact names document listed pipeline read job inJobs step inSteps present

/-- A scan can be reported on a terminal exactly when the names of the steps with findings have
texts and all that is shown has bytes, and in the two other formats exactly when the names have JSON
forms. Nothing else keeps it from that. -/
theorem reports_return_iff
    (scan : (scanRepository config Rule.standardRules repository cancelledThen scene).2 =
      .ok outcome) :
    (Returns (Console.report [outcome]) ↔
      (∀ finding ∈ outcome.findings, finding.stepName.isShort = true) ∧
        ∀ text ∈ Console.texts outcome, Text.isEncodable text = true) ∧
    (Returns (Structured.text [outcome]) ↔
      ∀ finding ∈ outcome.findings, finding.stepName.isRepresentable = true) ∧
    (Returns (Sarif.text [outcome]) ↔
      ∀ finding ∈ outcome.findings, finding.stepName.isRepresentable = true) ∧
    (NamesRepresentable config repository →
      (Returns (Console.report [outcome]) ↔
        ∀ text ∈ Console.texts outcome, Text.isEncodable text = true) ∧
      Returns (Structured.text [outcome]) ∧ Returns (Sarif.text [outcome])) := by
  have named (finding : Finding) (member : finding ∈ outcome.findings) :=
    stepName_of_mem_findings Rule.locates_standardRules scan member
  have console : Returns (Console.report [outcome]) ↔
      (∀ finding ∈ outcome.findings, finding.stepName.isShort = true) ∧
        ∀ text ∈ Console.texts outcome, Text.isEncodable text = true := by
    rw [Console.returns_report, List.forall_mem_singleton,
      forall_prop_of_true (failure_of_scanRepository scan)]
    refine and_congr_left fun _ => forall₂_congr fun finding member => ?_
    rcases named finding member with ⟨text, name⟩ | ⟨atStep, -⟩
    · simp [Console.CanShow, name, Value.isShort]
    · simp [Console.CanShow, atStep]
  have structured : Returns (Structured.text [outcome]) ↔
      ∀ finding ∈ outcome.findings, finding.stepName.isRepresentable = true := by
    rw [Structured.returns_text, List.forall_mem_singleton]
  have sarif : Returns (Sarif.text [outcome]) ↔
      ∀ finding ∈ outcome.findings, finding.stepName.isRepresentable = true := by
    rw [Sarif.returns_text, List.forall_mem_singleton]
    refine forall₂_congr fun finding member => ?_
    rcases named finding member with ⟨text, name⟩ | ⟨atStep, present, -⟩
    · simp [Sarif.CanShow, name, Value.isRepresentable]
    · simp [Sarif.CanShow, atStep, present]
  refine ⟨console, structured, sarif, fun names => ?_⟩
  have representable := representable_of_mem_findings Rule.locates_standardRules scan names
  have short (finding : Finding) (member : finding ∈ outcome.findings) :=
    Value.isShort_of_isRepresentable _ (representable finding member)
  exact ⟨console.trans (and_iff_right short), structured.mpr representable,
    sarif.mpr representable⟩

end Scan

/-! ## A step that is named by a day -/

/-- A workflow whose only finding is about its step. -/
def naming (name : String) : Document :=
  Document.ofText .github "w.yml"
    ("permissions: \x7b\x7d\njobs:\n j:\n  steps:\n  - uses: a/b@v1\n    name: " ++ name ++ "\n")

def namingRepository (name : String) : Repository where
  name := "r"
  documents := fun _ => [.item (.document (naming name))]

/-- What is seen of a finding: its rule, whether all that is shown of it has bytes, and how the name
in it can be written. -/
structure Seen where
  rule : String
  encodable : Bool
  short : Bool
  representable : Bool
  deriving DecidableEq

def seenOf (pipeline : Pipeline) : Option (List Seen) :=
  (Rule.standardRules.mapM fun rule : Rule => rule.check pipeline).toOption.map fun lists =>
    lists.flatten.map fun finding =>
      ⟨finding.rule, (Console.findingTexts finding.rated).all Text.isEncodable,
        finding.stepName.isShort, finding.stepName.isRepresentable⟩

theorem evaluate_of_mapM {rules : List Rule} {pipeline : Pipeline} {lists : List (List Finding)}
    (checked : (rules.mapM fun rule => rule.check pipeline) = .ok lists) :
    Rule.evaluate rules pipeline = Finding.sorted lists.flatten := by
  have contributions : rules.map (Rule.contribution pipeline) = lists := by
    rw [← List.forall₂_eq_eq_eq, List.forall₂_map_left_iff]
    refine (mapM_eq_ok.mp checked).imp fun rule findings found => ?_
    rw [Rule.contribution, found]
  rw [Rule.evaluate, List.flatMap_def, contributions]

theorem scan_of_seenOf {name : String} {short representable : Bool}
    (facts : (Document.readAll [naming name] Source.none).toOption.map
      (fun normalized => (normalized.problems, normalized.pipelines.map seenOf)) =
        some ([], [some [⟨"unpinned_action", true, short, representable⟩]])) :
    ∃ outcome finding,
      (scanRepository {} Rule.standardRules (namingRepository name) false {}).2 = .ok outcome ∧
      (∀ text ∈ Console.texts outcome, Text.isEncodable text = true) ∧
      outcome.findings = [finding] ∧ finding.stepName.isShort = short ∧
      finding.stepName.isRepresentable = representable := by
  obtain ⟨⟨pipelines, problems⟩, read, both⟩ := toOption_map_eq_some.mp facts
  obtain ⟨none, listed⟩ := Prod.mk.inj both
  obtain rfl : problems = [] := none
  obtain ⟨pipeline, rest, rfl, seen, nothing⟩ := List.map_eq_cons_iff.mp listed
  obtain rfl := List.map_eq_nil_iff.mp nothing
  obtain ⟨lists, checked, found⟩ := toOption_map_eq_some.mp seen
  obtain ⟨own, others, single, shown, rest⟩ := List.map_eq_cons_iff.mp found
  obtain rfl := List.map_eq_nil_iff.mp rest
  obtain ⟨rule, encodable, hasText, hasJson⟩ := Seen.mk.inj shown
  have evaluated : Rule.evaluate Rule.standardRules pipeline = [own] := by
    rw [evaluate_of_mapM checked, single, Finding.sorted, List.mergeSort_singleton]
  have kept : Finding.isKept {} own.rated = .ok true := by
    have ownRule : own.rated.rule = "unpinned_action" := rule
    have severity : own.rated.severity = .medium := by
      show severityFor own.rule = _
      rw [rule]
      rfl
    rw [Finding.isKept, ownRule, severity]
    rfl
  have collects : collect {} "r" [.item (.document (naming name))] {} {} =
      ({}, .ok { documents := [naming name] }) := by
    have included : Config.excludes {} (Item.document (naming name)).path = .ok false := rfl
    simp [collect, Scene.after, Collected.add, included]
    rfl
  have scan := @scan_of_collect _ _ (namingRepository name) _ _ _ rfl collects read
    (keptFindings_singleton evaluated kept)
  refine ⟨_, own.rated, scan, ?_, rfl, hasText, hasJson⟩
  rw [List.all_eq_true] at encodable
  have repository : Text.isEncodable "r" = true := by decide
  simpa [Console.texts, namingRepository, repository] using encodable

/-- A step that is named by a day keeps a scan from being reported in two of the three formats. -/
theorem day_is_not_reported :
    ∃ outcome,
      (scanRepository {} Rule.standardRules (namingRepository "2024-01-02") false {}).2 =
        .ok outcome ∧
      Returns (Console.report [outcome]) ∧ ¬ Returns (Structured.text [outcome]) ∧
      ¬ Returns (Sarif.text [outcome]) := by
  have seen : (Document.readAll [naming "2024-01-02"] Source.none).toOption.map
      (fun normalized => (normalized.problems, normalized.pipelines.map seenOf)) =
        some ([], [some [⟨"unpinned_action", true, true, false⟩]]) := by decide +kernel
  obtain ⟨outcome, finding, scan, encodable, findings, short, representable⟩ := scan_of_seenOf seen
  have member : finding ∈ outcome.findings := by rw [findings]; exact List.mem_cons_self
  refine ⟨outcome, scan, ?_, ?_, ?_⟩
  · rw [Console.returns_report, List.forall_mem_singleton]
    refine ⟨fun _ => ?_, encodable⟩
    simp [findings, Console.CanShow, short]
  · rw [Structured.returns_text]
    simp [findings, representable]
  · rcases stepName_of_mem_findings Rule.locates_standardRules scan member with
      ⟨text, named⟩ | ⟨atStep, present, -⟩
    · rw [named] at representable
      cases representable
    · rw [Sarif.returns_text]
      simp [findings, Sarif.CanShow, atStep, present, representable]

theorem scanned_naming (name : String) : scanned {} (namingRepository name) = [naming name] := by
  have included : Config.excludes {} (naming name).path = .ok false := rfl
  simp [scanned, namingRepository, scannedOf, included]

theorem namesRepresentable_of_seen {name : String}
    (seen : (SupplyLint.outcome ((naming name).pipeline
      (Document.resolver (Document.byPath [naming name]) Source.none))).toOption.map
        (fun pipeline => pipeline.jobs.values.all fun job =>
          job.steps.all fun step => step.name.isRepresentable) = some true) :
    NamesRepresentable {} (namingRepository name) := by
  rw [NamesRepresentable, scanned_naming]
  intro document listed pipeline read job inJobs step inSteps _
  rw [List.mem_singleton.mp listed] at read
  obtain ⟨other, also, all⟩ := toOption_map_eq_some.mp seen
  obtain rfl := Except.ok.inj (also.symm.trans read)
  exact List.all_eq_true.mp (List.all_eq_true.mp all job inJobs) step inSteps

/-- The same day as a text lets the scan be reported in all formats. -/
theorem text_is_reported :
    ∃ outcome,
      (scanRepository {} Rule.standardRules (namingRepository "'2024-01-02'") false {}).2 =
        .ok outcome ∧
      outcome.findings.length = 1 ∧ NamesRepresentable {} (namingRepository "'2024-01-02'") ∧
      Returns (Console.report [outcome]) ∧ Returns (Structured.text [outcome]) ∧
      Returns (Sarif.text [outcome]) := by
  have seen : (Document.readAll [naming "'2024-01-02'"] Source.none).toOption.map
      (fun normalized => (normalized.problems, normalized.pipelines.map seenOf)) =
        some ([], [some [⟨"unpinned_action", true, true, true⟩]]) := by decide +kernel
  obtain ⟨outcome, finding, scan, encodable, findings, -, -⟩ := scan_of_seenOf seen
  have names : NamesRepresentable {} (namingRepository "'2024-01-02'") :=
    namesRepresentable_of_seen (by decide +kernel)
  obtain ⟨console, others⟩ := (reports_return_iff scan).2.2.2 names
  exact ⟨outcome, scan, by rw [findings]; rfl, names, console.mpr encodable, others⟩

end Scan

end SupplyLint
