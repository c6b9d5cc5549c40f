import SupplyLint.Proofs.Document.Jobs
import SupplyLint.Proofs.Document.Origins
import SupplyLint.Proofs.Document.Repository
import SupplyLint.Proofs.Rule.Places
import SupplyLint.Proofs.Scan.Aggregate
import SupplyLint.Scan.Run

/-! # Files that are excluded from a scan

`finding_excluded_only_if_broughtIn`: a finding is never about an excluded file,
unless a document that is scanned calls or triggers that file. -/
set_option autoImplicit false

namespace SupplyLint.Scan

def scannedOf (config : Config) : Happening → List Document
  | .item (.document document) =>
    match config.excludes document.path with
    | .ok false => [document]
    | _ => []
  | _ => []

/-- The documents of a repository that are not excluded, in the order in which it gives them. -/
def scanned (config : Config) (repository : Repository) : List Document :=
  (repository.documents repository.needsClone).flatMap (scannedOf config)

theorem excludes_of_mem_scanned {config : Config} {repository : Repository} {document : Document}
    (member : document ∈ scanned config repository) :
      config.excludes document.path = .ok false := by
  obtain ⟨happening, -, here⟩ := List.mem_flatMap.mp member
  unfold scannedOf at here
  split at here
  · split at here
    · next kept => rwa [List.mem_singleton.mp here]
    · exact absurd here List.not_mem_nil
  · exact absurd here List.not_mem_nil

section Collect
variable {config : Config} {repository : String}

theorem add_documents {collected more : Collected} {item : Item}
    (added : collected.add config item = .ok more) :
    more.documents = collected.documents ++ scannedOf config (.item item) := by
  simp only [Collected.add, bind_eq_ok] at added
  obtain ⟨excluded, tested, added⟩ := added
  cases item with
  | unread platform path message =>
    split at added
    all_goals
      obtain rfl := Except.ok.inj added
      simp [scannedOf]
  | document document =>
    have tested : config.excludes document.path = .ok excluded := tested
    simp only [scannedOf, tested]
    cases excluded with
    | true =>
      obtain rfl := Except.ok.inj added
      simp
    | false =>
      obtain rfl := Except.ok.inj added
      rfl

theorem scannedOf_of_no_item {scene next : Scene} {happening : Happening}
    (after : scene.after repository happening = (next, .ok none)) :
      scannedOf config happening = [] := by
  cases happening with
  | item item =>
    have some : Except.ok (some item) = .ok none := congrArg Prod.snd after
    cases some
  | _ => rfl

theorem eq_item_of_after {scene next : Scene} {happening : Happening} {item : Item}
    (after : scene.after repository happening = (next, .ok (some item))) :
      happening = .item item := by
  cases happening with
  | item found =>
    have same : Except.ok (some found) = .ok (some item) := congrArg Prod.snd after
    cases same
    rfl
  | check =>
    have none : (scene.checkCancelled repository).map (fun _ => Option.none) =
        Except.ok (some item) := congrArg Prod.snd after
    obtain ⟨-, -, none⟩ := map_eq_ok.mp none
    cases none
  | _ => cases congrArg Prod.snd after

theorem collect_documents (happenings : List Happening) {scene : Scene}
    {before collected : Collected}
    (found : (collect config repository happenings scene before).2 = .ok collected) :
    collected.documents = before.documents ++ happenings.flatMap (scannedOf config) := by
  induction happenings generalizing scene before with
  | nil =>
    obtain rfl := Except.ok.inj found
    simp
  | cons happening rest ih =>
    rw [List.flatMap_cons]
    unfold collect at found
    split at found
    · cases found
    · next next after =>
      rw [ih found, scannedOf_of_no_item after, List.nil_append]
    · next next item after =>
      obtain rfl := eq_item_of_after after
      split at found
      · cases found
      · next more added => rw [ih found, add_documents added, List.append_assoc]

end Collect

section Scan
variable {config : Config} {rules : List Rule} {repository : Repository} {cancelledThen : Bool}
variable {scene : Scene} {outcome : Outcome}

theorem finish_eq_ok {collected : Collected}
    (finished : (finish config rules repository cancelledThen scene collected).2 = .ok outcome) :
    ∃ normalized, Document.readAll collected.documents repository.read = .ok normalized ∧
      keptFindings config rules normalized.pipelines = .ok outcome.findings := by
  unfold finish at finished
  cases cancelled : scene.checkCancelled repository.name with
  | error failure =>
    rw [cancelled] at finished
    cases finished
  | ok _ =>
    rw [cancelled] at finished
    simp only [bind_eq_ok] at finished
    obtain ⟨normalized, read, -, -, findings, kept, made⟩ := finished
    obtain rfl := Except.ok.inj made
    exact ⟨normalized, read, kept⟩

theorem scanRepository_eq_ok
    (scan : (scanRepository config rules repository cancelledThen scene).2 = .ok outcome) :
    ∃ normalized,
      Document.readAll (scanned config repository) repository.read = .ok normalized ∧
      keptFindings config rules normalized.pipelines = .ok outcome.findings := by
  unfold scanRepository at scan
  split at scan
  · cases scan
  · dsimp only at scan
    split at scan
    · cases scan
    · next collected found =>
      obtain ⟨normalized, read, kept⟩ := finish_eq_ok scan
      have documents := collect_documents _ found
      exact ⟨normalized, by rw [← read, documents]; rfl, kept⟩

theorem exists_isAbout_of_mem_findings (locates : ∀ rule ∈ rules, rule.Locates)
    (scan : (scanRepository config rules repository cancelledThen scene).2 = .ok outcome)
    {finding : Finding} (member : finding ∈ outcome.findings) :
    ∃ document ∈ scanned config repository, ∃ pipeline own,
      SupplyLint.outcome (document.pipeline
        (Document.resolver (Document.byPath (scanned config repository)) repository.read)) =
          .ok pipeline ∧
      Finding.IsAbout pipeline own ∧ finding = own.rated := by
  obtain ⟨normalized, read, kept⟩ := scanRepository_eq_ok scan
  have inside := (mem_of_mem_filterM (uncaught_eq_ok.mp kept) member).1
  obtain ⟨list, evaluated, own, here, rfl⟩ := Finding.mem_of_mem_aggregate inside
  obtain ⟨pipeline, normal, rfl⟩ := List.mem_map.mp evaluated
  obtain ⟨⟨pipelines, all, each⟩, -, -⟩ := Document.readAll_reads read
  rw [all, List.nil_append] at normal
  obtain ⟨document, listed, pipelineRead⟩ := exists_of_mem_forall₂ each normal
  exact ⟨document, List.mem_mergeSort.mp listed, pipeline, own, pipelineRead,
    Rule.isAbout_of_mem_evaluate locates here, rfl⟩

/-- A finding about an excluded file is about one that a scanned document calls or triggers. -/
theorem finding_excluded_only_if_broughtIn (locates : ∀ rule ∈ rules, rule.Locates)
    (scan : (scanRepository config rules repository cancelledThen scene).2 = .ok outcome) :
    ∀ finding ∈ outcome.findings, config.excludes finding.path = .ok false ∨
      ∃ document ∈ scanned config repository, document.BringsIn
        (Document.resolver (Document.byPath (scanned config repository)) repository.read)
        finding.path := by
  intro finding member
  obtain ⟨document, listed, pipeline, own, read, about, rfl⟩ :=
    exists_isAbout_of_mem_findings locates scan member
  have kept := excludes_of_mem_scanned listed
  show config.excludes own.path = _ ∨ ∃ _, _ ∧ Document.BringsIn _ _ own.path
  rcases about.path with whole | ⟨job, inJobs, path⟩
  · exact Or.inl (by rw [whole, Document.pipeline_path read, kept])
  · rw [path]
    rcases ((Document.pipeline_origins read).of_mem_values inJobs).path with same | brought
    · exact Or.inl (by rw [same, kept])
    · exact Or.inr ⟨document, listed, brought⟩

end Scan

/-! ## A call of an excluded file -/

def callingFile : Document :=
  Document.ofText .github "c.yml" "jobs:\n c:\n  uses: ./t.yml\n"

def excludedFile : Document :=
  Document.ofText .github "t.yml" "jobs:\n x:\n  runs-on: self-hosted\n"

def callingRepository : Repository where
  name := "r"
  documents := fun _ => [.item (.document callingFile), .item (.document excludedFile)]
  read := Document.oneFile "t.yml" "jobs:\n x:\n  runs-on: self-hosted\n"

def excludingConfig : Config :=
  { exclude := .list [.text "t.yml"] }

def runnerRule : Rule :=
  ⟨Rule.SelfHostedRunner.id, Rule.SelfHostedRunner.check⟩

theorem excludes_callingFile : excludingConfig.excludes "c.yml" = .ok false := by
  have found : (excludingConfig.excludes "c.yml").toOption = some false := by decide +kernel
  exact toOption_eq_some.mp found

theorem excludes_excludedFile : excludingConfig.excludes "t.yml" = .ok true := by
  have found : (excludingConfig.excludes "t.yml").toOption = some true := by decide +kernel
  exact toOption_eq_some.mp found

theorem callingFile_reports :
    ∃ pipeline problems findings,
      Document.readAll [callingFile] callingRepository.read = .ok ⟨[pipeline], problems⟩ ∧
      runnerRule.check pipeline = .ok findings ∧
      findings.map (fun finding => (finding.rule, finding.path)) =
        [("self_hosted_runner", "t.yml")] := by
  have facts : (Document.readAll [callingFile] callingRepository.read).toOption.map
      (fun normalized => normalized.pipelines.map (Rule.SelfHostedRunner.reported fun finding =>
        (finding.rule, finding.path))) =
        some [([0, 1], some [("self_hosted_runner", "t.yml")])] := by decide +kernel
  obtain ⟨⟨pipelines, problems⟩, read, listed⟩ := toOption_map_eq_some.mp facts
  obtain ⟨pipeline, rest, rfl, reports, nothing⟩ := List.map_eq_cons_iff.mp listed
  obtain rfl := List.map_eq_nil_iff.mp nothing
  obtain ⟨findings, checked, places⟩ := Rule.SelfHostedRunner.check_of_reported reports rfl
  exact ⟨pipeline, problems, findings, read, checked, places⟩

theorem collect_callingRepository :
    collect excludingConfig callingRepository.name (callingRepository.documents false) {} {} =
      ({}, .ok { documents := [callingFile] }) := by
  have first : excludingConfig.excludes (Item.document callingFile).path = .ok false :=
    excludes_callingFile
  have second : excludingConfig.excludes (Item.document excludedFile).path = .ok true :=
    excludes_excludedFile
  simp [callingRepository, collect, Scene.after, Collected.add, first, second]
  rfl

theorem scan_of_collect {config : Config} {rules : List Rule} {repository : Repository}
    {collected : Collected} {normalized : Normalized} {findings : List Finding}
    (inPlace : repository.needsClone = false)
    (collects : collect config repository.name (repository.documents false) {} {} =
      ({}, .ok collected))
    (read : Document.readAll collected.documents repository.read = .ok normalized)
    (kept : keptFindings config rules normalized.pipelines = .ok findings) :
    (scanRepository config rules repository false {}).2 =
      .ok ⟨repository.name, findings, collected.problems ++ normalized.problems,
        normalized.pipelines.length, none⟩ := by
  have quiet : ({} : Scene).checkCancelled repository.name = .ok () := rfl
  simp [scanRepository, quiet, inPlace, collects, finish, read, kept]

theorem keptFindings_singleton {config : Config} {rules : List Rule} {pipeline : Pipeline}
    {own : Finding} (evaluated : Rule.evaluate rules pipeline = [own])
    (kept : Finding.isKept config own.rated = .ok true) :
    keptFindings config rules [pipeline] = .ok [own.rated] := by
  have aggregated : Finding.aggregate [[own]] = [own.rated] := by
    simp [Finding.aggregate, Finding.firstsByKey, Finding.addNewKey, Finding.sortedByPath]
  rw [keptFindings, List.map_singleton, evaluated, aggregated, Finding.filterBy]
  simp [List.filterM, List.filterAuxM, kept]
  rfl

theorem callingRepository_reports :
    ∃ found finding, (scanRepository excludingConfig [runnerRule] callingRepository false {}).2 =
        .ok found ∧
      found.findings = [finding] ∧ finding.path = "t.yml" := by
  obtain ⟨pipeline, problems, findings, read, checked, places⟩ := callingFile_reports
  obtain ⟨own, rest, rfl, place, nothing⟩ := List.map_eq_cons_iff.mp places
  obtain rfl := List.map_eq_nil_iff.mp nothing
  obtain ⟨rule, path⟩ := Prod.mk.inj place
  have evaluated : Rule.evaluate [runnerRule] pipeline = [own] := by
    simp [Rule.evaluate, Rule.contribution, checked, Finding.sorted]
  have kept : Finding.isKept excludingConfig own.rated = .ok true := by
    have ownRule : own.rated.rule = "self_hosted_runner" := rule
    have severity : own.rated.severity = .high := by
      show severityFor own.rule = _
      rw [rule]
      rfl
    rw [Finding.isKept, ownRule, severity]
    rfl
  have scan := scan_of_collect rfl collect_callingRepository read
    (keptFindings_singleton evaluated kept)
  exact ⟨_, own.rated, scan, rfl, path⟩

theorem excluded_file_is_reported :
    ∃ found, (scanRepository excludingConfig [runnerRule] callingRepository false {}).2 =
      .ok found ∧
      ∃ finding ∈ found.findings, excludingConfig.excludes finding.path = .ok true := by
  obtain ⟨found, finding, scan, findings, path⟩ := callingRepository_reports
  exact ⟨found, scan, finding, by rw [findings]; exact List.mem_cons_self,
    by rw [path]; exact excludes_excludedFile⟩

theorem excluded_file_is_broughtIn :
    ∃ found, (scanRepository excludingConfig [runnerRule] callingRepository false {}).2 =
      .ok found ∧
      (∀ rule ∈ [runnerRule], rule.Locates) ∧
      ∃ document ∈ scanned excludingConfig callingRepository, document.BringsIn
        (Document.resolver (Document.byPath (scanned excludingConfig callingRepository))
          callingRepository.read) "t.yml" := by
  obtain ⟨found, finding, scan, findings, path⟩ := callingRepository_reports
  have locates : ∀ rule ∈ [runnerRule], rule.Locates := by
    intro rule member
    rw [List.mem_singleton.mp member]
    exact Rule.SelfHostedRunner.locates
  have places := finding_excluded_only_if_broughtIn locates scan finding
    (by rw [findings]; exact List.mem_cons_self)
  rw [path, excludes_excludedFile] at places
  exact ⟨found, scan, locates, places.resolve_left (by simp)⟩

end SupplyLint.Scan
