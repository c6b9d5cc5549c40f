import SupplyLint.Proofs.Keyed
import SupplyLint.Proofs.Report
import SupplyLint.Proofs.Scan.Stages

/-! # The two tables of a SARIF report

A run has a table of rules, made of the first finding of each rule in all repositories,
and a table of results, made of every finding. `report_is_consistent`: both name the
same rules, and a result has the level of the severity by which its rule is scored,
since the severity of a finding depends on its rule alone. -/
set_option autoImplicit false

namespace SupplyLint

namespace Json

def member? : Json → String → Option Json
  | .object members, name => Keyed.get? members name
  | _, _ => none

def at? (json : Json) (path : List String) : Option Json :=
  path.foldlM member? json

end Json

namespace Report.Sarif

/-! ## What a report shows -/

/-- The result for a finding of a repository, with the line that the finding has or else with some
line. -/
structure IsResult (repository : String) (finding : Finding) (result : Json) : Prop where
  ofRule : result.at? ["ruleId"] = some (.string finding.rule)
  rated : result.at? ["level"] = some (.string (level finding.severity))
  worded : result.at? ["message", "text"] = some (.string finding.message)
  inRepository : result.at? ["properties", "repository"] = some (.string repository)
  placed : ∃ location line, result.at? ["locations"] = some (.array [location]) ∧
    location.at? ["physicalLocation", "artifactLocation", "uri"] = some (.string finding.path) ∧
    location.at? ["physicalLocation", "region", "startLine"] = some (.ofInt line) ∧
    1 ≤ line ∧ ∀ own ∈ finding.line, own = line

/-- A report with one run, and these are the tables of the run. -/
def HasTables (report : Json) (rules results : List Json) : Prop :=
  ∃ run : Json, report.at? ["runs"] = some (.array [run]) ∧
    run.at? ["tool", "driver", "rules"] = some (.array rules) ∧
    run.at? ["results"] = some (.array results)

/-- The tables are about the findings of the outcomes: a result for each, in their order, and an
entry for each rule that has a result, in the order of the ids. -/
structure Agree (outcomes : List Outcome) (rules results : List Json) : Prop where
  eachFinding : List.Forall₂ (fun located result => IsResult located.1 located.2 result)
    (Outcome.located outcomes) results
  sameRules : ∃ ids : List String, ids.Pairwise (· < ·) ∧
    List.Forall₂ (fun id rule => Json.at? rule ["id"] = some (.string id)) ids rules ∧
    ∀ id, id ∈ ids ↔ ∃ result ∈ results, Json.at? result ["ruleId"] = some (.string id)
  sameSeverity : ∀ rule ∈ rules, ∀ result ∈ results, ∀ id,
    rule.at? ["id"] = some (.string id) → result.at? ["ruleId"] = some (.string id) →
    rule.at? ["properties", "security-severity"] = some (.string (score (severityFor id))) ∧
      result.at? ["level"] = some (.string (level (severityFor id)))

/-- A finding on a line of the file, if on any, that JSON can show. None of its evidence goes by the
name under which a result keeps its repository. -/
structure Reportable (finding : Finding) : Prop where
  line : ∀ line ∈ finding.line, 1 ≤ line
  shown : CanShow finding
  evidence : ∀ detail ∈ finding.evidence, detail.1 ≠ "repository"

theorem Reportable.rated {finding : Finding} (reportable : Reportable finding) :
    Reportable finding.rated :=
  ⟨reportable.line, reportable.shown, reportable.evidence⟩

/-! ## Results -/

theorem propertiesJson_eq {finding : Finding}
    (apart : ∀ detail ∈ finding.evidence, detail.1 ≠ "repository") (repository : String) :
    propertiesJson repository finding =
      .object (("repository", .string repository) ::
        finding.details.map fun property => (property.1, .string property.2)) := by
  have distinct : (Keyed.keys ([("repository", repository)] ++ finding.details)).Nodup := by
    rw [List.singleton_append, Keyed.keys_cons, List.nodup_cons]
    refine ⟨fun inside => ?_, Keyed.nodup_keys_ofPairs _⟩
    obtain ⟨detail, member, same⟩ := List.mem_map.mp inside
    exact apart detail (Keyed.mem_ofPairs member) same
  rw [propertiesJson, Keyed.putAll_of_nodup distinct]
  rfl

theorem startLine_spec {finding : Finding} (lines : ∀ line ∈ finding.line, 1 ≤ line) :
    1 ≤ startLine finding ∧ ∀ own ∈ finding.line, own = startLine finding := by
  unfold startLine
  cases found : finding.line with
  | none => simp
  | some line =>
    have positive := lines line found
    have nonzero : line ≠ 0 := by omega
    simp [nonzero, positive]

theorem IsResult.rule_eq {repository id : String} {finding : Finding} {result : Json}
    (is : IsResult repository finding result) (ofRule : result.at? ["ruleId"] = some (.string id)) :
    finding.rule = id := by
  simpa using is.ofRule.symm.trans ofRule

theorem isResult_of_resultJson {repository : String} {finding : Finding} {result : Json}
    (reportable : Reportable finding) (made : resultJson repository finding = .ok result) :
    IsResult repository finding result := by
  obtain ⟨step, -, same⟩ := bind_eq_ok.mp made
  obtain rfl := pure_eq_ok.mp same
  rw [propertiesJson_eq reportable.evidence]
  exact ⟨rfl, rfl, rfl, rfl, _, startLine finding, rfl, rfl, rfl, startLine_spec reportable.line⟩

theorem exists_results {located : List (String × Finding)}
    (reportable : ∀ entry ∈ located, Reportable entry.2) :
    ∃ results, (located.mapM fun entry => resultJson entry.1 entry.2) = .ok results ∧
      List.Forall₂ (fun entry result => IsResult entry.1 entry.2 result) located results := by
  obtain ⟨results, made⟩ := returns_mapM.mpr fun entry inside =>
    (returns_resultJson entry.1 entry.2).mpr (reportable entry inside).shown
  have each := (List.forall₂_and_left ..).mpr ⟨reportable, mapM_eq_ok.mp made⟩
  exact ⟨results, made, each.imp fun entry result both => isResult_of_resultJson both.1 both.2⟩

/-! ## Rules -/

theorem sortsBy_firstOfRules (findings : List Finding) :
    SortsBy Finding.rule (firstsOn Finding.rule findings) (firstOfRules findings) := by
  have adds (seen : List Finding) (finding : Finding) :
      (if seen.any fun other => other.rule == finding.rule then seen else seen ++ [finding]) =
        if finding.rule ∈ seen.map Finding.rule then seen else seen ++ [finding] := by
    simp
  rw [firstOfRules, foldl_eq_firstsOn adds]
  exact sortsBy_mergeSort_not_lt Finding.rule _

theorem mem_of_mem_firstOfRules {findings : List Finding} {finding : Finding}
    (member : finding ∈ firstOfRules findings) : finding ∈ findings :=
  (firstsOn_sublist findings).subset ((sortsBy_firstOfRules findings).perm.mem_iff.mp member)

theorem rule_mem_firstOfRules {findings : List Finding} {id : String} :
    id ∈ (firstOfRules findings).map Finding.rule ↔ id ∈ findings.map Finding.rule := by
  rw [((sortsBy_firstOfRules findings).perm.map _).mem_iff, key_mem_firstsOn]

/-! ## The tables -/

theorem exists_document {outcomes : List Outcome} {results : List Json}
    (made : ((Outcome.located outcomes).mapM fun entry => resultJson entry.1 entry.2) =
      .ok results) :
    ∃ report : Json, document outcomes = .ok report ∧
      HasTables report ((firstOfRules ((Outcome.located outcomes).map (·.2))).map ruleJson)
        results := by
  rw [document, made]
  exact ⟨_, rfl, _, rfl, rfl, rfl⟩

theorem agree_of_results {outcomes : List Outcome} {results : List Json}
    (rated : ∀ entry ∈ Outcome.located outcomes, entry.2.severity = severityFor entry.2.rule)
    (each : List.Forall₂ (fun entry result => IsResult entry.1 entry.2 result)
      (Outcome.located outcomes) results) :
    Agree outcomes ((firstOfRules ((Outcome.located outcomes).map (·.2))).map ruleJson)
      results := by
  have sorts := sortsBy_firstOfRules ((Outcome.located outcomes).map (·.2))
  refine ⟨each, ⟨_, sorts.strict (nodup_firstsOn _), ?_, fun id => ?_⟩, ?_⟩
  · rw [List.forall₂_map_left_iff, List.forall₂_map_right_iff, List.forall₂_same]
    exact fun finding _ => rfl
  · rw [rule_mem_firstOfRules, List.map_map, List.mem_map]
    constructor
    · rintro ⟨entry, inside, rfl⟩
      obtain ⟨result, there, is⟩ := exists_of_mem_forall₂ each.flip inside
      exact ⟨result, there, is.ofRule⟩
    · rintro ⟨result, there, ofRule⟩
      obtain ⟨entry, inside, is⟩ := exists_of_mem_forall₂ each there
      exact ⟨entry, inside, is.rule_eq ofRule⟩
  · intro rule inRules result inResults id named ofRule
    obtain ⟨finding, first, rfl⟩ := List.mem_map.mp inRules
    obtain ⟨own, itself, rfl⟩ := List.mem_map.mp (mem_of_mem_firstOfRules first)
    obtain ⟨entry, inside, is⟩ := exists_of_mem_forall₂ each inResults
    obtain rfl : own.2.rule = id := Json.string.inj (Option.some.inj named)
    rw [is.rated, rated entry inside, is.rule_eq ofRule, ← rated own itself]
    exact ⟨rfl, rfl⟩

/-- Findings that come out of lists that were put together are reported as one run, in which the
table of rules fits the table of results. -/
theorem report_is_consistent (outcomes : List Outcome)
    (aggregated : ∀ outcome ∈ outcomes, ∃ lists, outcome.findings ⊆ Finding.aggregate lists)
    (reportable : ∀ outcome ∈ outcomes, ∀ finding ∈ outcome.findings, Reportable finding) :
    ∃ report : Json, document outcomes = .ok report ∧ text outcomes = .ok report.text ∧
      ∃ rules results, HasTables report rules results ∧ Agree outcomes rules results := by
  have severities : ∀ outcome ∈ outcomes, ∀ finding ∈ outcome.findings,
      finding.severity = severityFor finding.rule := by
    intro outcome given finding member
    obtain ⟨lists, inside⟩ := aggregated outcome given
    exact Finding.severity_of_mem_aggregate (inside member)
  have rated := forall_mem_located.mpr severities
  obtain ⟨results, made, each⟩ := exists_results (forall_mem_located.mpr reportable)
  obtain ⟨report, made, tables⟩ := exists_document made
  have written : text outcomes = .ok report.text := by
    rw [text, made]
    rfl
  exact ⟨report, made, written, _, results, tables, agree_of_results rated each⟩

def uncheckedIn (path : String) : Finding :=
  { rule := "untrusted_checkout", title := "T", message := "M", path := path, line := some 7 }

def foundIn : List (String × List (List Finding)) :=
  [("o/a", [[uncheckedIn "b.yml"],
    [{ uncheckedIn "a.yml" with rule := "debug_enabled", line := none }]]),
    ("o/b", [[{ uncheckedIn "b.yml" with severity := .note }]])]

def twoRepositories : List Outcome :=
  foundIn.map fun entry => { repository := entry.1, findings := Finding.aggregate entry.2 }

theorem two_repositories_agree :
    ∃ report : Json, document twoRepositories = .ok report ∧
      text twoRepositories = .ok report.text ∧
      ∃ rules results, HasTables report rules results ∧ Agree twoRepositories rules results := by
  have reportable : ∀ entry ∈ foundIn, ∀ list ∈ entry.2, ∀ own ∈ list, Reportable own := by
    simp only [foundIn, List.forall_mem_cons, List.not_mem_nil, false_implies,
      implies_true, and_true]
    refine ⟨⟨⟨?_, ?_, ?_⟩, ⟨?_, ?_, ?_⟩⟩, ⟨?_, ?_, ?_⟩⟩
    all_goals simp [uncheckedIn, CanShow]
  refine report_is_consistent twoRepositories (List.forall_mem_map.mpr fun entry _ => ⟨entry.2, ?_⟩)
    (List.forall_mem_map.mpr fun entry given finding member => ?_)
  · exact List.Subset.refl _
  · obtain ⟨list, inside, own, here, rfl⟩ := Finding.mem_of_mem_aggregate member
    exact (reportable entry given list inside own here).rated

end Report.Sarif

end SupplyLint
