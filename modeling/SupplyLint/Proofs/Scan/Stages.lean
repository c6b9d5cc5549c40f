import SupplyLint.Proofs.Config
import SupplyLint.Proofs.Scan.Aggregate

/-! # Findings in stages

The findings of a repository can be put together in stages, and those that are not
reported can be left out before or after. `aggregate_composes`: lists of findings
that are one list each already come to the same list, a second time nothing
changes, and a configuration leaves out the same findings at either end. -/
set_option autoImplicit false

namespace SupplyLint.Finding

theorem merged_append (first second : List Finding) :
    merged (first ++ second) =
      merged first ++ (merged second).filter fun finding => finding.key ∉ first.map key := by
  rw [merged, firstsOn_append, List.map_append, merged, merged, List.filter_map]
  rfl

theorem rated_of_mem_aggregate {lists : List (List Finding)} {finding : Finding}
    (member : finding ∈ aggregate lists) : finding.rated = finding := by
  obtain ⟨first, -, same⟩ := first_of_mem_aggregate member
  rw [same]
  rfl

theorem merged_aggregate (lists : List (List Finding)) :
    merged (aggregate lists) = aggregate lists := by
  rw [merged, firstsOn_of_nodup (nodup_aggregate lists)]
  exact (List.map_congr_left fun finding => rated_of_mem_aggregate).trans (List.map_id _)

/-! ## Lists that are put together before -/

theorem key_mem_aggregate_single (findings : List Finding) (key : Key) :
    key ∈ (aggregate [findings]).map Finding.key ↔ key ∈ findings.map Finding.key := by
  rw [key_mem_aggregate, List.flatten_singleton]

theorem ties_merged (lists : List (List Finding))
    (place : String ×ₗ Int ×ₗ Int ×ₗ String ×ₗ List (List Nat ×ₗ List Nat)) :
    (merged (lists.map fun findings => aggregate [findings]).flatten).filter (pathKey · = place) =
      (merged lists.flatten).filter (pathKey · = place) := by
  induction lists with
  | nil => rfl
  | cons findings rest ih =>
    have here := (sortsBy_aggregate [findings]).ties place
    rw [List.flatten_singleton] at here
    -- either way the later lists lose what has a key of this one
    rw [List.map_cons, List.flatten_cons, List.flatten_cons, merged_append, merged_append,
      merged_aggregate, List.filter_append, List.filter_append, here, List.filter_comm, ih,
      List.filter_comm]
    simp only [key_mem_aggregate_single]

theorem aggregate_map_aggregate (lists : List (List Finding)) :
    aggregate (lists.map fun findings => aggregate [findings]) = aggregate lists :=
  (sortsBy_aggregate _).eq_of_ties (sortsBy_aggregate lists) (ties_merged lists)

theorem aggregate_flatten (lists : List (List Finding)) : aggregate
    [lists.flatten] = aggregate lists := by
  rw [aggregate, List.flatten_singleton, aggregate]

theorem aggregate_aggregate (lists : List (List Finding)) : aggregate
    [aggregate lists] = aggregate lists := by
  have twice := aggregate_map_aggregate [lists.flatten]
  rwa [List.map_singleton, aggregate_flatten] at twice

/-! ## Findings that are left out before -/

theorem merged_filter (keeps : String → Bool) (findings : List Finding) :
    merged (findings.filter fun finding => keeps finding.rule) =
      (merged findings).filter fun finding => keeps finding.rule := by
  have alike (x y : Finding) (same : x.key = y.key) : keeps x.rule = keeps y.rule :=
    congrArg keeps (congrArg Key.rule same)
  rw [merged, firstsOn_filter alike, merged, List.filter_map]
  rfl

theorem aggregate_filter (keeps : String → Bool) (lists : List (List Finding)) :
    aggregate (lists.map (List.filter fun finding => keeps finding.rule)) =
      (aggregate lists).filter fun finding => keeps finding.rule := by
  have sorts := sortsBy_aggregate (lists.map (List.filter fun finding => keeps finding.rule))
  rw [← List.filter_flatten, merged_filter] at sorts
  exact sorts.unique ((sortsBy_aggregate lists).filter _)

/-- Whether the findings of a rule are reported: those that report faults are, and those of the
rules that are not ignored and severe enough. -/
def reports (ignored : String → Bool) (least : Severity) (rule : String) : Bool :=
  rule == "rule_evaluation_error" || (!ignored rule && least.rank ≤ (severityFor rule).rank)

theorem severity_of_mem_aggregate {lists : List (List Finding)} {finding : Finding}
    (member : finding ∈ aggregate lists) : finding.severity = severityFor finding.rule := by
  rw [← rated_of_mem_aggregate member]
  rfl

theorem filterBy_aggregate {config : Config} {ignored : String → Bool}
    (ignores : config.Ignores ignored)
    (lists : List (List Finding)) :
    filterBy config (aggregate lists) = .ok (aggregate (lists.map
      (List.filter fun finding => reports ignored config.severity finding.rule))) := by
  rw [ignores.filterBy, aggregate_filter (reports ignored config.severity)]
  refine congrArg Except.ok (List.filter_congr fun finding member => ?_)
  rw [severity_of_mem_aggregate member]
  rfl

/-! ## Configurations that leave out more -/

/-- Two configurations of which the second ignores every rule that the first one ignores, and asks
for no less severity. -/
structure Narrows (config narrower : Config) (ignored alsoIgnored : String → Bool) : Prop where
  ignores : config.Ignores ignored
  alsoIgnores : narrower.Ignores alsoIgnored
  still : ∀ rule, ignored rule = true → alsoIgnored rule = true
  severity : config.severity.rank ≤ narrower.severity.rank

def reportsFault (finding : Finding) : Bool :=
  finding.rule == "rule_evaluation_error"

theorem Narrows.filterBy {config narrower : Config} {ignored alsoIgnored : String → Bool}
    (narrows : Narrows config narrower ignored alsoIgnored) (findings : List Finding) :
    ∃ kept fewer, Finding.filterBy config findings = .ok kept ∧
      Finding.filterBy narrower findings = .ok fewer ∧ fewer.Sublist kept ∧
      fewer.filter reportsFault = findings.filter reportsFault := by
  refine ⟨_, _, narrows.ignores.filterBy findings, narrows.alsoIgnores.filterBy findings, ?_, ?_⟩
  · refine List.monotone_filter_right findings fun finding passes => ?_
    rw [Bool.or_eq_true, Bool.and_eq_true, Bool.not_eq_true', decide_eq_true_iff] at passes ⊢
    rcases passes with fault | ⟨notIgnored, severe⟩
    · exact .inl fault
    · refine .inr ⟨Bool.eq_false_iff.mpr fun before => ?_, narrows.severity.trans severe⟩
      rw [narrows.still _ before] at notIgnored
      cases notIgnored
  · rw [List.filter_filter]
    refine List.filter_congr fun finding _ => ?_
    cases fault : finding.reportsFault with
    | true =>
      have report : (finding.rule == Rule.evaluationError) = true := fault
      rw [report, Bool.true_or, Bool.and_true]
    | false => rfl

/-- Lists of findings come to one list in any number of stages, and once more to the same; what a
configuration leaves out of it can be left out before, by the rules alone; and the more a
configuration leaves out the shorter the list gets, but for the reports of faults. -/
theorem aggregate_composes (lists : List (List Finding)) :
    aggregate (lists.map fun findings => aggregate [findings]) = aggregate lists ∧
    aggregate [aggregate lists] = aggregate lists ∧
    (∀ (config : Config) ignored, config.Ignores ignored →
      filterBy config (aggregate lists) = .ok (aggregate (lists.map
        (List.filter fun finding => reports ignored config.severity finding.rule)))) ∧
    ∀ config narrower ignored alsoIgnored, Narrows config narrower ignored alsoIgnored →
      ∃ kept fewer, filterBy config (aggregate lists) = .ok kept ∧
        filterBy narrower (aggregate lists) = .ok fewer ∧ fewer.Sublist kept ∧
        fewer.filter reportsFault = (aggregate lists).filter reportsFault :=
  ⟨aggregate_map_aggregate lists, aggregate_aggregate lists,
    fun _ _ ignores => filterBy_aggregate ignores lists,
    fun _ _ _ _ narrows => narrows.filterBy (aggregate lists)⟩

def injectionIn (job message : String) : Finding :=
  { rule := "injection", title := "T", message := message, path := "a.yml", job := job }

/-- Two findings with one place, a third with the key of one of them, and a report of a fault. -/
def mixedLists : List (List Finding) :=
  [[injectionIn "k" "M", injectionIn "j" "M"],
    [injectionIn "j" "N", { injectionIn "" "M" with rule := "rule_evaluation_error" }]]

theorem narrows_lists : Narrows { ignoreRules := .list [.text "debug_enabled"] }
    { severity := .high, ignoreRules := .list [.text "debug_enabled", .text "injection"] }
    ["debug_enabled"].contains ["debug_enabled", "injection"].contains where
  ignores := Config.ignores_of_texts rfl
  alsoIgnores := Config.ignores_of_texts rfl
  still := by simp
  severity := by decide

theorem mixed_lists_compose :
    filterBy { ignoreRules := .list [.text "debug_enabled"] } (aggregate mixedLists) =
      .ok (aggregate (mixedLists.map
        (List.filter fun finding => reports ["debug_enabled"].contains .low finding.rule))) ∧
    ∃ kept fewer,
      filterBy { ignoreRules := .list [.text "debug_enabled"] } (aggregate mixedLists) = .ok kept ∧
      filterBy
        { severity := .high, ignoreRules := .list [.text "debug_enabled", .text "injection"] }
        (aggregate mixedLists) = .ok fewer ∧ fewer.Sublist kept ∧
      fewer.filter reportsFault = (aggregate mixedLists).filter reportsFault := by
  obtain ⟨-, -, filters, narrows⟩ := aggregate_composes mixedLists
  exact ⟨filters _ _ narrows_lists.ignores, narrows _ _ _ _ narrows_lists⟩

end SupplyLint.Finding
