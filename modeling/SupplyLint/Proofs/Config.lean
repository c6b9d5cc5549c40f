import SupplyLint.ConfigFile
import SupplyLint.Proofs.Outcome
import SupplyLint.Scan.Aggregate

/-! # Configurations that make sense

Whatever settings a configuration is made of, at least one repository is scanned
at a time; and a configuration file gives the rules to ignore as a list. Where it
can be told which rules are ignored, findings are left out by their rules and
severities. -/
set_option autoImplicit false

namespace SupplyLint

namespace Config

def ListsRules (config : Config) : Prop :=
  ∃ rules, config.ignoreRules = .list rules

theorem threadCount_pos {value : Value} {count : Nat} (threads : threadCount value = some count) :
    0 < count := by
  unfold threadCount at threads
  split at threads
  · obtain rfl := Option.some.inj threads
    exact Nat.one_pos
  · split at threads
    · obtain rfl := Option.some.inj threads
      omega
    · cases threads
  · cases threads

theorem threadCount_eq_some {value : Value} {count : Nat}
    (counts : threadCount value = some count) :
    value = .int count ∨ value = .bool true ∧ count = 1 := by
  unfold threadCount at counts
  split at counts
  · exact .inr ⟨rfl, (Option.some.inj counts).symm⟩
  · next n =>
    split at counts
    · obtain rfl := Option.some.inj counts
      exact .inl (congrArg Value.int (by omega))
    · cases counts
  · cases counts

theorem invalid_ne_ok (what : String) (value : Value) (expected : String) (config : Config) :
    invalid what value expected ≠ .ok config := by
  intro made
  simp only [invalid, bind_eq_ok] at made
  obtain ⟨shown, -, thrown⟩ := made
  cases thrown

theorem ofSettings_eq_ok {settings : Settings} {config : Config}
    (made : ofSettings settings = .ok config) :
    0 < config.parallelism ∧ config.ignoreRules = settings.ignoreRules := by
  unfold ofSettings at made
  split at made
  · exact absurd made (invalid_ne_ok _ _ _ config)
  · split at made
    · exact absurd made (invalid_ne_ok _ _ _ config)
    · next count threads =>
      split at made
      · exact absurd made (invalid_ne_ok _ _ _ config)
      · obtain rfl := Except.ok.inj made
        exact ⟨threadCount_pos threads, rfl⟩

theorem ignoreRules_set {settings changed : Settings} {name : String} {value : Value}
    (other : name ≠ "ignore_rules") (set : settings.set name value = .ok changed) :
    changed.ignoreRules = settings.ignoreRules := by
  unfold Settings.set at set
  split at set
  · obtain rfl := Except.ok.inj set
    rfl
  · exact absurd rfl other
  · obtain rfl := Except.ok.inj set
    rfl
  · obtain rfl := Except.ok.inj set
    rfl
  · obtain rfl := Except.ok.inj set
    rfl
  · obtain rfl := Except.ok.inj set
    rfl
  · cases set

theorem ignoreRules_setAll {settings changed : Settings} {given : List (String × Value)}
    (others : ∀ entry ∈ given, entry.1 ≠ "ignore_rules")
    (set : settings.setAll given = .ok changed) :
    changed.ignoreRules = settings.ignoreRules := by
  induction given generalizing settings with
  | nil =>
    obtain rfl := Except.ok.inj set
    rfl
  | cons entry rest ih =>
    obtain ⟨name, value⟩ := entry
    simp only [Settings.setAll, bind_eq_ok] at set
    obtain ⟨next, here, later⟩ := set
    rw [ih (fun other member => others other (List.mem_cons_of_mem _ member)) later,
      ignoreRules_set (others _ List.mem_cons_self) here]

theorem withOverrides_eq_ok {config changed : Config} {overrides : List (String × Value)}
    (others : ∀ entry ∈ overrides, entry.1 ≠ "ignore_rules")
    (made : config.withOverrides overrides = .ok changed) :
    0 < changed.parallelism ∧ changed.ignoreRules = config.ignoreRules := by
  simp only [withOverrides, bind_eq_ok, uncaught_eq_ok] at made
  obtain ⟨settings, set, made⟩ := made
  obtain ⟨positive, same⟩ := ofSettings_eq_ok made
  refine ⟨positive, same.trans (ignoreRules_setAll (fun entry member => ?_) set)⟩
  exact others entry (List.mem_filter.mp member).1

/-! ## Rules that are ignored -/

/-- It can be told of every rule whether a configuration ignores it. -/
def Ignores (config : Config) (ignored : String → Bool) : Prop :=
  ∀ rule, config.ignoreRules.holds rule = .ok (ignored rule)

theorem ignores_of_texts {config : Config} {rules : List String}
    (listed : config.ignoreRules = .list (rules.map .text)) : config.Ignores rules.contains := by
  intro rule
  rw [listed, Value.holds, List.any_map, List.contains_eq_any_beq]
  show Except.ok (rules.any fun other => other == rule) = _
  simp only [Bool.beq_comm]

theorem Ignores.filterBy {config : Config} {ignored : String → Bool}
    (ignores : config.Ignores ignored)
    (findings : List Finding) :
    Finding.filterBy config findings = .ok (findings.filter fun finding =>
      finding.rule == Rule.evaluationError ||
        (!ignored finding.rule && config.severity.rank ≤ finding.severity.rank)) := by
  refine filterM_of_total (fun finding => ?_) findings
  rw [Finding.isKept, ignores]
  by_cases fault : finding.rule = Rule.evaluationError
  · simp [fault]
  · simp [fault]

end Config

namespace ConfigFile

theorem listSetting_eq_ok {entries : Entries} {name : String} {value : Value}
    (found : listSetting entries name = .ok value) : ∃ items, value = .list items := by
  unfold listSetting at found
  split at found
  · exact ⟨[], (Except.ok.inj found).symm⟩
  · split at found
    · obtain ⟨items, -, rfl⟩ := map_eq_ok.mp found
      exact ⟨items, rfl⟩
    · exact ⟨[], (Except.ok.inj found).symm⟩

theorem settingsOf_eq_ok {entries : Entries} {settings : Settings}
    (made : settingsOf entries = .ok settings) : ∃ items, settings.ignoreRules = .list items := by
  unfold settingsOf at made
  split at made
  all_goals
    simp only [bind_eq_ok] at made
    obtain ⟨severity, -, ignored, listed, exclude, -, made⟩ := made
    obtain rfl := Except.ok.inj made
    exact listSetting_eq_ok listed

theorem listsRules_of_read {path : String} {content : List UInt8} {config : Config}
    (found : read path content = .ok config) : config.ListsRules := by
  simp only [read, bind_eq_ok] at found
  obtain ⟨text, -, found⟩ := found
  split at found
  · cases found
  · cases found
  · simp only [bind_eq_ok, uncaught_eq_ok] at found
    obtain ⟨settings, made, found⟩ := found
    obtain ⟨items, listed⟩ := settingsOf_eq_ok made
    exact ⟨items, (Config.ofSettings_eq_ok found).2.trans listed⟩
  · obtain rfl := Except.ok.inj found
    exact ⟨[], rfl⟩

theorem listsRules_of_load {tree : Tree} {working : Place} {asked scanned : Option String}
    {config : Config} (found : load tree working asked scanned = .ok config) :
      config.ListsRules := by
  simp only [load, bind_eq_ok] at found
  obtain ⟨file, -, found⟩ := found
  split at found
  · exact listsRules_of_read found
  · obtain rfl := Except.ok.inj found
    exact ⟨[], rfl⟩

end ConfigFile

end SupplyLint
