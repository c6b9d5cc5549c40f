import SupplyLint.Proofs.Outcome
import SupplyLint.Proofs.Text.Split
import SupplyLint.Proofs.Value.Json
import SupplyLint.Report.Console
import SupplyLint.Report.Sarif
import SupplyLint.Report.Structured

/-! # Which outcomes can be reported

Apart from the names of steps a finding consists of texts and numbers. Each report
comes to a text exactly when it can write the names that it shows: as texts on a
terminal, as JSON in the two other formats. On a terminal all that is shown must
have bytes besides, as the report is printed there. -/
set_option autoImplicit false

namespace SupplyLint.Report

open SupplyLint.Text SupplyLint.Value

namespace Console

/-- The name of the step of a finding has a text, if the finding is about a step. -/
def CanShow (finding : Finding) : Prop :=
  finding.step ≠ none → finding.stepName.isShort = true

def nameTexts (finding : Finding) : List String :=
  if finding.step = none then [] else finding.stepName.toText.toOption.toList

/-- The texts that are shown of a finding. -/
def findingTexts (finding : Finding) : List String :=
  [finding.title, finding.rule, finding.path, finding.job, finding.message] ++
    finding.evidence.flatMap (fun detail => [detail.1, detail.2]) ++ nameTexts finding

def IsShown (finding : Finding) : Prop :=
  CanShow finding ∧ ∀ text ∈ findingTexts finding, isEncodable text = true

def texts (outcome : Outcome) : List String :=
  outcome.repository ::
    match outcome.failure with
    | some failure => [failure.message]
    | none => outcome.problems.map Problem.text ++ outcome.findings.flatMap findingTexts

/-- Lines are given, and there are bytes for each of them. -/
def Shows (lines : Except Fault (List String)) : Prop :=
  ∃ all, lines = .ok all ∧ ∀ line ∈ all, isEncodable line = true

section Shows
variable {α : Type}

theorem shows_pure (lines : List String) :
    Shows (pure lines) ↔ ∀ line ∈ lines, isEncodable line = true := by
  simp [Shows, pure_eq_ok]

theorem shows_bind_pure {x : Except Fault α} {f : α → List String} :
    Shows (x >>= fun a => pure (f a)) ↔ ∃ a, x = .ok a ∧ ∀ line ∈ f a, isEncodable line = true := by
  cases x with
  | error fault => simp [Shows, bind, Except.bind]
  | ok a => simp [Shows, bind, Except.bind, pure_eq_ok]

theorem shows_around {x : Except Fault (List String)} {before after : List String} :
    Shows (x >>= fun own => pure (before ++ (own ++ after))) ↔
      Shows x ∧ ∀ line ∈ before ++ after, isEncodable line = true := by
  simp only [shows_bind_pure, List.forall_mem_append]
  constructor
  · rintro ⟨own, made, first, inside, last⟩
    exact ⟨⟨own, made, inside⟩, first, last⟩
  · rintro ⟨⟨own, made, inside⟩, first, last⟩
    exact ⟨own, made, first, inside, last⟩

theorem shows_map_append {x : Except Fault (List String)} {before : List String} :
    Shows (x.map (before ++ ·)) ↔ Shows x ∧ ∀ line ∈ before, isEncodable line = true := by
  have same : x.map (before ++ ·) = x >>= fun own => pure (before ++ (own ++ [])) := by
    cases x <;> simp [bind, Except.bind, Except.map, pure, Except.pure]
  rw [same, shows_around, List.append_nil]

theorem exists_mapM_iff {each : α → Except Fault (List String)} {items : List α} :
    (∃ shown, items.mapM each = .ok shown ∧
      ∀ lines ∈ shown, ∀ line ∈ lines, isEncodable line = true) ↔
        ∀ item ∈ items, Shows (each item) := by
  simp only [mapM_eq_ok]
  induction items with
  | nil => simp
  | cons item rest ih =>
    rw [List.forall_mem_cons, ← ih]
    constructor
    · rintro ⟨shown, made, inside⟩
      cases made with
      | cons first others =>
        rw [List.forall_mem_cons] at inside
        exact ⟨⟨_, first, inside.1⟩, _, others, inside.2⟩
    · rintro ⟨⟨first, made, here⟩, shown, others, inside⟩
      exact ⟨first :: shown, .cons made others, List.forall_mem_cons.mpr ⟨here, inside⟩⟩

end Shows

/-! ## The lines -/

theorem separates_badge (severity : Severity) : separates (badge severity) = true := by
  cases severity <;> decide

theorem isEncodable_emphasized (text : String) :
    isEncodable (emphasized text) = isEncodable text := by
  rw [emphasized, isEncodable_before (by decide), isEncodable_after (by decide)]

theorem isEncodable_location (finding : Finding) :
    isEncodable (location finding) = isEncodable finding.path := by
  unfold location
  split
  · rfl
  · next line _ =>
    split
    · rfl
    · rw [String.append_assoc, isEncodable_before]
      exact separates_append (by decide) (separates_int line)

theorem isEncodable_of_mem_countLines {findings : List Finding} {line : String}
    (member : line ∈ countLines findings) : isEncodable line = true := by
  obtain ⟨severity, -, counted⟩ := List.mem_filterMap.mp member
  split at counted
  · cases counted
  · next count _ =>
    obtain rfl := Option.some.inj counted
    refine isEncodable_of_separates
      (separates_append (separates_append (separates_append ?_ ?_) ?_) ?_)
    · decide
    · exact separates_badge severity
    · decide
    · exact separates_nat _

theorem shows_placeLines (finding : Finding) :
    Shows (placeLines finding) ↔ CanShow finding ∧ isEncodable finding.job = true ∧
      ∀ text ∈ nameTexts finding, isEncodable text = true := by
  have job : (∀ line ∈ if finding.job = "" then [] else ["      Job:   " ++ finding.job],
      isEncodable line = true) ↔ isEncodable finding.job = true := by
    split
    · next none => simp [none, isEncodable, codes]
    · rw [List.forall_mem_singleton, isEncodable_after (by decide)]
  unfold placeLines CanShow nameTexts
  dsimp only
  generalize (if finding.job = "" then [] else ["      Job:   " ++ finding.job]) = lines at job ⊢
  cases finding.step with
  | none =>
    simp only [shows_pure, job, ne_eq, not_true_eq_false, false_imp_iff, if_true,
      List.not_mem_nil, implies_true, and_true, true_and]
  | some step =>
    have returns := returns_toText finding.stepName
    have atStep : some step ≠ none := Option.some_ne_none step
    rw [forall_prop_of_true atStep, if_neg atStep, ← returns, shows_bind_pure]
    cases named : finding.stepName.toText with
    | error fault => simp
    | ok name =>
      have line : isEncodable ("      Step:  " ++ toString step ++ " (" ++ name ++ ")") =
          isEncodable name := by
        rw [isEncodable_before (by decide), isEncodable_after]
        exact separates_append (separates_append (by decide) (separates_int step)) (by decide)
      simp only [Except.ok.injEq, exists_eq_left', List.forall_mem_append,
        List.forall_mem_singleton, job, line, returns_ok, true_and, Except.toOption,
        Option.toList_some]

theorem shows_findingLines (number : Nat) (finding : Finding) :
    Shows (findingLines number finding) ↔ IsShown finding := by
  have head : isEncodable ("    " ++ badge finding.severity ++ " #" ++ toString number ++ ": " ++
      emphasized finding.title) = isEncodable finding.title := by
    rw [isEncodable_after, isEncodable_emphasized]
    exact separates_append (separates_append (separates_append (separates_append (by decide)
      (separates_badge _)) (by decide)) (separates_nat number)) (by decide)
  have detail (key value : String) : isEncodable ("      " ++ key ++ ": " ++ value) =
      (isEncodable key && isEncodable value) := by
    rw [isEncodable_between (by decide), isEncodable_after (by decide)]
  have rule : isEncodable ("      Rule:  " ++ finding.rule) = isEncodable finding.rule :=
    isEncodable_after (by decide) _
  have path : isEncodable ("      File:  " ++ location finding) = isEncodable finding.path := by
    rw [isEncodable_after (by decide), isEncodable_location]
  have message : (∀ line ∈ (splitAll '\n' finding.message).map ("      " ++ ·),
      isEncodable line = true) ↔ isEncodable finding.message = true := by
    rw [List.forall_mem_map, ← isEncodable_splitAll]
    exact forall₂_congr fun line _ => by rw [isEncodable_after (by decide)]
  have details : (∀ line ∈ finding.evidence.map fun detail =>
      "      " ++ detail.1 ++ ": " ++ detail.2, isEncodable line = true) ↔
      ∀ text ∈ finding.evidence.flatMap fun detail => [detail.1, detail.2],
        isEncodable text = true := by
    simp only [List.forall_mem_map, List.forall_mem_flatMap, detail, Bool.and_eq_true,
      List.forall_mem_cons, List.not_mem_nil, false_imp_iff, implies_true, and_true]
  have nothing : isEncodable "" = true := rfl
  simp only [IsShown, findingLines, findingTexts, List.append_assoc, shows_around, shows_placeLines,
    List.forall_mem_append, List.forall_mem_cons, List.not_mem_nil, false_imp_iff, implies_true,
    head, rule, path, message, details, nothing]
  tauto

theorem shows_findingsLines (findings : List Finding) :
    Shows (findingsLines findings) ↔ ∀ finding ∈ findings, IsShown finding := by
  have numbered : (∀ entry ∈ findings.zipIdx, IsShown entry.1) ↔
      ∀ finding ∈ findings, IsShown finding := by
    rw [← List.forall_mem_map, List.zipIdx_map_fst]
  have counts : (∀ line ∈ countLines findings, isEncodable line = true) ↔ True :=
    iff_true_intro fun _ member => isEncodable_of_mem_countLines member
  have ruler : isEncodable ("    " ++ repeated '-' 54) = true := by decide
  have total : isEncodable ("    Found " ++ emphasized (toString findings.length) ++ " issue(s):") =
      true := by
    rw [isEncodable_before (by decide), isEncodable_after (by decide), isEncodable_emphasized]
    exact isEncodable_of_separates (separates_nat _)
  unfold findingsLines
  split
  · next none =>
    have line : isEncodable "    ✅ No security issues found!" = true := by decide
    rw [List.isEmpty_iff.mp none, shows_pure, List.forall_mem_singleton]
    exact iff_of_true line fun _ member => absurd member List.not_mem_nil
  · simp only [shows_bind_pure, List.forall_mem_append, List.forall_mem_singleton, counts, ruler,
      total, true_and, List.forall_mem_flatten, exists_mapM_iff, shows_findingLines, numbered]

theorem shows_outcomeLines (outcome : Outcome) :
    Shows (outcomeLines outcome) ↔
      (outcome.failure = none → ∀ finding ∈ outcome.findings, CanShow finding) ∧
        ∀ text ∈ texts outcome, isEncodable text = true := by
  have name : isEncodable ("  " ++ emphasized ("Repository: " ++ outcome.repository)) =
      isEncodable outcome.repository := by
    rw [isEncodable_after (by decide), isEncodable_emphasized, isEncodable_after (by decide)]
  have summary : (∀ line ∈ summaryLines outcome, isEncodable line = true) ↔
      ∀ text ∈ outcome.problems.map Problem.text, isEncodable text = true := by
    have total : isEncodable ("    " ++ toString outcome.pipelines ++ " pipeline(s) scanned") =
        true := by
      rw [isEncodable_before (by decide), isEncodable_after (by decide)]
      exact isEncodable_of_separates (separates_nat _)
    have warning (text : String) : isEncodable ("    Warning: " ++ text) = isEncodable text :=
      isEncodable_after (by decide) text
    simp only [summaryLines, List.forall_mem_cons, List.forall_mem_map, total, warning, true_and]
  have shown : (∀ finding ∈ outcome.findings, IsShown finding) ↔
      (∀ finding ∈ outcome.findings, CanShow finding) ∧
        ∀ text ∈ outcome.findings.flatMap findingTexts, isEncodable text = true := by
    simp only [IsShown, forall_and, List.forall_mem_flatMap]
  have nothing : isEncodable "" = true := rfl
  unfold outcomeLines texts
  cases outcome.failure with
  | some failure =>
    have failed : isEncodable ("    Scan failed: " ++ failure.message) =
        isEncodable failure.message := isEncodable_after (by decide) _
    simp only [pure_bind, shows_pure, List.forall_mem_append,
      List.forall_mem_cons, List.not_mem_nil, name, failed, nothing]
    tauto
  | none =>
    change Shows ((findingsLines outcome.findings).map (summaryLines outcome ++ ·) >>= fun lines =>
      pure (["  " ++ emphasized ("Repository: " ++ outcome.repository)] ++ (lines ++ [""]))) ↔ _
    simp only [shows_around, shows_map_append, shows_findingsLines, shown, summary,
      List.forall_mem_append, List.forall_mem_cons, List.not_mem_nil, name, nothing]
    tauto

/-- The report can be printed exactly when the names of steps that it shows have texts and all texts
that it shows have bytes. -/
theorem returns_report (outcomes : List Outcome) :
    Returns (report outcomes) ↔ ∀ outcome ∈ outcomes,
      (outcome.failure = none → ∀ finding ∈ outcome.findings, CanShow finding) ∧
        ∀ text ∈ texts outcome, isEncodable text = true := by
  -- A text is printed unless it holds a lone surrogate, and none arises where the lines are joined.
  have printed : Returns (report outcomes) ↔
      ∃ all, text outcomes = .ok all ∧ isEncodable all = true := by
    rw [report, returns_bind]
    refine exists_congr fun all => and_congr_right fun _ => ?_
    rw [← surrogateRun?_eq_none_iff]
    cases surrogateRun? all <;> simp [throw, throwThe, MonadExceptOf.throw]
  have banner : isEncodable ruler = true ∧
      isEncodable (emphasized "  Pipeline Security Report") = true := ⟨by decide, by decide⟩
  have nothing : isEncodable "" = true := rfl
  have none : (∀ line ∈ if outcomes.isEmpty then ["  No repositories scanned.", ""] else [],
      isEncodable line = true) ↔ True := by
    refine iff_true_intro ?_
    split
    · simp only [List.forall_mem_cons]
      exact ⟨by decide, rfl, nofun⟩
    · nofun
  have lines : separates "\n" = true := by decide
  have joined : (∃ all, text outcomes = .ok all ∧ isEncodable all = true) ↔
      ∃ shown, outcomes.mapM outcomeLines = .ok shown ∧
        ∀ lines ∈ shown, ∀ line ∈ lines, isEncodable line = true := by
    simp only [text, bind_eq_ok, pure_eq_ok, ← exists_and_right, and_assoc]
    rw [exists_comm]
    simp only [exists_and_left, exists_eq_left', isEncodable_intercalate lines,
      List.forall_mem_append, List.forall_mem_cons, List.forall_mem_flatten, banner, nothing, none,
      true_and, and_true, List.not_mem_nil, false_imp_iff, implies_true]
  simp only [printed, joined, exists_mapM_iff, shows_outcomeLines]

end Console

namespace Structured

theorem returns_text (outcomes : List Outcome) :
    Returns (text outcomes) ↔ ∀ outcome ∈ outcomes, ∀ finding ∈ outcome.findings,
      finding.stepName.isRepresentable = true := by
  simp only [text, outcomeJson, findingJson, returns_bind_pure, returns_mapM, returns_toJson]

end Structured

namespace Sarif

/-- The name of the step of a finding has a JSON form, if the finding is about a step and the name
is present. -/
def CanShow (finding : Finding) : Prop :=
  finding.step ≠ none → finding.stepName.present = true → finding.stepName.isRepresentable = true

theorem returns_stepLocation (finding : Finding) :
    Returns (stepLocation finding) ↔ CanShow finding := by
  unfold stepLocation CanShow
  cases finding.step with
  | none => simp
  | some step => cases finding.stepName.present <;> simp [returns_toJson]

theorem returns_resultJson (repository : String) (finding : Finding) :
    Returns (resultJson repository finding) ↔ CanShow finding := by
  simp only [resultJson, returns_bind_pure, returns_stepLocation]

theorem forall_mem_located {outcomes : List Outcome} {holds : Finding → Prop} :
    (∀ entry ∈ Outcome.located outcomes, holds entry.2) ↔
      ∀ outcome ∈ outcomes, ∀ finding ∈ outcome.findings, holds finding := by
  simp only [Outcome.located, List.forall_mem_flatMap, List.forall_mem_map]

theorem returns_text (outcomes : List Outcome) :
    Returns (text outcomes) ↔
      ∀ outcome ∈ outcomes, ∀ finding ∈ outcome.findings, CanShow finding := by
  simp only [text, document, returns_except_map, returns_bind_pure,
    returns_mapM, returns_resultJson, forall_mem_located]

end Sarif

end SupplyLint.Report
