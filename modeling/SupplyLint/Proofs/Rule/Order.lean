import Mathlib.Data.List.Forall2
import SupplyLint.Proofs.Rule.Evaluation
import SupplyLint.Proofs.Sorted

/-! # The findings of a pipeline in order

Each rule adds its own findings, or one that says that it could not be
evaluated, and all of them are sorted. `evaluate_isolates`: a rule that meets a
fault changes nothing for the others. `evaluate_ignores_order`: rules that report
their own findings can be evaluated in any order. -/
set_option autoImplicit false

namespace SupplyLint

/-! ## Sort keys -/

def Text.numbers (text : String) : List Nat :=
  (codes text.toList).map Code.number

namespace Finding

/-- What a finding has its place in a pipeline by: its job, its step, its rule and its evidence. -/
def sortKey (finding : Finding) : Int ×ₗ Int ×ₗ String ×ₗ List (List Nat ×ₗ List Nat) :=
  toLex (place finding.jobIndex, toLex (place finding.step, toLex (finding.rule,
    finding.evidence.map fun detail => toLex (Text.numbers detail.1, Text.numbers detail.2))))

end Finding

theorem comparesBy_compareText : ComparesBy Text.compareText Text.numbers := by
  have numbers : ComparesBy (compare : List Nat → List Nat → Ordering) (List.map id) :=
    (comparesBy_compareOn (id : Nat → Nat)).list
  intro x y
  have compared := numbers (Text.numbers x) (Text.numbers y)
  rwa [List.map_id, List.map_id] at compared

theorem comparesBy_compareDetail :
    ComparesBy compareDetail fun detail => toLex (Text.numbers detail.1, Text.numbers detail.2) :=
  ComparesBy.lex (fun x y => comparesBy_compareText x.1 y.1) fun x y =>
    comparesBy_compareText x.2 y.2

namespace Finding

theorem comparesBy_compare : ComparesBy compare sortKey :=
  (comparesBy_compareOn fun finding : Finding => place finding.jobIndex).lex
    ((comparesBy_compareOn fun finding : Finding => place finding.step).lex
      ((comparesBy_compareOn fun finding : Finding => finding.rule).lex
        fun x y => comparesBy_compareDetail.list x.evidence y.evidence))

theorem sortsBy_sorted (findings : List Finding) : SortsBy sortKey findings (sorted findings) :=
  comparesBy_compare.sortsBy findings

theorem eq_of_sortKey_eq {x y : Finding} (same : x.sortKey = y.sortKey) :
    x.rule = y.rule ∧
      x.evidence.map (fun detail => toLex (Text.numbers detail.1, Text.numbers detail.2)) =
        y.evidence.map fun detail => toLex (Text.numbers detail.1, Text.numbers detail.2) := by
  simp only [sortKey, EmbeddingLike.apply_eq_iff_eq, Prod.mk.injEq] at same
  exact same.2.2

end Finding

namespace Rule

/-! ## Contributions -/

/-- The finding that a rule met a fault. It is about the pipeline as a whole. -/
def faultReport (rule : Rule) (pipeline : Pipeline) (fault : Fault) : Finding :=
  { rule := "rule_evaluation_error"
    title := "Rule '" ++ rule.id ++ "' could not be evaluated"
    message := fault.category.text ++ ": " ++ fault.message
    path := pipeline.path
    evidence := [("rule", rule.id)] }

inductive Contributes (pipeline : Pipeline) (rule : Rule) : List Finding → Prop
  | own {findings : List Finding} : rule.check pipeline = .ok findings →
      Contributes pipeline rule findings
  | report {fault : Fault} : rule.check pipeline = .error fault →
      Contributes pipeline rule [rule.faultReport pipeline fault]

theorem diagnostic_eq_faultReport (rule : Rule) (pipeline : Pipeline) (fault : Fault) :
    rule.diagnostic pipeline fault = rule.faultReport pipeline fault := by
  rw [diagnostic, Finding.make, List.mergeSort_singleton]
  rfl

theorem contributes_contribution (pipeline : Pipeline) (rule : Rule) :
    Contributes pipeline rule (rule.contribution pipeline) := by
  unfold contribution
  split
  · next findings checked => exact .own checked
  · next fault checked =>
    rw [diagnostic_eq_faultReport]
    exact .report checked

theorem contribution_of_error {pipeline : Pipeline} {rule : Rule} {fault : Fault}
    (checked : rule.check pipeline = .error fault) :
    rule.contribution pipeline = [rule.faultReport pipeline fault] := by
  rw [contribution, checked, ← diagnostic_eq_faultReport]

theorem forall₂_contributes (pipeline : Pipeline) (rules : List Rule) :
    List.Forall₂ (Contributes pipeline) rules (rules.map (contribution pipeline)) :=
  List.forall₂_map_right_iff.mpr
    (List.forall₂_same.mpr fun rule _ => contributes_contribution pipeline rule)

theorem sortsBy_evaluate (pipeline : Pipeline) (rules : List Rule) :
    SortsBy Finding.sortKey (rules.flatMap (contribution pipeline)) (evaluate rules pipeline) :=
  Finding.sortsBy_sorted _

theorem evaluate_of_error {pipeline : Pipeline} {rule : Rule} {fault : Fault}
    (before after : List Rule)
    (checked : rule.check pipeline = .error fault) :
    ∃ left right, evaluate (before ++ rule :: after) pipeline =
        left ++ rule.faultReport pipeline fault :: right ∧
      evaluate (before ++ after) pipeline = left ++ right := by
  have sorts := sortsBy_evaluate pipeline (before ++ rule :: after)
  rw [List.flatMap_append, List.flatMap_cons, contribution_of_error checked, List.singleton_append]
    at sorts
  obtain ⟨left, right, whole, others⟩ := sorts.without
  rw [← List.flatMap_append] at others
  exact ⟨left, right, whole, (sortsBy_evaluate pipeline (before ++ after)).unique others⟩

/-- The findings of a pipeline are what its rules add, in the order of the rules, sorted. A rule
that meets a fault adds one finding and leaves those of the others, and their order, as they are
without it. -/
theorem evaluate_isolates (pipeline : Pipeline) (rules : List Rule) :
    (∃ contributions, List.Forall₂ (Contributes pipeline) rules contributions ∧
      SortsBy Finding.sortKey contributions.flatten (evaluate rules pipeline)) ∧
    ∀ before rule after fault, rules = before ++ rule :: after →
      rule.check pipeline = .error fault →
      ∃ left right, evaluate rules pipeline = left ++ rule.faultReport pipeline fault :: right ∧
        evaluate (before ++ after) pipeline = left ++ right := by
  refine ⟨⟨_, forall₂_contributes pipeline rules, sortsBy_evaluate pipeline rules⟩, ?_⟩
  rintro before rule after fault rfl checked
  exact evaluate_of_error before after checked

def bare : Pipeline :=
  { platform := .github, path := "ci.yml" }

def finds : Rule :=
  { id := "finds"
    check := fun pipeline =>
      .ok [Finding.make "finds" "Found" pipeline.path pipeline none none []] }

def broken : Rule :=
  { id := "broken", check := fun _ => .error .endless }

theorem broken_between_others :
    broken.check bare = .error .endless ∧
      ∃ left right,
        evaluate [finds, broken, finds] bare =
          left ++ broken.faultReport bare .endless :: right ∧
        evaluate [finds, finds] bare = left ++ right :=
  ⟨rfl, (evaluate_isolates bare [finds, broken, finds]).2
    [finds] broken [finds] .endless rfl rfl⟩

/-! ## Rules in any order -/

/-- What a rule finds in a pipeline carries its id, and the reports of faults do not. -/
structure ReportsOwn (pipeline : Pipeline) (rule : Rule) : Prop where
  ownId : rule.id ≠ "rule_evaluation_error"
  carries : Carries rule.id (rule.check pipeline)

section
variable {pipeline : Pipeline} {rule other : Rule} {finding : Finding}

theorem ReportsOwn.signs (own : ReportsOwn pipeline rule)
    (member : finding ∈ rule.contribution pipeline) :
    finding.rule = rule.id ∨
      finding.rule = "rule_evaluation_error" ∧ finding.evidence = [("rule", rule.id)] := by
  cases checked : rule.check pipeline with
  | ok findings =>
    rw [contribution, checked] at member
    exact .inl (own.carries findings checked finding member)
  | error fault =>
    rw [contribution_of_error checked, List.mem_singleton] at member
    subst member
    exact .inr ⟨rfl, rfl⟩

theorem ReportsOwn.keysApart (own : ReportsOwn pipeline rule) (others : ReportsOwn pipeline other)
    (differ : Text.numbers rule.id ≠ Text.numbers other.id) :
    KeysApart Finding.sortKey (rule.contribution pipeline) (other.contribution pipeline) := by
  intro x inFirst y inSecond same
  obtain ⟨sameRule, sameEvidence⟩ := Finding.eq_of_sortKey_eq same
  rcases own.signs inFirst with named | ⟨report, signed⟩
  · rcases others.signs inSecond with otherNamed | ⟨otherReport, -⟩
    · exact differ (congrArg Text.numbers (named.symm.trans (sameRule.trans otherNamed)))
    · exact own.ownId (named.symm.trans (sameRule.trans otherReport))
  · rcases others.signs inSecond with otherNamed | ⟨-, otherSigned⟩
    · exact others.ownId (otherNamed.symm.trans (sameRule.symm.trans report))
    · rw [signed, otherSigned] at sameEvidence
      have sameId : Text.numbers rule.id = Text.numbers other.id := by simpa using sameEvidence
      exact differ sameId

theorem reportsOwn_of_error {fault : Fault} (ownId : rule.id ≠ "rule_evaluation_error")
    (checked : rule.check pipeline = .error fault) : ReportsOwn pipeline rule := by
  refine ⟨ownId, fun findings found => ?_⟩
  rw [checked] at found
  cases found

end

/-- Rules that report their own findings give the same list of findings in any order, also where
some of them meet faults and where findings have one place. Ids are told apart by the numbers of
their codes, as texts are wherever they are ordered. -/
theorem evaluate_ignores_order (pipeline : Pipeline) {rules others : List Rule}
    (own : ∀ rule ∈ rules, ReportsOwn pipeline rule)
    (distinct : (rules.map fun rule => Text.numbers rule.id).Nodup) (same : rules.Perm others) :
    evaluate rules pipeline = evaluate others pipeline := by
  have apart : (rules.map (contribution pipeline)).Pairwise (KeysApart Finding.sortKey) := by
    rw [List.Nodup, List.pairwise_map] at distinct
    refine List.pairwise_map.mpr (distinct.imp_of_mem fun first second differ => ?_)
    exact (own _ first).keysApart (own _ second) differ
  exact (sortsBy_evaluate pipeline rules).eq_of_perm_blocks (sortsBy_evaluate pipeline others)
    (same.map _) apart

def stuck : Rule :=
  { id := "stuck", check := fun _ => .error .endless }

/-- A rule that finds every pipeline twice, with one place for both findings. -/
def findsTwice : Rule :=
  { id := "finds twice"
    check := fun pipeline => .ok (["Found", "Found again"].map fun title =>
      Finding.make "finds twice" title pipeline.path pipeline none none []) }

theorem reportsOwn_findsTwice : ReportsOwn bare findsTwice :=
  ⟨by decide, carries_ok (by simp [Finding.make, findsTwice])⟩

theorem broken_rules_in_either_order :
    (∀ rule ∈ [stuck, findsTwice, broken], ReportsOwn bare rule) ∧
      ([stuck, findsTwice, broken].map fun rule => Text.numbers rule.id).Nodup ∧
      evaluate [stuck, findsTwice, broken] bare = evaluate [broken, stuck, findsTwice] bare := by
  have own : ∀ rule ∈ [stuck, findsTwice, broken], ReportsOwn bare rule := by
    simp only [List.forall_mem_cons, List.not_mem_nil, false_implies, implies_true, and_true]
    exact ⟨reportsOwn_of_error (by decide) rfl, reportsOwn_findsTwice,
      reportsOwn_of_error (by decide) rfl⟩
  have distinct : ([stuck, findsTwice, broken].map fun rule => Text.numbers rule.id).Nodup := by
      decide
  exact ⟨own, distinct, evaluate_ignores_order bare own distinct
    (List.perm_append_singleton broken [stuck, findsTwice])⟩

end Rule

end SupplyLint
