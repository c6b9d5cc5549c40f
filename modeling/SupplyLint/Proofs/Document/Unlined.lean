import SupplyLint.Proofs.Document.Jobs
import SupplyLint.Proofs.Github.Unlined
import SupplyLint.Proofs.Gitlab.Lineless
import SupplyLint.Proofs.Value.Equality

/-! # Documents that differ in nothing but lines

`pipelines_differ_in_lines_only`: comments and blank lines between the lines of a document make no
difference to its pipeline but for the lines themselves, if no mapping stands in a value whose text
is taken. `script_shows_line`: the text of such a value shows the line of the mapping. -/
set_option autoImplicit false

namespace SupplyLint.Document

open SupplyLint.Value (AllLineless)

/-- There are no lines in the values of a document and of what it reaches whose text is taken, nor
in those that are kept as a name, a shell or a ref. -/
def ShowsNoLine (resolve : Resolver) (document : Document) : Prop :=
  match document.platform with
  | .github => ∀ raw, Github.entriesOf document.path document.content = .ok (some raw) →
      Github.EntriesLineless resolve document.path raw
  | .gitlab =>
    ∀ raw, outcome (Gitlab.configuration document.path document.content) = .ok (some raw) →
      Gitlab.EntriesLineless resolve document.path raw
  | .other _ => True

theorem pipeline_sameUnder {first second : Document} {resolve other : Resolver}
    (platform : first.platform = second.platform) (path : first.path = second.path)
    (contents : LoadAlike first.content second.content) (files : FilesAlike resolve other)
    (lineless : first.ShowsNoLine resolve) (linelessToo : second.ShowsNoLine other) :
    SameUnder Pipeline.unlined (first.pipeline resolve) (second.pipeline other) := by
  unfold ShowsNoLine at lineless linelessToo
  unfold Document.pipeline
  rw [← platform, ← path] at linelessToo ⊢
  cases same : first.platform with
  | github =>
    rw [same] at lineless linelessToo
    exact Github.normalize_sameUnder files contents lineless linelessToo
  | gitlab =>
    rw [same] at lineless linelessToo
    exact Gitlab.normalize_sameUnder files contents lineless linelessToo
  | other value => exact .refl _ _

/-- Documents that differ in nothing but lines have the same problems, and their pipelines differ in
nothing but the lines of jobs and steps, and those in the values of environments and of
arguments. -/
theorem pipelines_differ_in_lines_only {first second : Document} {resolve other : Resolver}
    (platform : first.platform = second.platform) (path : first.path = second.path)
    (contents : LoadAlike first.content second.content) (files : FilesAlike resolve other)
    (lineless : first.ShowsNoLine resolve) (linelessToo : second.ShowsNoLine other) :
    noted (first.pipeline resolve) = noted (second.pipeline other) ∧
      Pipeline.unlined <$> outcome (first.pipeline resolve) =
        Pipeline.unlined <$> outcome (second.pipeline other) := by
  have same := pipeline_sameUnder platform path contents files lineless linelessToo
  exact ⟨same.noted_eq, same.outcome_eq⟩

/-! ## Documents of a few lines -/

def loadsAlike (first second : List UInt8) : Bool :=
  match Yaml.load first, Yaml.load second with
  | .ok values, .ok others =>
    Value.identicalItems (values.map Value.unlined) (others.map Value.unlined)
  | _, _ => false

theorem loadAlike_of_check {first second : List UInt8} (alike : loadsAlike first second = true) :
    LoadAlike first second := by
  unfold loadsAlike at alike
  unfold LoadAlike unlinedDocuments
  split at alike
  · next values others loads loadsToo =>
    rw [loads, loadsToo]
    exact congrArg Except.ok (Value.eq_of_identicalItems alike)
  · cases alike

def isPlainWorkflow (path : String) (content : List UInt8) : Bool :=
  match Github.entriesOf path content with
  | .ok (some raw) =>
    !Github.isActionMetadata path && (Github.targets raw).isEmpty &&
      decide (AllLineless (Github.workflowValues raw) ∧ AllLineless (Github.workflowKept raw))
  | _ => false

theorem showsNoLine_of_plain {document : Document} (workflow : document.platform = .github)
    (plain : isPlainWorkflow document.path document.content = true) (resolve : Resolver) :
    document.ShowsNoLine resolve := by
  unfold ShowsNoLine
  rw [workflow]
  intro raw loaded
  rw [isPlainWorkflow, loaded] at plain
  simp only [Bool.and_eq_true, Bool.not_eq_true', List.isEmpty_iff, decide_eq_true_eq] at plain
  obtain ⟨⟨isWorkflow, noCalls⟩, lineless⟩ := plain
  rw [Github.EntriesLineless, if_neg (by simp [isWorkflow])]
  intro last reached
  rcases Relation.ReflTransGen.cases_head reached with rfl | ⟨next, ⟨target, tries, -⟩, -⟩
  · exact lineless
  · have calls := tries.1
    rw [← Github.refers_targets, Refers, noCalls] at calls
    cases calls

def workflowText : String :=
  "on: push\njobs:\n a:\n  runs-on: l\n  env: {k: {v: w}}\n  steps:\n  - run: b\n"

def workflowDocument : Document :=
  ofText .github "w.yml" workflowText

def commentedWorkflow : Document :=
  ofText .github "w.yml" ("# c\n\n" ++ workflowText)

def linesOf (pipeline : Pipeline) : List (Option Int) :=
  pipeline.jobs.values.flatMap fun job =>
    job.line :: job.steps.map (·.line) ++ job.env.values.map Field.line

theorem comment_moves_lines_only :
    ((outcome (workflowDocument.pipeline Source.none)).toOption.map linesOf =
        some [some 4, some 7, some 5] ∧
      (outcome (commentedWorkflow.pipeline Source.none)).toOption.map linesOf =
        some [some 6, some 9, some 7]) ∧
    noted (workflowDocument.pipeline Source.none) = noted (commentedWorkflow.pipeline Source.none) ∧
    Pipeline.unlined <$> outcome (workflowDocument.pipeline Source.none) =
      Pipeline.unlined <$> outcome (commentedWorkflow.pipeline Source.none) := by
  refine ⟨by decide +kernel, ?_⟩
  have contents : LoadAlike workflowDocument.content commentedWorkflow.content :=
    loadAlike_of_check (by decide +kernel)
  exact pipelines_differ_in_lines_only rfl rfl contents (.refl _)
    (showsNoLine_of_plain rfl (by decide +kernel) _)
    (showsNoLine_of_plain rfl (by decide +kernel) _)

def scriptDocument : Document :=
  ofText .gitlab "a.yml" "x:\n script:\n  - a: b\n"

def commentedScript : Document :=
  ofText .gitlab "a.yml" "# c\nx:\n script:\n  - a: b\n"

def scripts (pipeline : Pipeline) : List String :=
  pipeline.jobs.values.flatMap fun job => job.steps.filterMap fun step =>
    match step.action with
    | .run (.text script) _ => some script
    | _ => none

/-- A mapping in a script is run as its text, line and all, so that a comment changes what is
run. -/
theorem script_shows_line :
    LoadAlike scriptDocument.content commentedScript.content ∧
      (outcome (scriptDocument.pipeline Source.none)).toOption.map scripts =
        some ["\x7b'a': 'b', '__line__': 3\x7d"] ∧
      (outcome (commentedScript.pipeline Source.none)).toOption.map scripts =
        some ["\x7b'a': 'b', '__line__': 4\x7d"] :=
  ⟨loadAlike_of_check (by decide +kernel), by decide +kernel, by decide +kernel⟩

end SupplyLint.Document
