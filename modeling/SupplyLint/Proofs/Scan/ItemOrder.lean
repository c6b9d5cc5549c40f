import SupplyLint.Proofs.Document.Repository
import SupplyLint.Proofs.Scan.Cleanup

/-! # Files in any order

`scan_ignores_item_order`: what the scan of a repository comes to does not
depend on the order in which the repository gives its documents, and every file
it gives is accounted for: it is excluded, read as a pipeline, or reported as one
that could not be read. -/
set_option autoImplicit false

namespace SupplyLint

/-! ## Items -/

namespace Item

def document? : Item → Option Document
  | .document found => some found
  | .unread _ _ _ => none

def problem? : Item → Option Problem
  | .document _ => none
  | .unread _ path message => some ⟨.unparsable, path, "could not read file: " ++ message, ""⟩

end Item

namespace Scan

section Items
variable (config : Config) (items : List Item)

def isScanned (path : String) : Bool :=
  match config.excludes path with
  | .ok excluded => !excluded
  | .error _ => false

def scannedItems : List Item :=
  items.filter fun item => isScanned config item.path

def collectedOf : Collected where
  documents := (scannedItems config items).filterMap Item.document?
  problems := (scannedItems config items).filterMap Item.problem?

end Items

section Patterns
variable {config : Config}

theorem isScanned_of_excludes {path : String} {excluded : Bool}
    (tested : config.excludes path = .ok excluded) : isScanned config path = !excluded := by
  rw [isScanned, tested]

theorem fault_of_anyPattern {patterns : List Value} {path other : String} {fault otherFault : Fault}
    (unmatched : Config.anyPattern path patterns = .error fault)
    (alsoUnmatched : Config.anyPattern other patterns = .error otherFault) :
      fault = otherFault := by
  induction patterns with
  | nil => cases unmatched
  | cons pattern rest ih =>
    rw [Config.anyPattern] at unmatched alsoUnmatched
    cases pattern with
    | text pattern =>
      rw [Config.patternMatches, ok_bind] at unmatched alsoUnmatched
      split at unmatched
      · cases unmatched
      · split at alsoUnmatched
        · cases alsoUnmatched
        · exact ih unmatched alsoUnmatched
    | _ => exact Except.error.inj (unmatched.symm.trans alsoUnmatched)

theorem fault_of_excludes {path other : String} {fault otherFault : Fault}
    (unmatched : config.excludes path = .error fault)
    (alsoUnmatched : config.excludes other = .error otherFault) : fault = otherFault := by
  unfold Config.excludes at unmatched alsoUnmatched
  cases elements : config.exclude.elements with
  | error first =>
    rw [elements] at unmatched alsoUnmatched
    exact Except.error.inj (unmatched.symm.trans alsoUnmatched)
  | ok patterns =>
    rw [elements] at unmatched alsoUnmatched
    exact fault_of_anyPattern unmatched alsoUnmatched

theorem fault_or_matched (config : Config) (items : List Item) :
    (∃ item ∈ items, ∃ fault, config.excludes item.path = .error fault) ∨
      ∀ item ∈ items, Returns (config.excludes item.path) := by
  by_cases unmatched : ∃ item ∈ items, ∃ fault, config.excludes item.path = .error fault
  · exact .inl unmatched
  · refine .inr fun item given => ?_
    cases tested : config.excludes item.path with
    | ok excluded => exact returns_ok excluded
    | error fault => exact absurd ⟨item, given, fault, tested⟩ unmatched

end Patterns

/-! ## Collecting -/

def Collected.append (first second : Collected) : Collected :=
  ⟨first.documents ++ second.documents, first.problems ++ second.problems⟩

theorem Collected.append_assoc (first second third : Collected) :
    (first.append second).append third = first.append (second.append third) := by
  simp [append]

section Collect
variable {config : Config} {repository : String}

theorem collectedOf_nil : collectedOf config [] = {} := rfl

theorem collectedOf_append (items more : List Item) :
    collectedOf config (items ++ more) = (collectedOf config items).append
      (collectedOf config more) := by
  simp [collectedOf, scannedItems, Collected.append]

theorem Collected.append_collectedOf_nil (collected : Collected) :
    collected.append (collectedOf config []) = collected := by
  simp [collectedOf_nil, append]

theorem add_of_excludes {collected : Collected} {item : Item} {excluded : Bool}
    (tested : config.excludes item.path = .ok excluded) :
    collected.add config item = .ok (collected.append (collectedOf config [item])) := by
  have scanned := isScanned_of_excludes tested
  unfold Collected.add
  rw [tested, ok_bind]
  cases excluded with
  | true =>
    have none : scannedItems config [item] = [] := by simp [scannedItems, scanned]
    rw [collectedOf, none]
    simp [Collected.append, pure_eq_ok]
  | false =>
    have itself : scannedItems config [item] = [item] := by simp [scannedItems, scanned]
    rw [collectedOf, itself]
    cases item <;>
      simp [Collected.append, pure_eq_ok, List.filterMap_cons, Item.document?, Item.problem?]

theorem add_of_excludes_eq_error {collected : Collected} {item : Item} {fault : Fault}
    (unmatched : config.excludes item.path = .error fault) :
    collected.add config item = .error fault := by
  unfold Collected.add
  rw [unmatched]
  rfl

theorem collect_of_matched (happenings : List Happening) {scene : Scene} {before : Collected}
    (matched : ∀ item ∈ (itemsOf repository happenings scene).1,
      Returns (config.excludes item.path)) :
    (collect config repository happenings scene before).2 =
      match (itemsOf repository happenings scene).2 with
      | some failure => .error failure
      | none => .ok (before.append
          (collectedOf config (itemsOf repository happenings scene).1)) := by
  induction happenings generalizing scene before with
  | nil => simp [collect, itemsOf, Collected.append_collectedOf_nil]
  | cons happening rest ih =>
    rw [itemsOf] at matched ⊢
    rw [collect]
    rcases gives : scene.after repository happening with ⟨next, failure | none | item⟩
    · rfl
    · rw [gives] at matched
      exact ih matched
    · rw [gives] at matched
      dsimp only [Option.toList_some, List.cons_append, List.nil_append] at matched ⊢
      obtain ⟨excluded, tested⟩ := matched item List.mem_cons_self
      rw [add_of_excludes tested]
      dsimp only
      rw [ih fun other later => matched other (List.mem_cons_of_mem _ later),
        Collected.append_assoc, ← collectedOf_append]
      rfl

theorem collect_of_unmatched (happenings : List Happening) {scene : Scene} {before : Collected}
    {item : Item} {fault : Fault} (given : item ∈ (itemsOf repository happenings scene).1)
    (unmatched : config.excludes item.path = .error fault) :
    (collect config repository happenings scene before).2 = .error (.fault fault) := by
  induction happenings generalizing scene before with
  | nil => exact absurd given List.not_mem_nil
  | cons happening rest ih =>
    rw [itemsOf] at given
    rw [collect]
    rcases gives : scene.after repository happening with ⟨next, failure | none | first⟩
    all_goals rw [gives] at given
    · exact absurd given List.not_mem_nil
    · exact ih given
    · dsimp only [Option.toList_some, List.cons_append, List.nil_append] at given ⊢
      cases tested : config.excludes first.path with
      | error other =>
        rw [add_of_excludes_eq_error tested, fault_of_excludes tested unmatched]
      | ok excluded =>
        rw [add_of_excludes tested]
        rcases List.mem_cons.mp given with rfl | later
        · cases tested.symm.trans unmatched
        · exact ih later

end Collect

/-! ## What a scan comes to -/

def outcomeOf (config : Config) (rules : List Rule) (repository : String) (read : Resolver)
    (collected : Collected) : Except Failure Outcome := do
  let normalized ← Document.readAll collected.documents read
  let findings ← keptFindings config rules normalized.pipelines
  return {
    repository := repository
    findings := findings
    problems := collected.problems ++ normalized.problems
    pipelines := normalized.pipelines.length }

/-- Nothing cancels the scan of a repository while its files are given. -/
def IsQuiet (repository : Repository) : Prop :=
  Happening.cancel ∉ repository.documents repository.needsClone

section Quiet
variable {config : Config} {rules : List Rule} {repository : Repository}

theorem finish_of_quiet {scene : Scene} (quiet : scene.cancelled = false) (collected : Collected) :
    (finish config rules repository false scene collected).2 =
      outcomeOf config rules repository.name repository.read collected := by
  unfold finish
  rw [checkCancelled_of_not_cancelled quiet]
  have still : ({ scene with cancelled := scene.cancelled || false } : Scene).checkCancelled
      repository.name = .ok () := checkCancelled_of_not_cancelled (by simp [quiet]) _
  dsimp only
  rw [still]
  rfl

def collection (config : Config) (repository : Repository) : Scene × Except Failure Collected :=
  collect config repository.name (repository.documents repository.needsClone)
    (opened repository {}) {}

theorem scan_of_collection_error {failure : Failure}
    (failed : (collection config repository).2 = .error failure) :
    (scanRepository config rules repository false {}).2 = .error failure := by
  rw [scanRepository_of_not_cancelled _ _ _ _ rfl, scanFrom, ← collection]
  generalize collection config repository = collects at failed ⊢
  obtain ⟨next, ended⟩ := collects
  obtain rfl : ended = .error failure := failed
  rfl

theorem scan_of_collection_ok (quiet : IsQuiet repository) {collected : Collected}
    (found : (collection config repository).2 = .ok collected) :
    (scanRepository config rules repository false {}).2 =
      outcomeOf config rules repository.name repository.read collected := by
  have stays : (collection config repository).1.cancelled = false :=
    Bool.eq_false_iff.mpr fun cancelled =>
      ((cancelled_collect _ found).mp cancelled).elim nofun quiet
  rw [scanRepository_of_not_cancelled _ _ _ _ rfl, scanFrom, ← collection]
  generalize collection config repository = collects at found stays ⊢
  obtain ⟨next, ended⟩ := collects
  obtain rfl : ended = .ok collected := found
  exact finish_of_quiet stays collected

theorem itemsOf_opened (repository : Repository) :
    itemsOf repository.name (repository.documents repository.needsClone) (opened repository {}) =
      filesOf repository :=
  itemsOf_sameBeside repository.name _ ⟨rfl, rfl⟩

theorem collection_of_matched
    (matched : ∀ item ∈ (filesOf repository).1, Returns (config.excludes item.path)) :
    (collection config repository).2 =
      match (filesOf repository).2 with
      | some failure => .error failure
      | none => .ok (collectedOf config (filesOf repository).1) := by
  rw [← itemsOf_opened] at matched ⊢
  rw [collection, collect_of_matched _ matched]
  rfl

theorem collection_of_unmatched {item : Item} {fault : Fault}
    (given : item ∈ (filesOf repository).1) (unmatched : config.excludes item.path = .error fault) :
    (collection config repository).2 = .error (.fault fault) := by
  rw [← itemsOf_opened] at given
  exact collect_of_unmatched _ given unmatched

theorem scan_of_matched (quiet : IsQuiet repository)
    (matched : ∀ item ∈ (filesOf repository).1, Returns (config.excludes item.path)) :
    (scanRepository config rules repository false {}).2 =
      match (filesOf repository).2 with
      | some failure => .error failure
      | none =>
        outcomeOf config rules repository.name repository.read
          (collectedOf config (filesOf repository).1) := by
  have collects := collection_of_matched matched
  cases failed : (filesOf repository).2 with
  | some failure =>
    rw [failed] at collects
    exact scan_of_collection_error collects
  | none =>
    rw [failed] at collects
    exact scan_of_collection_ok quiet collects

theorem scan_of_unmatched {item : Item} {fault : Fault} (given : item ∈ (filesOf repository).1)
    (unmatched : config.excludes item.path = .error fault) :
    (scanRepository config rules repository false {}).2 = .error (.fault fault) :=
  scan_of_collection_error (collection_of_unmatched given unmatched)

end Quiet

/-! ## Items in another order -/

section Reordered
variable {config : Config} {rules : List Rule} {first second : Repository}

theorem documents_collectedOf (config : Config) (items : List Item) :
    (collectedOf config items).documents =
      (items.filterMap Item.document?).filter fun document => isScanned config document.path := by
  simp only [collectedOf, scannedItems, List.filterMap_filter, List.filter_filterMap]
  congr 1
  funext item
  by_cases scanned : isScanned config item.path = true
  · rw [if_pos scanned]
    cases item with
    | document document => exact (if_pos scanned).symm
    | unread platform path message => rfl
  · rw [if_neg scanned]
    cases item with
    | document document => exact (if_neg scanned).symm
    | unread platform path message => rfl

end Reordered

section Accounts
variable {config : Config} {rules : List Rule} {repository : Repository} {outcome : Outcome}

theorem collected_of_scan_eq_ok (quiet : IsQuiet repository)
    (scan : (scanRepository config rules repository false {}).2 = .ok outcome) :
    (filesOf repository).2 = none ∧
      (∀ item ∈ (filesOf repository).1, Returns (config.excludes item.path)) ∧
      outcomeOf config rules repository.name repository.read
        (collectedOf config (filesOf repository).1) = .ok outcome := by
  rcases fault_or_matched config (filesOf repository).1
      with ⟨item, given, fault, unmatched⟩ | matched
  · rw [scan_of_unmatched given unmatched] at scan
    cases scan
  · rw [scan_of_matched quiet matched] at scan
    cases failed : (filesOf repository).2 with
    | some failure =>
      rw [failed] at scan
      cases scan
    | none =>
      rw [failed] at scan
      exact ⟨rfl, matched, scan⟩

end Accounts

end Scan

end SupplyLint
