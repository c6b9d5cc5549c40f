import Mathlib.Data.List.DropRight
import SupplyLint.Gitlab.Include
import SupplyLint.Proofs.Files
import SupplyLint.Proofs.Merge
import SupplyLint.Proofs.Value.Text

/-! # Which includes can be read

The files that a configuration includes are merged into it, and the files that
these include. That gives a result exactly when the place of every include on
the way has a text and every file that is opened is loaded. What holds of the
entries of every included file, and is kept when these are merged, holds of the
entries that a configuration comes to (`mergeList_keeps`). -/
set_option autoImplicit false

namespace SupplyLint.Gitlab

open SupplyLint.Text
open SupplyLint.Value (AllShort allShort_nil allShort_singleton)

def elsewhereValue (entries : Entries) : Value :=
  match ["remote", "template", "artifact"].find? (Value.hasField entries) with
  | some kind => Value.field entries kind
  | none => .map (Field.entries (.map entries))

def includeValues : Value → List Value
  | .map entries =>
    if Value.hasField entries "local" then [Value.field entries "local"]
    else if Value.hasField entries "project" then [Value.field entries "project"]
    else if Value.hasField entries "component" then [Value.field entries "component"]
    else [elsewhereValue entries]
  | _ => []

theorem returns_elsewhereText (entries : Entries) :
    Returns (Include.elsewhereText entries) ↔ (elsewhereValue entries).isShort = true := by
  unfold Include.elsewhereText elsewhereValue
  cases ["remote", "template", "artifact"].find? (Value.hasField entries) with
  | some kind => exact (returns_bind_pure _ _).trans (Value.returns_toText _)
  | none => exact (returns_bind_pure _ _).trans (Value.returns_toText _)

theorem returns_ofValue (item : Value) :
    Returns (Include.ofValue item) ↔ AllShort (includeValues item) := by
  cases item with
  | text target =>
    refine iff_of_true ?_ allShort_nil
    simp only [Include.ofValue]
    split
    · exact returns_ok _
    · exact returns_ok _
  | map entries =>
    simp only [Include.ofValue, Include.ofEntries, includeValues]
    split
    · rw [returns_except_map, Value.returns_toText, allShort_singleton]
    · split
      · rw [returns_bind_pure, Value.returns_toText, allShort_singleton]
      · split
        · rw [returns_except_map, Value.returns_toText, allShort_singleton]
        · rw [returns_except_map, returns_elsewhereText, allShort_singleton]
  | _ => exact iff_of_true (returns_ok _) allShort_nil

def includeItems (raw : Entries) : List Value :=
  match Value.field raw "include" with
  | .null => []
  | field => field.asList

def ItemReads (enter : String → Normalizing (Option Merged)) (item : Value) : Prop :=
  AllShort (includeValues item) ∧
    ∀ written, Include.ofValue item = .ok (.file written) → Returns (outcome (enter written))

section Lists
variable (enter : String → Normalizing (Option Merged)) (path : String)

theorem returns_mergeList (items : List Value) (merged : Merged) :
    Returns (outcome (mergeList enter path items merged)) ↔
      ∀ item ∈ items, ItemReads enter item := by
  induction items generalizing merged with
  | nil => exact iff_of_true (returns_ok _) (by simp)
  | cons item rest ih =>
    rw [List.forall_mem_cons, ItemReads, ← returns_ofValue, ← returns_uncaught, and_assoc]
    simp only [mergeList, outcome_bind, outcome_fault]
    refine returns_bind_iff fun what found => ?_
    rw [uncaught_eq_ok.mp found]
    cases what with
    | file written =>
      simp only [outcome_bind, Except.ok.injEq, Include.file.injEq, forall_eq']
      refine returns_bind_iff fun file _ => ?_
      cases file with
      | none => exact ih _
      | some file => exact ih _
    | package ref => simpa using ih _
    | elsewhere what =>
      rw [outcome_bind, elsewhereInclude, outcome_noted]
      simpa using ih merged
    | malformed =>
      rw [outcome_bind, malformedInclude, outcome_noted]
      simpa using ih merged

theorem returns_mergeWith (raw : Entries) :
    Returns (outcome (mergeWith enter path raw)) ↔
      ∀ item ∈ includeItems raw, ItemReads enter item := by
  have listed (field : Value) : Returns (outcome (do
      let merged ← mergeList enter path field.asList ⟨[], []⟩
      let body := Keyed.erase raw (.text "include")
      return { merged with entries := Field.merge merged.entries body })) ↔
        ∀ item ∈ field.asList, ItemReads enter item := by
    rw [outcome_bind, returns_bind_of_forall, returns_mergeList]
    exact fun _ _ => returns_ok _
  unfold mergeWith includeItems
  cases Value.field raw "include" with
  | null => exact iff_of_true (returns_ok _) (by simp)
  | _ => exact listed _

end Lists

/-! ## Opened files -/

/-- The path that an include names, without what stands for the root. -/
def stripped (written : String) : String :=
  String.ofList (written.toList.dropWhile (· = '/'))

theorem stripped_stripped (written : String) : stripped (stripped written) = stripped written := by
  unfold stripped
  rw [String.toList_ofList, List.dropWhile_idempotent]

def opened (resolve : Resolver) (target : String) : Except Failure (Option Entries) := do
  match ← resolve target with
  | none => return none
  | some content => outcome (configuration target content)

def Includes (raw : Entries) (target : String) : Prop :=
  ∃ item ∈ includeItems raw, ∃ written, Include.ofValue item = .ok (.file written) ∧
    stripped written = target ∧ ¬ contains target "*" = true

/-- What keeps the includes of no configuration from being read: each of them has a text, and the
files that are opened for them are loaded. -/
structure IncludesReadable (resolve : Resolver) (file : File) : Prop where
  values : AllShort ((includeItems file.entries).flatMap includeValues)
  loads : ∀ target, Tries Includes file target → FileLoads resolve target

theorem returns_configuration (path : String) (content : List UInt8) :
    Returns (outcome (configuration path content)) ↔ Loads content := by
  unfold configuration
  rw [outcome_bind, returns_bind_of_forall, returns_documents]
  intro values _
  cases values with
  | none => exact returns_ok _
  | some values => exact returns_ok _

theorem returns_opened (resolve : Resolver) (target : String) :
    Returns (opened resolve target) ↔ FileLoads resolve target :=
  returns_lookup (returns_configuration target)

/-- How files are merged when a number of them may still be opened. -/
def mergingWithin (resolve : Resolver) (path : String) : Nat → Option Merging
  | 0 => none
  | room + 1 => some (merge resolve path room)

section Files
variable (resolve : Resolver) (path : String)

theorem merge_eq (room : Nat) (chain : List String) (raw : Entries) :
    merge resolve path room chain raw =
      mergeWith (enterWith resolve path (mergingWithin resolve path room) chain) path raw := by
  cases room with
  | zero => rfl
  | succ room => rfl

theorem enter_eq (chain : List String) (written : String) :
    enter resolve path chain written =
      enterWith resolve path (mergingWithin resolve path (maxFiles - chain.length)) chain
        written := by
  unfold enter
  split
  · next none => rw [none, mergingWithin]
  · next room some => rw [some, mergingWithin]

theorem enterWith_stripped (merging : Option Merging) (chain : List String) (written : String) :
    enterWith resolve path merging chain (stripped written) =
      enterWith resolve path merging chain written := by
  have same := stripped_stripped written
  unfold stripped at same
  unfold enterWith
  simp only [stripped, same]

theorem enterWith_of_wildcard {chain : List String} {written : String}
    (wildcard : contains (stripped written) "*" = true) (merging : Option Merging) :
    enterWith resolve path merging chain written = (do
      noteInclude path "include" ("wildcard include '" ++ stripped written ++ "' is not supported")
      return none) :=
  if_pos wildcard

theorem enterWith_of_refused {chain : List String} {written : String} {merging : Option Merging}
    (plain : ¬ contains (stripped written) "*" = true)
    (refused : stripped written ∈ chain ∨ merging = none) :
    enterWith resolve path merging chain written = (do
      noteInclude path "include"
        ("include '" ++ stripped written ++ "' is recursive or nested too deeply")
      return none) := by
  refine (if_neg plain).trans ?_
  rcases refused with inside | rfl
  · have inChain : chain.contains (stripped written) = true := by simpa using inside
    unfold stripped at inChain
    rw [inChain]
    cases merging <;> rfl
  · rfl

theorem enterWith_of_some {chain : List String} {written : String}
    (plain : ¬ contains (stripped written) "*" = true) (outside : stripped written ∉ chain)
    (merge : Merging) :
    enterWith resolve path (some merge) chain written = (do
      match ← resolve (stripped written) with
      | none =>
        noteInclude path "include" ("included file '" ++ stripped written ++ "' not found")
        return none
      | some content =>
        match ← configuration (stripped written) content with
        | none => return none
        | some raw => some <$> merge (chain ++ [stripped written]) raw) := by
  have notInChain : chain.contains (stripped written) = false := by simpa using outside
  refine (if_neg plain).trans ?_
  unfold stripped at notInChain
  rw [notInChain]
  rfl

theorem outcome_enterWith_refused {chain : List String} {written : String}
    (refused : contains (stripped written) "*" = true ∨ stripped written ∈ chain)
    (merging : Option Merging) :
    outcome (enterWith resolve path merging chain written) = .ok none := by
  by_cases wildcard : contains (stripped written) "*" = true
  · rw [enterWith_of_wildcard resolve path wildcard]
    rfl
  · rw [enterWith_of_refused resolve path wildcard (Or.inl (refused.resolve_left wildcard))]
    rfl

theorem outcome_enterWith_none (chain : List String) (written : String) :
    outcome (enterWith resolve path none chain written) = .ok none := by
  by_cases wildcard : contains (stripped written) "*" = true
  · exact outcome_enterWith_refused resolve path (Or.inl wildcard) none
  · rw [enterWith_of_refused resolve path wildcard (Or.inr rfl)]
    rfl

theorem outcome_enterWith_some {chain : List String} {written : String}
    (plain : ¬ contains (stripped written) "*" = true) (outside : stripped written ∉ chain)
    (merge : Merging) :
    outcome (enterWith resolve path (some merge) chain written) =
      opened resolve (stripped written) >>= fun found => match found with
        | none => .ok none
        | some raw => some <$> outcome (merge (chain ++ [stripped written]) raw) := by
  rw [enterWith_of_some resolve path plain outside, outcome_bind,
    outcome_failure, opened, bind_assoc]
  congr 1
  funext content
  cases content with
  | none => rfl
  | some content =>
    rw [outcome_bind]
    congr 1
    funext found
    cases found with
    | none => rfl
    | some raw => exact outcome_map _ _

theorem returns_enterWith (room : Nat) (chain : List String) (written : String) :
    Returns (outcome (enterWith resolve path (mergingWithin resolve path room) chain written)) ↔
      (¬ contains (stripped written) "*" = true → stripped written ∉ chain → 0 < room →
        FileLoads resolve (stripped written) ∧
        ∀ raw, opened resolve (stripped written) = .ok (some raw) →
          Returns (outcome (merge resolve path (room - 1) (chain ++ [stripped written]) raw))) := by
  by_cases refused : contains (stripped written) "*" = true ∨ stripped written ∈ chain
  · rw [outcome_enterWith_refused resolve path refused]
    refine iff_of_true (returns_ok _) fun plain outside => ?_
    exact absurd refused (not_or.mpr ⟨plain, outside⟩)
  · obtain ⟨plain, outside⟩ := not_or.mp refused
    cases room with
    | zero =>
      rw [mergingWithin, outcome_enterWith_none]
      exact iff_of_true (returns_ok _) fun _ _ none => absurd none (Nat.lt_irrefl 0)
    | succ room =>
      rw [mergingWithin, outcome_enterWith_some resolve path plain outside, returns_bind_and,
        returns_opened]
      simp only [plain, Bool.false_eq_true, outside, not_false_eq_true, Nat.zero_lt_succ,
        forall_const, Nat.add_sub_cancel]
      refine and_congr_right fun _ => ?_
      constructor
      · intro later raw opens
        exact (returns_map _ _).mp (later (some raw) opens)
      · intro later found opens
        cases found with
        | none => exact returns_ok _
        | some raw => exact (returns_map _ _).mpr (later raw opens)

theorem returns_merge (file : File) :
    Returns (outcome (merge resolve path (maxFiles - file.chain.length) file.chain file.entries)) ↔
      ∀ next, Relation.ReflTransGen (Opens Includes (opened resolve)) file next →
        IncludesReadable resolve next := by
  refine reads_iff_reached (fun room chain _ raw =>
    Returns (outcome (merge resolve path room chain raw))) ?_ file path
  intro file _
  rw [merge_eq, returns_mergeWith]
  constructor
  · intro all
    have follows (target : String) (tries : Tries Includes file target) :
        FileLoads resolve target ∧ ∀ called, opened resolve target = .ok (some called) →
          Returns (outcome (merge resolve path (maxFiles - file.chain.length - 1)
            (file.chain ++ [target]) called)) := by
      obtain ⟨⟨item, member, written, found, rfl, plain⟩, outside, room⟩ := tries
      have enters := (all item member).2 written found
      exact (returns_enterWith resolve path _ _ _).mp enters plain outside (Nat.sub_pos_of_lt room)
    refine ⟨⟨fun value inside => ?_, fun target tries => (follows target tries).1⟩,
      fun target tries => (follows target tries).2⟩
    obtain ⟨item, member, inside⟩ := List.mem_flatMap.mp inside
    exact (all item member).1 value inside
  · rintro ⟨⟨values, loads⟩, later⟩ item member
    refine ⟨fun value inside => values value (List.mem_flatMap.mpr ⟨item, member, inside⟩), ?_⟩
    intro written found
    rw [returns_enterWith]
    intro plain outside room
    have tries : Tries Includes file (stripped written) :=
      ⟨⟨item, member, written, found, rfl, plain⟩, outside, Nat.lt_of_sub_pos room⟩
    exact ⟨loads _ tries, fun called same => later _ tries called same⟩

end Files

section Merging
variable {enter : String → Normalizing (Option Merged)} {path : String}

/-- What holds at first of what is merged, and still does with each file and each package that is
put to it, holds in the end. -/
theorem mergeList_holds (holds : Merged → Prop) (items : List Value) {merged result : Merged}
    (files : ∀ item ∈ items, ∀ written, Include.ofValue item = .ok (.file written) →
      ∀ file, outcome (enter written) = .ok (some file) → ∀ base : Merged, holds base →
        holds ⟨Field.merge base.entries file.entries, base.references ++ file.references⟩)
    (packages : ∀ item ∈ items, ∀ ref, Include.ofValue item = .ok (.package ref) →
      ∀ base : Merged, holds base →
        holds { base with references := base.references ++ ref.toList })
    (start : holds merged)
    (read : outcome (mergeList enter path items merged) = .ok result) : holds result := by
  induction items generalizing merged with
  | nil =>
    simp only [mergeList, outcome_pure, Except.ok.injEq] at read
    rwa [← read]
  | cons item rest ih =>
    obtain ⟨ownFile, laterFiles⟩ := List.forall_mem_cons.mp files
    obtain ⟨ownPackage, laterPackages⟩ := List.forall_mem_cons.mp packages
    simp only [mergeList, outcome_bind, bind_eq_ok, outcome_fault, uncaught_eq_ok] at read
    obtain ⟨what, found, read⟩ := read
    cases what with
    | file written =>
      simp only [outcome_bind, bind_eq_ok] at read
      obtain ⟨entered, opens, read⟩ := read
      cases entered with
      | none => exact ih laterFiles laterPackages start read
      | some file =>
        have next := ownFile written found file opens merged start
        exact ih laterFiles laterPackages next read
    | package ref =>
      have next := ownPackage ref found merged start
      exact ih laterFiles laterPackages next read
    | elsewhere what =>
      simp only [outcome_bind, elsewhereInclude, outcome_noted, ok_bind] at read
      exact ih laterFiles laterPackages start read
    | malformed =>
      simp only [outcome_bind, malformedInclude, outcome_noted, ok_bind] at read
      exact ih laterFiles laterPackages start read

/-- What holds of entries that files are merged into, one after another. -/
theorem mergeList_keeps {holds : Entries → Prop} (items : List Value) {merged result : Merged}
    (files : ∀ item ∈ items, ∀ written, Include.ofValue item = .ok (.file written) →
      ∀ file, outcome (enter written) = .ok (some file) →
        ∀ base, holds base → holds (Field.merge base file.entries))
    (start : holds merged.entries)
    (read : outcome (mergeList enter path items merged) = .ok result) : holds result.entries := by
  refine mergeList_holds (fun merged => holds merged.entries) items ?_ ?_ start read
  · intro item member written names file opens base kept
    exact files item member written names file opens base.entries kept
  · intro item _ ref _ base kept
    exact kept

theorem mergeWith_eq_ok {raw : Entries} {merged : Merged}
    (read : outcome (mergeWith enter path raw) = .ok merged) :
    Value.field raw "include" = .null ∧ merged = ⟨raw, []⟩ ∨
      ∃ included, outcome (mergeList enter path (includeItems raw) ⟨[], []⟩) = .ok included ∧
        merged = ⟨Field.merge included.entries (Keyed.erase raw (.text "include")),
          included.references⟩ := by
  unfold mergeWith at read
  unfold includeItems
  cases field : Value.field raw "include" with
  | null =>
    rw [field] at read
    exact Or.inl ⟨rfl, (Except.ok.inj read).symm⟩
  | _ =>
    rw [field] at read
    simp only [outcome_bind, bind_eq_ok, outcome_pure, Except.ok.injEq] at read
    obtain ⟨included, listed, rfl⟩ := read
    exact Or.inr ⟨included, listed, rfl⟩

end Merging

theorem distinct_of_merge {resolve : Resolver} {path : String} {room : Nat} {chain : List String}
    {raw : Entries} {merged : Merged} (distinct : Keyed.Distinct raw)
    (read : outcome (merge resolve path room chain raw) = .ok merged) :
    Keyed.Distinct merged.entries := by
  rw [merge_eq] at read
  rcases mergeWith_eq_ok read with ⟨-, rfl⟩ | ⟨included, listed, rfl⟩
  · exact distinct
  · have start : Keyed.Distinct (Merged.entries ⟨[], []⟩) := Keyed.distinct_nil
    refine Field.distinct_merge _ (mergeList_keeps _ ?_ start listed)
    exact fun _ _ _ _ file _ base kept => Field.distinct_merge file.entries kept

end SupplyLint.Gitlab
