import Mathlib.Logic.Relation
import SupplyLint.Proofs.Outcome

/-! # Files that are opened one from another

A file refers to others, and each of these is opened unless it is in the chain
of files through which it is reached, or the chain is as long as a chain may be.
What holds of the reading of a file when it holds of the file itself and of the
readings of those that it opens holds of all files that are reached. -/
set_option autoImplicit false

namespace SupplyLint

/-- Nothing goes wrong with a content but that it may be no YAML. -/
def Loads (content : List UInt8) : Prop :=
  ∀ fault, Yaml.load content ≠ .error (.fault fault)

instance (content : List UInt8) : Decidable (Loads content) :=
  match loaded : Yaml.load content with
  | .ok _ => isTrue fun fault failed => by cases loaded.symm.trans failed
  | .error .malformed => isTrue fun fault failed => by cases loaded.symm.trans failed
  | .error (.fault fault) => isFalse fun loads => loads fault loaded

/-- A file is looked up in the repository, and what is found loads. -/
def FileLoads (resolve : Resolver) (target : String) : Prop :=
  ∃ found, resolve target = .ok found ∧ ∀ content ∈ found, Loads content

theorem returns_documents (path : String) (content : List UInt8) :
    Returns (outcome (Source.documents path content)) ↔ Loads content := by
  unfold Source.documents Loads
  cases Yaml.load content with
  | ok values => simp
  | error failure => cases failure <;> simp

theorem returns_lookup {resolve : Resolver} {target : String}
    {read : List UInt8 → Except Failure (Option Entries)}
    (reads : ∀ content, Returns (read content) ↔ Loads content) :
    Returns (do
      match ← resolve target with
      | none => return none
      | some content => read content) ↔ FileLoads resolve target := by
  rw [returns_bind]
  refine exists_congr fun found => and_congr_right fun _ => ?_
  cases found with
  | none => simp
  | some content => simpa using reads content

theorem lookup_eq_some {resolve : Resolver} {target : String}
    {read : List UInt8 → Except Failure (Option Entries)} {raw : Entries}
    (found : (do
      match ← resolve target with
      | none => return none
      | some content => read content) = .ok (some raw)) :
    ∃ content, resolve target = .ok (some content) ∧ read content = .ok (some raw) := by
  obtain ⟨content?, looked, found⟩ := bind_eq_ok.mp found
  cases content? with
  | none => cases found
  | some content => exact ⟨content, looked, found⟩

/-- A file with the chain of files through which it is reached, itself the last of them. -/
structure File where
  chain : List String
  entries : Entries

theorem forall_reached_iff {α : Type} {step : α → α → Prop} {holds : α → Prop} {start : α} :
    (∀ last, Relation.ReflTransGen step start last → holds last) ↔
      holds start ∧ ∀ next, step start next →
        ∀ last, Relation.ReflTransGen step next last → holds last := by
  constructor
  · intro all
    exact ⟨all start .refl, fun next first last reached => all last (.head first reached)⟩
  · rintro ⟨here, later⟩ last reached
    rcases Relation.ReflTransGen.cases_head reached with rfl | ⟨next, first, rest⟩
    · exact here
    · exact later next first last rest

section Files
variable (refers : Entries → String → Prop)
variable (opened : String → Except Failure (Option Entries))

def Tries (file : File) (target : String) : Prop :=
  refers file.entries target ∧ target ∉ file.chain ∧ file.chain.length < maxFiles

def Opens (file next : File) : Prop :=
  ∃ target, Tries refers file target ∧ opened target = .ok (some next.entries) ∧
    next.chain = file.chain ++ [target]

variable {refers opened}

theorem reads_iff_reached (reads : Nat → List String → String → Entries → Prop)
    {own : File → Prop}
    (step : ∀ (file : File) (path : String),
      reads (maxFiles - file.chain.length) file.chain path file.entries ↔
        own file ∧ ∀ target, Tries refers file target →
        ∀ called, opened target = .ok (some called) →
          reads (maxFiles - file.chain.length - 1) (file.chain ++ [target]) target called)
    (file : File) (path : String) :
    reads (maxFiles - file.chain.length) file.chain path file.entries ↔
      ∀ next, Relation.ReflTransGen (Opens refers opened) file next → own next := by
  induction room : maxFiles - file.chain.length generalizing file path with
  | zero =>
    rw [← room, step, forall_reached_iff]
    have last : ¬ file.chain.length < maxFiles := by omega
    refine and_congr_right fun _ => iff_of_true ?_ ?_
    · exact fun target tries => absurd tries.2.2 last
    · rintro next ⟨target, tries, -⟩
      exact absurd tries.2.2 last
  | succ fewer ih =>
    have below (target : String) (called : Entries) :
        reads fewer (file.chain ++ [target]) target called ↔
          ∀ next, Relation.ReflTransGen (Opens refers opened)
            ⟨file.chain ++ [target], called⟩ next →
            own next := by
      apply ih ⟨file.chain ++ [target], called⟩
      rw [List.length_append, List.length_singleton]
      omega
    rw [← room, step, room, Nat.add_sub_cancel, forall_reached_iff]
    refine and_congr_right fun _ => ?_
    constructor
    · rintro later ⟨chain, entries⟩ ⟨target, tries, found, rfl⟩
      exact (below target entries).mp (later target tries entries found)
    · intro later target tries called found
      exact (below target called).mpr (later _ ⟨target, tries, found, rfl⟩)

end Files

end SupplyLint
