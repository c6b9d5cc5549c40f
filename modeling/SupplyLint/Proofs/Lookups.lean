import Mathlib.Data.List.Nodup
import SupplyLint.Pipeline.Source
import SupplyLint.Proofs.Files

/-! # Which files are looked up

A file refers to others, which are looked up one after another, each together
with those that it refers to. No chain of files that comes about in this way
holds a file twice, and none is longer than a chain may be; so there is one list
of all that is ever looked up. -/
set_option autoImplicit false

namespace SupplyLint

/-- A file that is looked up, and the chain of files from which it is. -/
structure Lookup where
  chain : List String
  target : String

def Lookup.files (lookup : Lookup) : List String :=
  lookup.chain ++ [lookup.target]

/-- A chain that holds no file twice and is not longer than it may be. -/
structure IsChain (files : List String) : Prop where
  distinct : files.Nodup
  length : files.length ≤ maxFiles

def Agree (first second : Resolver) (lookups : List Lookup) : Prop :=
  ∀ lookup ∈ lookups, first lookup.target = second lookup.target

section Lookups
variable (targets : Entries → List String)
variable (opened : String → Except Failure (Option Entries))

/-- What is looked up for the files to which a file refers. -/
def lookups : Nat → List String → Entries → List Lookup
  | 0, _, _ => []
  | room + 1, chain, raw =>
    (targets raw).flatMap fun target =>
      if chain.contains target then []
      else ⟨chain, target⟩ :: match opened target with
        | .ok (some called) => lookups room (chain ++ [target]) called
        | _ => []

def Refers (raw : Entries) (target : String) : Prop :=
  target ∈ targets raw

variable {targets opened}

theorem lookups_of_refers {room : Nat} {chain : List String} {raw : Entries} {target : String}
    (refers : Refers targets raw target) (outside : target ∉ chain) {lookup : Lookup}
    (member : lookup = ⟨chain, target⟩ ∨ ∃ called, opened target = .ok (some called) ∧
      lookup ∈ lookups targets opened room (chain ++ [target]) called) :
    lookup ∈ lookups targets opened (room + 1) chain raw := by
  rw [lookups, List.mem_flatMap]
  refine ⟨target, refers, ?_⟩
  rw [if_neg (by simpa using outside)]
  rcases member with rfl | ⟨called, opens, later⟩
  · exact List.mem_cons_self
  · rw [opens]
    exact List.mem_cons_of_mem _ later

theorem Agree.refers {first second : Resolver} {room : Nat} {chain : List String} {raw : Entries}
    (agree : Agree first second (lookups targets opened (room + 1) chain raw)) {target : String}
    (refers : Refers targets raw target) (outside : target ∉ chain) :
    first target = second target ∧ ∀ called, opened target = .ok (some called) →
      Agree first second (lookups targets opened room (chain ++ [target]) called) :=
  ⟨agree ⟨chain, target⟩ (lookups_of_refers refers outside (.inl rfl)),
    fun called opens lookup member =>
      agree lookup (lookups_of_refers refers outside (.inr ⟨called, opens, member⟩))⟩

theorem forall_lookups_iff (holds : Lookup → Prop) (file : File) :
    (∀ lookup ∈ lookups targets opened (maxFiles - file.chain.length) file.chain file.entries,
        holds lookup) ↔
      ∀ next, Relation.ReflTransGen (Opens (Refers targets) opened) file next →
        ∀ target, Tries (Refers targets) next target → holds ⟨next.chain, target⟩ := by
  refine reads_iff_reached (fun room chain _ raw =>
    ∀ lookup ∈ lookups targets opened room chain raw, holds lookup) ?_ file ""
  intro file _
  constructor
  · intro all
    have below (target : String) (tries : Tries (Refers targets) file target) (lookup : Lookup)
        (member : lookup = ⟨file.chain, target⟩ ∨ ∃ called, opened target = .ok (some called) ∧
          lookup ∈ lookups targets opened (maxFiles - file.chain.length - 1)
            (file.chain ++ [target]) called) : holds lookup := by
      obtain ⟨refers, outside, room⟩ := tries
      obtain ⟨fewer, some⟩ := Nat.exists_eq_add_of_lt room
      have rooms : maxFiles - file.chain.length = fewer + 1 := by omega
      rw [rooms] at all member
      exact all lookup (lookups_of_refers refers outside member)
    exact ⟨fun target tries => below target tries _ (.inl rfl),
      fun target tries called opens lookup member =>
        below target tries lookup (.inr ⟨called, opens, member⟩)⟩
  · rintro ⟨own, later⟩ lookup member
    cases room : maxFiles - file.chain.length with
    | zero =>
      rw [room] at member
      cases member
    | succ fewer =>
      rw [room, lookups, List.mem_flatMap] at member
      obtain ⟨target, refers, member⟩ := member
      split at member
      · cases member
      · rename_i notInside
        have tries : Tries (Refers targets) file target :=
          ⟨refers, by simpa using notInside, by omega⟩
        rcases List.mem_cons.mp member with rfl | member
        · exact own target tries
        · split at member
          · rename_i called opens
            refine later target tries called opens lookup ?_
            rwa [room, Nat.add_sub_cancel]
          · cases member

end Lookups

/-! ## Chains of files -/

section Chains
variable {refers : Entries → String → Prop} {opened : String → Except Failure (Option Entries)}
variable {file last next : File} {target : String}

theorem Tries.files (tries : Tries refers file target) (distinct : file.chain.Nodup) :
    IsChain (file.chain ++ [target]) where
  distinct := List.Nodup.append distinct (List.nodup_singleton target) (by simpa using tries.2.1)
  length := by
    rw [List.length_append, List.length_singleton]
    exact tries.2.2

theorem Opens.files (opens : Opens refers opened file next) (distinct : file.chain.Nodup) :
    IsChain next.chain := by
  obtain ⟨target, tries, -, chain⟩ := opens
  rw [chain]
  exact tries.files distinct

theorem reached_distinct (reached : Relation.ReflTransGen (Opens refers opened) file last)
    (distinct : file.chain.Nodup) : last.chain.Nodup := by
  induction reached with
  | refl => exact distinct
  | tail _ step ih => exact (step.files ih).distinct

theorem prefix_of_reached (reached : Relation.ReflTransGen (Opens refers opened) file last) :
    file.chain <+: last.chain := by
  induction reached with
  | refl => exact List.prefix_rfl
  | tail _ step ih =>
    obtain ⟨target, -, -, chain⟩ := step
    rw [chain]
    exact ih.trans (List.prefix_append _ _)

end Chains

theorem lookups_isChain {targets : Entries → List String}
    {opened : String → Except Failure (Option Entries)} (file : File)
    (distinct : file.chain.Nodup) :
    ∀ lookup ∈ lookups targets opened (maxFiles - file.chain.length) file.chain file.entries,
      IsChain lookup.files := by
  rw [forall_lookups_iff (fun lookup => IsChain lookup.files)]
  exact fun next reached target tries => tries.files (reached_distinct reached distinct)

end SupplyLint
