import SupplyLint.Proofs.Outcome
import SupplyLint.Rule.Standard

/-! # When rules report faults

The findings of a rule carry its id, so the findings that report faults come
only from rules that meet one. `evaluate_reports_no_fault_iff`: there are none
exactly when every check gives a result. -/
set_option autoImplicit false

namespace SupplyLint.Rule

def Yields (holds : Finding → Prop) (checked : Except Fault (List Finding)) : Prop :=
  ∀ findings, checked = .ok findings → ∀ finding ∈ findings, holds finding

section Yields
variable {holds : Finding → Prop} {α : Type}

theorem yields_ok {findings : List Finding} (each : ∀ finding ∈ findings, holds finding) :
    Yields holds (.ok findings) := by
  rintro _ ⟨⟩
  exact each

theorem yields_bind {first : Except Fault α} {next : α → Except Fault (List Finding)}
    (yields : ∀ a, first = .ok a → Yields holds (next a)) : Yields holds (first >>= next) := by
  intro findings found
  obtain ⟨a, here, found⟩ := bind_eq_ok.mp found
  exact yields a here findings found

theorem yields_mapM {items : List α} {make : α → Except Fault Finding}
    (each : ∀ item ∈ items, ∀ finding, make item = .ok finding → holds finding) :
    Yields holds (items.mapM make) := by
  intro findings found finding member
  obtain ⟨item, inside, made⟩ := exists_of_mem_mapM found member
  exact each item inside finding made

theorem yields_flatten {items : List α} {check : α → Except Fault (List Finding)}
    (yields : ∀ item ∈ items, Yields holds (check item)) :
    Yields holds (items.mapM check >>= fun found => pure found.flatten) := by
  intro findings found
  simp only [bind_eq_ok, pure_eq_ok] at found
  obtain ⟨lists, each, rfl⟩ := found
  intro finding member
  obtain ⟨list, inside, member⟩ := List.mem_flatten.mp member
  obtain ⟨item, here, checked⟩ := exists_of_mem_mapM each inside
  exact yields item here list checked finding member

theorem yields_append_flatten {first : Except Fault (List Finding)} {items : List α}
    {check : α → Except Fault (List Finding)} (here : Yields holds first)
    (there : ∀ item ∈ items, Yields holds (check item)) :
    Yields holds
      (first >>= fun own => items.mapM check >>= fun found => pure (own ++ found.flatten)) := by
  intro findings found
  simp only [bind_eq_ok, pure_eq_ok] at found
  obtain ⟨own, ownFound, lists, each, rfl⟩ := found
  intro finding member
  rcases List.mem_append.mp member with inOwn | later
  · exact here own ownFound finding inOwn
  · obtain ⟨list, inside, member⟩ := List.mem_flatten.mp later
    obtain ⟨item, source, checked⟩ := exists_of_mem_mapM each inside
    exact there item source list checked finding member

end Yields

def Carries (id : String) (checked : Except Fault (List Finding)) : Prop :=
  ∀ findings, checked = .ok findings → ∀ finding ∈ findings, finding.rule = id

section Carries
variable {id : String} {α : Type}

theorem carries_ok {findings : List Finding} (named : ∀ finding ∈ findings, finding.rule = id) :
    Carries id (.ok findings) :=
  yields_ok named

theorem carries_bind {first : Except Fault α} {next : α → Except Fault (List Finding)}
    (carries : ∀ a, Carries id (next a)) : Carries id (first >>= next) :=
  yields_bind fun a _ => carries a

theorem carries_flatten {items : List α} {check : α → Except Fault (List Finding)}
    (carries : ∀ item, Carries id (check item)) :
    Carries id (items.mapM check >>= fun found => pure found.flatten) :=
  yields_flatten fun item _ => carries item

theorem carries_append_flatten {first : Except Fault (List Finding)} {items : List α}
    {check : α → Except Fault (List Finding)} (here : Carries id first)
    (there : ∀ item, Carries id (check item)) :
    Carries id
      (first >>= fun own => items.mapM check >>= fun found => pure (own ++ found.flatten)) :=
  yields_append_flatten here fun item _ => there item

end Carries

/-- A rule whose findings carry its id, which is not the id of the findings that report faults. -/
structure Sound (rule : Rule) : Prop where
  ownId : rule.id ≠ evaluationError
  carries : ∀ pipeline, Carries rule.id (rule.check pipeline)

theorem evaluate_reports_no_fault_iff {rules : List Rule} (sound : ∀ rule ∈ rules, Sound rule)
    (pipeline : Pipeline) :
    (∀ finding ∈ evaluate rules pipeline, finding.rule ≠ evaluationError) ↔
      ∀ rule ∈ rules, Returns (rule.check pipeline) := by
  simp only [evaluate, Finding.sorted, List.mem_mergeSort, List.mem_flatMap]
  constructor
  · intro none rule member
    unfold contribution at none
    cases checked : rule.check pipeline with
    | ok findings => exact returns_ok findings
    | error fault =>
      refine absurd rfl (none (rule.diagnostic pipeline fault) ⟨rule, member, ?_⟩)
      rw [checked]
      exact List.mem_singleton_self _
  · rintro all finding ⟨rule, member, reported⟩
    obtain ⟨findings, checked⟩ := all rule member
    rw [contribution, checked] at reported
    rw [(sound rule member).carries pipeline findings checked finding reported]
    exact (sound rule member).ownId

end SupplyLint.Rule
