import SupplyLint.Proofs.Github.Workflow

/-! # The positions of steps

`readFrom_steps`: the position of a step is the place of its item in the list that
it is read from. Items that are no steps leave their places free, so the positions
of the steps of a job increase. -/
set_option autoImplicit false

namespace SupplyLint.Github

theorem step_at {path job : String} {position : Nat} {raw : Value} {found : Step}
    (read : outcome (step path job position raw) = .ok (some found)) :
    ∃ entries, raw = .map entries ∧ found.position = position ∧
      found.line = Field.line (.map entries) := by
  obtain ⟨entries, env, action, rfl, -, -, rfl⟩ := step_eq_ok read
  exact ⟨entries, rfl, rfl, rfl⟩

/-- The steps that are read from items, each at the place of its item; the first item is at
`start`. -/
structure ReadFrom (path job : String) (start : Nat) (items : List Value) (found : List Step) :
    Prop where
  increasing : found.Pairwise fun first second => first.position < second.position
  mem_iff : ∀ own, own ∈ found ↔ ∃ (place : Nat) (item : Value), items[place]? = some item ∧
    own.position = (start + place : Nat) ∧
      outcome (step path job (start + place) item) = .ok (some own)

section Read
variable {path job : String} {start : Nat} {items : List Value} {found : List Step}

theorem ReadFrom.bounds (read : ReadFrom path job start items found) :
    ∀ own ∈ found, (start : Int) ≤ own.position ∧ own.position < (start + items.length : Nat) := by
  intro own member
  obtain ⟨place, item, inside, position, -⟩ := (read.mem_iff own).mp member
  obtain ⟨below, -⟩ := List.getElem?_eq_some_iff.mp inside
  rw [position]
  omega

theorem readFrom_nil (path job : String) (start : Nat) : ReadFrom path job start [] [] where
  increasing := .nil
  mem_iff own := by simp

theorem ReadFrom.cons {item : Value} {rest : List Value} {first : Option Step} {others : List Step}
    (here : outcome (step path job start item) = .ok first)
    (later : ReadFrom path job (start + 1) rest others) :
    ReadFrom path job start (item :: rest) (first.toList ++ others) where
  increasing := by
    refine List.pairwise_append.mpr ⟨?_, later.increasing, fun own member other inside => ?_⟩
    · cases first with
      | none => exact .nil
      | some own => exact List.pairwise_singleton _ own
    · rw [Option.mem_toList] at member
      rw [member] at here
      obtain ⟨-, -, position, -⟩ := step_at here
      have bound := (later.bounds other inside).1
      omega
  mem_iff own := by
    rw [List.mem_append, Option.mem_toList, later.mem_iff]
    constructor
    · rintro (rfl | ⟨place, other, inside, position, read⟩)
      · obtain ⟨-, -, position, -⟩ := step_at here
        exact ⟨0, item, rfl, position, here⟩
      · have next : start + 1 + place = start + (place + 1) := by omega
        exact ⟨place + 1, other, inside, next ▸ position, next ▸ read⟩
    · rintro ⟨place, other, inside, position, read⟩
      cases place with
      | zero =>
        obtain rfl := Option.some.inj inside
        exact Or.inl (Except.ok.inj (here.symm.trans read))
      | succ place =>
        have next : start + (place + 1) = start + 1 + place := by omega
        exact Or.inr ⟨place, other, inside, next ▸ position, next ▸ read⟩

theorem readFrom_stepsFrom (items : List Value) {start : Nat} {found : List Step}
    (read : outcome (stepsFrom path job start items) = .ok found) :
    ReadFrom path job start items found := by
  induction items generalizing start found with
  | nil =>
    obtain rfl := Except.ok.inj read
    exact readFrom_nil path job start
  | cons item rest ih =>
    simp only [stepsFrom, outcome_bind, bind_eq_ok, outcome_pure, Except.ok.injEq] at read
    obtain ⟨first, here, others, later, rfl⟩ := read
    exact .cons here (ih later)

def stepItems : Value → List Value
  | .list items => items
  | _ => []

theorem readFrom_steps {raw : Value} (read : outcome (steps path job raw) = .ok found) :
    ReadFrom path job 0 (stepItems raw) found := by
  unfold steps at read
  split at read
  · next absent =>
    obtain rfl := Except.ok.inj read
    cases raw with
    | list items =>
      obtain rfl : items = [] := by simpa [Value.present] using absent
      exact readFrom_nil path job 0
    | _ => exact readFrom_nil path job 0
  · cases raw with
    | list items => exact readFrom_stepsFrom items read
    | _ =>
      simp only [outcome_bind, bind_eq_ok, outcome_pure, Except.ok.injEq] at read
      obtain ⟨-, -, rfl⟩ := read
      exact readFrom_nil path job 0

end Read

end SupplyLint.Github
