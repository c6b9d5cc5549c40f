import SupplyLint.Proofs.Placement

/-! # Checks that go through the jobs

A check gathers what it finds in each job, in the order of the jobs. In place of a
job others of its index stand where it stood (`Jobs.ordered_inPlace`), and what is
found in one part of a list is put between what is found in the others
(`Inserts.gathered`). -/
set_option autoImplicit false

namespace SupplyLint

/-- In place of a job others of its index can be put; all other jobs stand as they do. -/
theorem Jobs.ordered_inPlace (before after : Jobs) (key : String) (job : Job) :
    ∃ left right, Jobs.ordered (before ++ (key, job) :: after) = left ++ job :: right ∧
      ∀ others : Jobs, (∀ other ∈ others.values, other.index = job.index) →
        Jobs.ordered (before ++ (others ++ after)) = left ++ (others.values ++ right) := by
  have sorts := Jobs.sortsBy_ordered (before ++ (key, job) :: after)
  rw [Keyed.values, List.map_append, List.map_cons] at sorts
  obtain ⟨left, right, split, inPlace⟩ := sorts.inPlace
  refine ⟨left, right, split, fun others same => ?_⟩
  refine (Jobs.sortsBy_ordered (before ++ (others ++ after))).unique ?_
  rw [Keyed.values, List.map_append, List.map_append]
  exact inPlace others.values same

/-! ## What is found on the way -/

section Gathered
variable {ε α β : Type}

def gathered (each : α → Except ε (List β)) (items : List α) : Except ε (List β) := do
  return (← items.mapM each).flatten

def joined (first second : Except ε (List β)) : Except ε (List β) := do
  return (← first) ++ (← second)

/-- The first computation finds what the second finds and between it something more, or both fail
alike. -/
inductive Inserts (made : List β) : Except ε (List β) → Except ε (List β) → Prop
  | found (left right : List β) : Inserts made (.ok (left ++ (made ++ right))) (.ok (left ++ right))
  | fails (fault : ε) : Inserts made (.error fault) (.error fault)

variable {made : List β} {first second : Except ε (List β)}

theorem Inserts.of_returns (inserts : Inserts made first second) (returns : Returns first) :
    ∃ left right, first = .ok (left ++ (made ++ right)) ∧ second = .ok (left ++ right) := by
  cases inserts with
  | found left right => exact ⟨left, right, rfl, rfl⟩
  | fails fault => exact absurd returns (not_returns_error fault)

theorem inserts_joined (made : List β) (rest : Except ε (List β)) :
    Inserts made (joined (.ok made) rest) rest := by
  cases rest with
  | error fault => exact .fails fault
  | ok found => exact .found [] found

theorem Inserts.after (inserts : Inserts made first second) (before : Except ε (List β)) :
    Inserts made (joined before first) (joined before second) := by
  cases before with
  | error fault => exact .fails fault
  | ok earlier =>
    cases inserts with
    | fails fault => exact .fails fault
    | found left right => simpa [joined] using Inserts.found (earlier ++ left) right

theorem Inserts.before (inserts : Inserts made first second) (after : Except ε (List β)) :
    Inserts made (joined first after) (joined second after) := by
  cases inserts with
  | fails fault => exact .fails fault
  | found left right =>
    cases after with
    | error fault => exact .fails fault
    | ok later => simpa [joined] using Inserts.found left (right ++ later)

variable (each : α → Except ε (List β))

theorem gathered_cons (item : α) (items : List α) :
    gathered each (item :: items) = joined (each item) (gathered each items) := by
  simp [gathered, joined, List.mapM_cons]

theorem gathered_append (items others : List α) :
    gathered each (items ++ others) = joined (gathered each items) (gathered each others) := by
  simp [gathered, joined, List.mapM_append]

theorem inserts_gathered {each : α → Except ε (List β)} {item : α} (found : each item = .ok made)
    (left right : List α) :
    Inserts made (gathered each (left ++ item :: right)) (gathered each (left ++ right)) := by
  rw [gathered_append, gathered_append, gathered_cons, found]
  exact (inserts_joined made _).after _

/-- What is found in an item beyond what is found in another is put between the rest. -/
theorem Inserts.gathered {each : α → Except ε (List β)} {item other : α}
    (inserts : Inserts made (each item) (each other)) (left right : List α) :
    Inserts made (gathered each (left ++ item :: right))
      (gathered each (left ++ other :: right)) := by
  rw [gathered_append, gathered_append, gathered_cons, gathered_cons]
  exact (inserts.before _).after _

end Gathered

end SupplyLint
