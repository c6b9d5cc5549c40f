import SupplyLint.Proofs.Reading

/-! # Readings without some of their problems

What a reading notes of one place can be left out of sight. Sifting goes step by
step, so two readings that differ in one step, and there only in what they note of
that place, are compared one step after another: `ChangesTo.bind`. -/
set_option autoImplicit false

namespace SupplyLint

section Sifted
variable {α β γ δ : Type} (keep : Problem → Bool)

def sifted (reading : Normalizing α) : Normalizing α :=
  ExceptT.mk ⟨outcome reading, (noted reading).filter keep⟩

@[simp] theorem outcome_sifted (reading : Normalizing α) :
    outcome (sifted keep reading) = outcome reading := rfl

@[simp] theorem noted_sifted (reading : Normalizing α) :
    noted (sifted keep reading) = (noted reading).filter keep := rfl

@[simp] theorem sifted_pure (a : α) : sifted keep (pure a : Normalizing α) = pure a := rfl

theorem sifted_bind (reading : Normalizing α) (next : α → Normalizing β) :
    sifted keep (reading >>= next) = sifted keep reading >>= fun a => sifted keep (next a) := by
  refine reading_ext (by simp) ?_
  cases found : outcome reading with
  | error failure =>
    have failed : outcome (sifted keep reading) = .error failure := found
    rw [noted_sifted, noted_bind_of_error found, noted_bind_of_error failed, noted_sifted]
  | ok a =>
    have came : outcome (sifted keep reading) = .ok a := found
    rw [noted_sifted, noted_bind_of_ok found, noted_bind_of_ok came, List.filter_append]
    rfl

variable {keep}

/-! ## Readings of which nothing is kept -/

variable (keep) in
def AllDropped (reading : Normalizing α) : Prop :=
  ∀ problem ∈ noted reading, keep problem = false

theorem allDropped_pure (a : α) : AllDropped keep (pure a) :=
  notesOnly_pure a

theorem allDropped_fault (x : Except Fault α) : AllDropped keep (liftM x) :=
  notesOnly_fault x

theorem allDropped_note {kind : ProblemKind} {path message location : String}
    (dropped : keep ⟨kind, path, message, location⟩ = false) :
    AllDropped keep (liftM (Noted.note kind path message location)) :=
  notesOnly_lift (Noted.only_note dropped)

theorem AllDropped.bind {reading : Normalizing α} {next : α → Normalizing β}
    (dropped : AllDropped keep reading) (later : ∀ a, AllDropped keep (next a)) :
    AllDropped keep (reading >>= next) :=
  NotesOnly.bind dropped later

theorem allDropped_forM {items : List α} {each : α → Normalizing PUnit}
    (dropped : ∀ item, AllDropped keep (each item)) : AllDropped keep (forM items each) := by
  induction items with
  | nil => exact allDropped_pure _
  | cons item rest ih =>
    rw [List.forM_cons]
    exact (dropped item).bind fun _ => ih

theorem sifted_eq_pure {reading : Normalizing α} {a : α} (found : outcome reading = .ok a)
    (dropped : AllDropped keep reading) : sifted keep reading = pure a := by
  refine reading_ext found ?_
  rw [noted_sifted, noted_pure]
  exact NotesOnly.filter_eq_nil dropped

/-! ## A reading in place of another -/

variable (keep) in
/-- The second reading comes to what the first one comes to, changed, and notes the same but for
what is not kept. -/
def ChangesTo (change : α → β) (first : Normalizing α) (second : Normalizing β) : Prop :=
  sifted keep second = change <$> sifted keep first

variable {change : α → γ} {further : β → δ}

theorem ChangesTo.outcome_eq {first : Normalizing α} {second : Normalizing γ}
    (changes : ChangesTo keep change first second) : outcome second = change <$> outcome first := by
  have same := congrArg outcome changes
  rwa [outcome_map, outcome_sifted, outcome_sifted] at same

theorem ChangesTo.noted_eq {first : Normalizing α} {second : Normalizing γ}
    (changes : ChangesTo keep change first second) :
    (noted second).filter keep = (noted first).filter keep := by
  have same := congrArg noted changes
  rwa [noted_map, noted_sifted, noted_sifted] at same

theorem changesTo_pure {a : α} {b : γ} (changed : b = change a) :
    ChangesTo keep change (pure a) (pure b) := by
  rw [ChangesTo, sifted_pure, sifted_pure, map_pure, changed]

theorem ChangesTo.bind {first : Normalizing α} {second : Normalizing γ} {next : α → Normalizing β}
    {other : γ → Normalizing δ} (changes : ChangesTo keep change first second)
    (later : ∀ a, outcome first = .ok a → ChangesTo keep further (next a) (other (change a))) :
    ChangesTo keep further (first >>= next) (second >>= other) := by
  rw [ChangesTo] at changes
  rw [ChangesTo, sifted_bind, sifted_bind, changes, bind_map_left, map_bind]
  exact bind_congr_of_outcome later

theorem changesTo_bind {reading : Normalizing α} {next : α → Normalizing β}
    {other : α → Normalizing δ}
    (later : ∀ a, outcome reading = .ok a → ChangesTo keep further (next a) (other a)) :
    ChangesTo keep further (reading >>= next) (reading >>= other) := by
  have same : ChangesTo keep id reading reading := (id_map _).symm
  exact same.bind later

theorem changesTo_map {reading : Normalizing α} : ChangesTo keep change reading
    (change <$> reading) := by
  rw [← bind_pure_comp, ← bind_pure reading, bind_assoc]
  exact changesTo_bind fun a _ => changesTo_pure rfl

end Sifted

end SupplyLint
