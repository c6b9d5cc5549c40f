import Mathlib.Data.List.Infix
import SupplyLint.Proofs.Outcome

/-! # What a reading notes

The problems of a reading in steps are those of its steps, one after another,
up to the step that fails. A reading depends on what comes after a step only for
what the step comes to. -/
set_option autoImplicit false

namespace SupplyLint

section Reading
variable {α β : Type}

def noted (reading : Normalizing α) : List Problem :=
  reading.run.problems

theorem run_eq (reading : Normalizing α) : reading.run = ⟨outcome reading, noted reading⟩ := rfl

theorem reading_ext {first second : Normalizing α} (sameOutcome : outcome first = outcome second)
    (sameProblems : noted first = noted second) : first = second := by
  apply ExceptT.ext
  rw [run_eq, run_eq, sameOutcome, sameProblems]

theorem noted_bind_of_ok {reading : Normalizing α} {next : α → Normalizing β} {a : α}
    (found : outcome reading = .ok a) :
    noted (reading >>= next) = noted reading ++ noted (next a) := by
  have value : reading.run.value = .ok a := found
  unfold noted
  rw [ExceptT.run_bind, Noted.problems_bind, value]

theorem noted_bind_of_error {reading : Normalizing α} {next : α → Normalizing β}
    {failure : Failure} (failed : outcome reading = .error failure) :
    noted (reading >>= next) = noted reading := by
  have value : reading.run.value = .error failure := failed
  unfold noted
  rw [ExceptT.run_bind, Noted.problems_bind, value]
  exact List.append_nil _

@[simp] theorem noted_pure (a : α) : noted (pure a : Normalizing α) = [] := rfl

@[simp] theorem noted_map (f : α → β) (reading : Normalizing α) :
    noted (f <$> reading) = noted reading := by
  rw [← bind_pure_comp]
  cases found : outcome reading with
  | error failure => rw [noted_bind_of_error found]
  | ok a => rw [noted_bind_of_ok found, noted_pure, List.append_nil]

theorem bind_congr_of_outcome {reading : Normalizing α} {first second : α → Normalizing β}
    (same : ∀ a, outcome reading = .ok a → first a = second a) :
    (reading >>= first) = (reading >>= second) := by
  cases found : outcome reading with
  | error failure =>
    refine reading_ext ?_ ?_
    · rw [outcome_bind, outcome_bind, found]
      rfl
    · rw [noted_bind_of_error found, noted_bind_of_error found]
  | ok a =>
    refine reading_ext ?_ ?_
    · rw [outcome_bind, outcome_bind, found, ok_bind, ok_bind, same a found]
    · rw [noted_bind_of_ok found, noted_bind_of_ok found, same a found]

theorem noted_infix_bind_first (reading : Normalizing α) (next : α → Normalizing β) :
    noted reading <:+: noted (reading >>= next) := by
  cases found : outcome reading with
  | error failure => rw [noted_bind_of_error found]
  | ok a =>
    rw [noted_bind_of_ok found]
    exact (List.prefix_append _ _).isInfix

theorem noted_infix_bind_second {reading : Normalizing α} {next : α → Normalizing β} {a : α}
    (found : outcome reading = .ok a) : noted (next a) <:+: noted (reading >>= next) := by
  rw [noted_bind_of_ok found]
  exact (List.suffix_append _ _).isInfix

/-! ## Steps of other kinds -/

@[simp] theorem noted_fault (x : Except Fault α) : noted (liftM x : Normalizing α) = [] := by
  cases x <;> rfl

@[simp] theorem noted_failure (x : Except Failure α) : noted (liftM x : Normalizing α) = [] := by
  cases x <;> rfl

@[simp] theorem noted_lift (found : Noted α) :
    noted (liftM found : Normalizing α) = found.problems :=
  List.append_nil _

theorem liftM_map_fault (h : α → β) (x : Except Fault α) :
    (liftM (h <$> x) : Normalizing β) = h <$> (liftM x : Normalizing α) := by
  cases x <;> rfl

theorem liftM_map_noted (h : α → β) (x : Noted α) :
    (liftM (h <$> x) : Normalizing β) = h <$> (liftM x : Normalizing α) := by
  cases x
  rfl

/-! ## Problems of one kind only -/

variable {allowed : Problem → Prop}

def Noted.Only (allowed : Problem → Prop) (found : Noted α) : Prop :=
  ∀ problem ∈ found.problems, allowed problem

theorem Noted.only_pure (a : α) : Noted.Only allowed (pure a) := by
  simp [Noted.Only]

theorem Noted.only_note {kind : ProblemKind} {path message location : String}
    (fits : allowed ⟨kind, path, message, location⟩) :
    Noted.Only allowed (Noted.note kind path message location) := by
  simpa [Noted.Only] using fits

theorem Noted.Only.bind {first : Noted α} {next : α → Noted β} (here : first.Only allowed)
    (later : (next first.value).Only allowed) : (first >>= next).Only allowed := by
  intro problem member
  rw [Noted.problems_bind, List.mem_append] at member
  exact member.elim (here problem) (later problem)

theorem Noted.Only.mono {wider : Problem → Prop} {found : Noted α} (notes : found.Only allowed)
    (weaker : ∀ problem, allowed problem → wider problem) : found.Only wider :=
  fun problem member => weaker problem (notes problem member)

def NotesOnly (allowed : Problem → Prop) (reading : Normalizing α) : Prop :=
  ∀ problem ∈ noted reading, allowed problem

theorem NotesOnly.mono {wider : Problem → Prop} {reading : Normalizing α}
    (notes : NotesOnly allowed reading) (weaker : ∀ problem, allowed problem → wider problem) :
    NotesOnly wider reading :=
  fun problem member => weaker problem (notes problem member)

theorem notesOnly_pure (a : α) : NotesOnly allowed (pure a : Normalizing α) := by
  simp [NotesOnly]

theorem notesOnly_fault (x : Except Fault α) : NotesOnly allowed (liftM x : Normalizing α) := by
  simp [NotesOnly]

theorem notesOnly_failure (x : Except Failure α) : NotesOnly allowed (liftM x : Normalizing α) := by
  simp [NotesOnly]

theorem notesOnly_lift {found : Noted α} (notes : found.Only allowed) :
    NotesOnly allowed (liftM found : Normalizing α) := by
  rwa [NotesOnly, noted_lift]

theorem NotesOnly.bind_of_ok {reading : Normalizing α} {next : α → Normalizing β}
    (notes : NotesOnly allowed reading)
    (later : ∀ a, outcome reading = .ok a → NotesOnly allowed (next a)) :
    NotesOnly allowed (reading >>= next) := by
  intro problem member
  cases found : outcome reading with
  | error failure =>
    rw [noted_bind_of_error found] at member
    exact notes problem member
  | ok a =>
    rw [noted_bind_of_ok found, List.mem_append] at member
    exact member.elim (notes problem) (later a found problem)

theorem NotesOnly.bind {reading : Normalizing α} {next : α → Normalizing β}
    (notes : NotesOnly allowed reading) (later : ∀ a, NotesOnly allowed (next a)) :
    NotesOnly allowed (reading >>= next) :=
  notes.bind_of_ok fun a _ => later a

theorem NotesOnly.map {reading : Normalizing α} (notes : NotesOnly allowed reading) (f : α → β) :
    NotesOnly allowed (f <$> reading) := by
  rwa [NotesOnly, noted_map]

theorem notesOnly_unless {condition : Prop} [Decidable condition] {found : Noted Unit}
    {later : Normalizing α} (here : found.Only allowed) (notes : NotesOnly allowed later) :
    NotesOnly allowed (if condition then liftM found >>= fun _ => later else later) := by
  split
  · exact (notesOnly_lift here).bind fun _ => notes
  · exact notes

theorem Noted.Only.filter_eq_nil {keep : Problem → Bool} {found : Noted α}
    (notes : found.Only fun problem => keep problem = false) : found.problems.filter keep = [] :=
  List.filter_eq_nil_iff.mpr fun problem member => Bool.eq_false_iff.mp (notes problem member)

theorem NotesOnly.filter_eq_nil {keep : Problem → Bool} {reading : Normalizing α}
    (notes : NotesOnly (fun problem => keep problem = false) reading) :
    (noted reading).filter keep = [] :=
  List.filter_eq_nil_iff.mpr fun problem member => Bool.eq_false_iff.mp (notes problem member)

end Reading

end SupplyLint
