import Mathlib.Data.List.Forall2
import SupplyLint.Pipeline.Source

/-! # What a reading comes to

A reading notes problems and gives a result or fails. Its outcome is what is
left without the problems; the outcome of a reading in steps is that of its
steps, one after another. -/
set_option autoImplicit false

namespace SupplyLint

section Results
variable {ε α β : Type}

@[simp] theorem ok_bind (a : α) (f : α → Except ε β) : (Except.ok a >>= f) = f a := rfl

theorem bind_eq_ok {x : Except ε α} {f : α → Except ε β} {b : β} :
    (x >>= f) = .ok b ↔ ∃ a, x = .ok a ∧ f a = .ok b := by
  cases x with
  | error e => simp [bind, Except.bind]
  | ok a => simp [bind, Except.bind]

theorem bind_congr_of_ok {x : Except ε α} {f g : α → Except ε β}
    (same : ∀ a, x = .ok a → f a = g a) : (x >>= f) = (x >>= g) := by
  cases x with
  | error e => rfl
  | ok a => exact same a rfl

theorem map_eq_ok {x : Except ε α} {f : α → β} {b : β} :
    (f <$> x) = .ok b ↔ ∃ a, x = .ok a ∧ f a = b := by
  cases x with
  | error e => simp [Functor.map, Except.map]
  | ok a => simp [Functor.map, Except.map]

theorem pure_eq_ok {a b : α} : (pure a : Except ε α) = .ok b ↔ a = b := by
  simp [pure, Except.pure]

theorem mapM_eq_ok {f : α → Except ε β} {items : List α} {results : List β} :
    items.mapM f = .ok results ↔
      List.Forall₂ (fun item result => f item = .ok result) items results := by
  induction items generalizing results with
  | nil =>
    rw [List.mapM_nil, pure_eq_ok, List.forall₂_nil_left_iff, eq_comm]
  | cons item rest ih =>
    simp only [List.mapM_cons, bind_eq_ok, pure_eq_ok, ih, List.forall₂_cons_left_iff]
    constructor
    · rintro ⟨first, found, others, rest, rfl⟩
      exact ⟨first, others, found, rest, rfl⟩
    · rintro ⟨first, others, found, rest, rfl⟩
      exact ⟨first, found, others, rest, rfl⟩

theorem exists_of_mem_forall₂ {relates : α → β → Prop} {items : List α} {results : List β}
    (related : List.Forall₂ relates items results) {result : β} (member : result ∈ results) :
    ∃ item ∈ items, relates item result := by
  induction related with
  | nil => exact absurd member List.not_mem_nil
  | @cons item first rest others here _ ih =>
    rcases List.mem_cons.mp member with rfl | later
    · exact ⟨item, List.mem_cons_self, here⟩
    · obtain ⟨found, inside, made⟩ := ih later
      exact ⟨found, List.mem_cons_of_mem _ inside, made⟩

theorem exists_of_mem_mapM {f : α → Except ε β} {items : List α} {results : List β} {result : β}
    (found : items.mapM f = .ok results) (member : result ∈ results) :
    ∃ item ∈ items, f item = .ok result :=
  exists_of_mem_forall₂ (mapM_eq_ok.mp found) member

theorem toOption_eq_some {x : Except ε α} {a : α} : x.toOption = some a ↔ x = .ok a := by
  cases x with
  | error e => simp [Except.toOption]
  | ok b => simp [Except.toOption]

theorem filterMap_toOption_of_forall₂ {f : α → Except ε β} {items : List α} {results : List β}
    (all : List.Forall₂ (fun item result => f item = .ok result) items results) :
    items.filterMap (fun item => (f item).toOption) = results := by
  induction all with
  | nil => rfl
  | cons own _ ih =>
    rw [List.filterMap_cons, toOption_eq_some.mpr own]
    exact congrArg _ ih

theorem toOption_map_eq_some {x : Except ε α} {f : α → β} {b : β} :
    x.toOption.map f = some b ↔ ∃ a, x = .ok a ∧ f a = b := by
  simp [toOption_eq_some]

def Returns (x : Except ε α) : Prop :=
  ∃ a, x = .ok a

@[simp] theorem returns_ok (a : α) : Returns (.ok a : Except ε α) :=
  ⟨a, rfl⟩

@[simp] theorem returns_pure (a : α) : Returns (pure a : Except ε α) :=
  ⟨a, rfl⟩

@[simp] theorem not_returns_error (e : ε) : ¬ Returns (.error e : Except ε α) := by
  rintro ⟨a, found⟩
  cases found

@[simp] theorem returns_map (f : α → β) (x : Except ε α) : Returns (f <$> x) ↔ Returns x := by
  simp [Returns, map_eq_ok]

@[simp] theorem returns_except_map (f : α → β) (x : Except ε α) :
    Returns (x.map f) ↔ Returns x :=
  returns_map f x

theorem returns_bind {x : Except ε α} {f : α → Except ε β} :
    Returns (x >>= f) ↔ ∃ a, x = .ok a ∧ Returns (f a) := by
  cases x with
  | error e => simp [Returns, bind, Except.bind]
  | ok a => simp [Returns, bind, Except.bind]

theorem returns_bind_and {x : Except ε α} {f : α → Except ε β} :
    Returns (x >>= f) ↔ Returns x ∧ ∀ a, x = .ok a → Returns (f a) := by
  cases x with
  | error e => simp [bind, Except.bind]
  | ok a => simp

theorem returns_bind_iff {x : Except ε α} {f : α → Except ε β} {condition : Prop}
    (second : ∀ a, x = .ok a → (Returns (f a) ↔ condition)) :
    Returns (x >>= f) ↔ Returns x ∧ condition := by
  rw [returns_bind]
  constructor
  · rintro ⟨a, found, next⟩
    exact ⟨⟨a, found⟩, (second a found).mp next⟩
  · rintro ⟨⟨a, found⟩, holds⟩
    exact ⟨a, found, (second a found).mpr holds⟩

theorem returns_bind_of_forall {x : Except ε α} {f : α → Except ε β}
    (second : ∀ a, x = .ok a → Returns (f a)) : Returns (x >>= f) ↔ Returns x := by
  rw [returns_bind_iff fun a found => iff_of_true (second a found) trivial, and_true]

@[simp] theorem returns_bind_pure (x : Except ε α) (f : α → β) :
    Returns (x >>= fun a => pure (f a)) ↔ Returns x :=
  returns_map f x

theorem returns_mapM {f : α → Except ε β} {items : List α} :
    Returns (items.mapM f) ↔ ∀ item ∈ items, Returns (f item) := by
  induction items with
  | nil => simp
  | cons item rest ih =>
    have step : ∀ first, f item = .ok first →
        (Returns (rest.mapM f >>= fun others => pure (first :: others)) ↔
          ∀ item ∈ rest, Returns (f item)) := by
      intro first _
      rw [returns_bind_pure (rest.mapM f) (first :: ·), ih]
    rw [List.mapM_cons, returns_bind_iff step, List.forall_mem_cons]

theorem returns_append_mapM {first : Except ε (List β)} {each : α → Except ε (List β)}
    {items : List α} :
    Returns (first >>= fun own => items.mapM each >>= fun others => pure (own ++ others.flatten)) ↔
      Returns first ∧ ∀ item ∈ items, Returns (each item) := by
  refine returns_bind_iff fun own _ => ?_
  rw [returns_bind_pure (items.mapM each) fun others => own ++ others.flatten, returns_mapM]

theorem returns_forM {f : α → Except ε PUnit} {items : List α} :
    Returns (forM items f) ↔ ∀ item ∈ items, Returns (f item) := by
  induction items with
  | nil => simp
  | cons item rest ih =>
    rw [List.forM_cons, returns_bind_iff fun _ _ => ih]
    simp

theorem returns_filterAuxM {test : α → Except ε Bool} {items kept : List α} :
    Returns (List.filterAuxM test items kept) ↔ ∀ item ∈ items, Returns (test item) := by
  induction items generalizing kept with
  | nil => simp [List.filterAuxM]
  | cons item rest ih =>
    rw [List.filterAuxM, returns_bind_iff fun _ _ => ih]
    simp

theorem returns_filterM {test : α → Except ε Bool} {items : List α} :
    Returns (items.filterM test) ↔ ∀ item ∈ items, Returns (test item) := by
  have collected := returns_map List.reverse (List.filterAuxM test items [])
  exact collected.trans returns_filterAuxM

theorem mem_of_filterAuxM {test : α → Except ε Bool} {items kept result : List α} {a : α}
    (found : List.filterAuxM test items kept = .ok result) (member : a ∈ result) :
    a ∈ kept ∨ a ∈ items ∧ test a = .ok true := by
  induction items generalizing kept with
  | nil =>
    simp only [List.filterAuxM, pure_eq_ok] at found
    exact Or.inl (found ▸ member)
  | cons item rest ih =>
    simp only [List.filterAuxM, bind_eq_ok] at found
    obtain ⟨passes, tested, found⟩ := found
    rcases ih found with old | ⟨later, passed⟩
    · cases passes with
      | false => exact Or.inl old
      | true =>
        rcases List.mem_cons.mp old with rfl | older
        · exact Or.inr ⟨List.mem_cons_self, tested⟩
        · exact Or.inl older
    · exact Or.inr ⟨List.mem_cons_of_mem _ later, passed⟩

theorem mem_of_mem_filterM {test : α → Except ε Bool} {items result : List α} {a : α}
    (found : items.filterM test = .ok result) (member : a ∈ result) :
    a ∈ items ∧ test a = .ok true := by
  simp only [List.filterM, bind_eq_ok, pure_eq_ok] at found
  obtain ⟨reversed, found, rfl⟩ := found
  rcases mem_of_filterAuxM found (List.mem_reverse.mp member) with old | passed
  · exact absurd old List.not_mem_nil
  · exact passed

theorem filterAuxM_of_total {test : α → Except ε Bool} {passes : α → Bool}
    (total : ∀ item, test item = .ok (passes item)) (items kept : List α) :
    List.filterAuxM test items kept = .ok ((items.filter passes).reverse ++ kept) := by
  induction items generalizing kept with
  | nil => rfl
  | cons item rest ih =>
    rw [List.filterAuxM, total, ok_bind, ih]
    cases passed : passes item <;> simp [passed]

theorem filterM_of_total {test : α → Except ε Bool} {passes : α → Bool}
    (total : ∀ item, test item = .ok (passes item)) (items : List α) :
    items.filterM test = .ok (items.filter passes) := by
  simp only [List.filterM, filterAuxM_of_total total, ok_bind,
    List.append_nil, List.reverse_reverse]
  rfl

@[simp] theorem returns_uncaught (x : Except Fault α) : Returns (uncaught x) ↔ Returns x := by
  cases x with
  | error e => simp [uncaught, Except.mapError]
  | ok a => simp [uncaught, Except.mapError]

theorem uncaught_eq_ok {x : Except Fault α} {a : α} : uncaught x = .ok a ↔ x = .ok a := by
  cases x with
  | error e => simp [uncaught, Except.mapError]
  | ok b => simp [uncaught, Except.mapError]

end Results

/-- What a reading comes to: its result, or why it fails. -/
def outcome {α : Type} (reading : Normalizing α) : Except Failure α :=
  reading.run.value

section Outcome
variable {α β : Type}

@[simp] theorem outcome_pure (a : α) : outcome (pure a : Normalizing α) = .ok a := rfl

@[simp] theorem outcome_bind (reading : Normalizing α) (next : α → Normalizing β) :
    outcome (reading >>= next) = outcome reading >>= fun a => outcome (next a) := by
  unfold outcome
  rw [ExceptT.run_bind, Noted.value_bind]
  cases reading.run.value with
  | error failure => rfl
  | ok a => rfl

@[simp] theorem outcome_map (f : α → β) (reading : Normalizing α) :
    outcome (f <$> reading) = f <$> outcome reading := by
  rw [← bind_pure_comp, outcome_bind, ← bind_pure_comp]
  rfl

@[simp] theorem outcome_throw (failure : Failure) :
    outcome (throw failure : Normalizing α) = .error failure := rfl

@[simp] theorem outcome_fault (x : Except Fault α) :
    outcome (liftM x : Normalizing α) = uncaught x := by
  cases x with
  | error fault => rfl
  | ok a => rfl

theorem outcome_fault_of_ok {x : Except Fault α} {a : α} (found : x = .ok a) :
    outcome (liftM x : Normalizing α) = .ok a := by
  rw [outcome_fault, found]
  rfl

@[simp] theorem outcome_failure (x : Except Failure α) :
    outcome (liftM x : Normalizing α) = x := rfl

@[simp] theorem outcome_noted (noted : Noted α) :
    outcome (liftM noted : Normalizing α) = .ok noted.value := rfl

@[simp] theorem outcome_mapM (f : α → Normalizing β) (items : List α) :
    outcome (items.mapM f) = items.mapM fun item => outcome (f item) := by
  induction items with
  | nil => rfl
  | cons item rest ih => simp [List.mapM_cons, ih]

@[simp] theorem outcome_forM (f : α → Normalizing PUnit) (items : List α) :
    outcome (forM items f) = forM items fun item => outcome (f item) := by
  induction items with
  | nil => rfl
  | cons item rest ih => simp [List.forM_cons, ih]

end Outcome

end SupplyLint
