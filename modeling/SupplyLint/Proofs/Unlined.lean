import SupplyLint.Proofs.Needs.Independence
import SupplyLint.Proofs.Reading
import SupplyLint.Proofs.Value.Unlined

/-! # Pipelines without their lines

Zero is put for every line in a pipeline: those of jobs and steps, and those in the values of
environments and of arguments, which are kept as they are written. The needs of jobs and their order
have nothing to do with lines. Two readings are the same under a function when they note the same
problems and what they come to has one image. -/
set_option autoImplicit false

namespace SupplyLint

/-! ## Pipelines -/

def Action.unlined : Action → Action
  | .uses text package arguments => .uses text package (Keyed.mapValues Value.unlined arguments)
  | .run script shell => .run script shell

def Step.unlined (step : Step) : Step :=
  { step with
    action := step.action.unlined
    env := Keyed.mapValues Value.unlined step.env
    line := step.line.map fun _ => 0 }

def Job.unlined (job : Job) : Job :=
  { job with
    steps := job.steps.map Step.unlined
    env := Keyed.mapValues Value.unlined job.env
    line := job.line.map fun _ => 0 }

abbrev Jobs.unlined (jobs : Jobs) : Jobs :=
  Keyed.mapValues Job.unlined jobs

/-- A pipeline with zero for all lines: those of jobs and steps, and those in the values of
environments and of arguments. -/
def Pipeline.unlined (pipeline : Pipeline) : Pipeline :=
  { pipeline with
    jobs := pipeline.jobs.unlined
    env := Keyed.mapValues Value.unlined pipeline.env }

theorem Job.unlined_sparesNeeds : Job.SparesNeeds Job.unlined :=
  ⟨fun _ => rfl, fun _ => rfl, fun _ => rfl, fun _ _ => rfl⟩

theorem Jobs.ordered_unlined (jobs : Jobs) : jobs.unlined.ordered = jobs.ordered.map Job.unlined :=
  ordered_mapValues Job.unlined_sparesNeeds jobs

theorem Needs.validate_unlined (jobs : Jobs) (path : String) :
    validate jobs.unlined path = Jobs.unlined <$> validate jobs path :=
  validate_mapValues Job.unlined_sparesNeeds jobs path

/-! ## Readings under a function -/

section Readings
variable {α β γ δ : Type}

/-- Two readings note the same, and what they come to has one image. -/
def SameUnder (f : α → γ) (first second : Normalizing α) : Prop :=
  f <$> first = f <$> second

variable {f : α → γ} {g : β → δ} {first second : Normalizing α}

theorem SameUnder.noted_eq (same : SameUnder f first second) : noted first = noted second := by
  rw [← noted_map f first, same, noted_map]

theorem SameUnder.outcome_eq (same : SameUnder f first second) :
    f <$> outcome first = f <$> outcome second := by
  rw [← outcome_map, same, outcome_map]

theorem sameUnder_of (sameNoted : noted first = noted second)
    (sameOutcome : f <$> outcome first = f <$> outcome second) : SameUnder f first second :=
  reading_ext (by rw [outcome_map, outcome_map, sameOutcome])
    (by rw [noted_map, noted_map, sameNoted])

theorem SameUnder.refl (f : α → γ) (reading : Normalizing α) : SameUnder f reading reading := rfl

theorem SameUnder.of_eq (same : first = second) : SameUnder f first second :=
  congrArg (f <$> ·) same

theorem sameUnder_pure {a b : α} (same : f a = f b) : SameUnder f (pure a) (pure b) := by
  rw [SameUnder, map_pure, map_pure, same]

theorem SameUnder.of_read {read : Normalizing γ} (here : read = f <$> first)
    (there : read = f <$> second) : SameUnder f first second :=
  here.symm.trans there

theorem SameUnder.bind {next other : α → Normalizing β} (same : SameUnder f first second)
    (later : ∀ a b, outcome first = .ok a → outcome second = .ok b → f a = f b →
      SameUnder g (next a) (other b)) : SameUnder g (first >>= next) (second >>= other) := by
  have outcomes := same.outcome_eq
  have notes := same.noted_eq
  -- Both readings fail with one failure, or both go on.
  cases found : outcome first with
  | error failure =>
    cases foundToo : outcome second with
    | ok b =>
      rw [found, foundToo] at outcomes
      cases outcomes
    | error again =>
      rw [found, foundToo] at outcomes
      refine sameUnder_of ?_ ?_
      · rw [noted_bind_of_error found, noted_bind_of_error foundToo, notes]
      · rw [outcome_bind, outcome_bind, found, foundToo]
        cases outcomes
        rfl
  | ok a =>
    cases foundToo : outcome second with
    | error failure =>
      rw [found, foundToo] at outcomes
      cases outcomes
    | ok b =>
      rw [found, foundToo] at outcomes
      have nexts := later a b found foundToo (Except.ok.inj outcomes)
      refine sameUnder_of ?_ ?_
      · rw [noted_bind_of_ok found, noted_bind_of_ok foundToo, notes, nexts.noted_eq]
      · rw [outcome_bind, outcome_bind, found, foundToo]
        exact nexts.outcome_eq

theorem SameUnder.bindOption {first second : Normalizing (Option α)}
    {next other : Option α → Normalizing β}
    (same : SameUnder (Option.map f) first second) (absent : SameUnder g (next none) (other none))
    (present : ∀ a b, outcome first = .ok (some a) → outcome second = .ok (some b) → f a = f b →
      SameUnder g (next (some a)) (other (some b))) :
    SameUnder g (first >>= next) (second >>= other) := by
  refine same.bind fun found foundToo read readToo images => ?_
  cases found with
  | none =>
    cases foundToo with
    | none => exact absent
    | some b => cases images
  | some a =>
    cases foundToo with
    | none => cases images
    | some b => exact present a b read readToo (Option.some.inj images)

theorem SameUnder.map {h : α → β} {k : γ → δ} (same : SameUnder f first second)
    (image : ∀ a, g (h a) = k (f a)) : SameUnder g (h <$> first) (h <$> second) := by
  have mapped (reading : Normalizing α) : g <$> h <$> reading = k <$> f <$> reading := by
    simp only [Functor.map_map, image]
  rw [SameUnder, mapped, mapped, same]

theorem SameUnder.of_noted {x y : Noted α} (same : f <$> x = f <$> y) :
    SameUnder f (liftM x : Normalizing α) (liftM y : Normalizing α) := by
  rw [SameUnder, ← liftM_map_noted, same, liftM_map_noted]

theorem SameUnder.of_fault {x y : Except Fault α} (same : f <$> x = f <$> y) :
    SameUnder f (liftM x : Normalizing α) (liftM y : Normalizing α) := by
  rw [SameUnder, ← liftM_map_fault, same, liftM_map_fault]

theorem SameUnder.of_failure {x y : Except Failure α} (same : f <$> x = f <$> y) :
    SameUnder f (liftM x : Normalizing α) (liftM y : Normalizing α) := by
  have lifted (x : Except Failure α) :
      f <$> (liftM x : Normalizing α) = (liftM (f <$> x) : Normalizing γ) := by cases x <;> rfl
  rw [SameUnder, lifted, same, lifted]

end Readings

/-! ## Files -/

def unlinedDocuments (content : List UInt8) : Yaml.Reading (List Value) :=
  List.map Value.unlined <$> Yaml.load content

/-- Contents whose documents differ in nothing but lines. -/
def LoadAlike (first second : List UInt8) : Prop :=
  unlinedDocuments first = unlinedDocuments second

/-- Resolvers that give files whose documents differ in nothing but lines. -/
def FilesAlike (first second : Resolver) : Prop :=
  ∀ target, Option.map unlinedDocuments <$> first target =
    Option.map unlinedDocuments <$> second target

theorem FilesAlike.refl (resolve : Resolver) : FilesAlike resolve resolve :=
  fun _ => rfl

theorem documents_sameUnder (path : String) {first second : List UInt8}
    (alike : LoadAlike first second) :
    SameUnder (Option.map (List.map Value.unlined)) (Source.documents path first)
      (Source.documents path second) := by
  unfold LoadAlike unlinedDocuments at alike
  unfold Source.documents
  cases load : Yaml.load first with
  | ok values =>
    cases loadToo : Yaml.load second with
    | ok others =>
      rw [load, loadToo] at alike
      exact sameUnder_pure (congrArg some (Except.ok.inj alike))
    | error failure =>
      rw [load, loadToo] at alike
      cases alike
  | error failure =>
    cases loadToo : Yaml.load second with
    | ok others =>
      rw [load, loadToo] at alike
      cases alike
    | error again =>
      rw [load, loadToo] at alike
      obtain rfl := Except.error.inj alike
      exact .refl _ _

theorem mapping_unlined (path : String) (values : List Value) :
    Source.mapping path (values.map Value.unlined) =
      Option.map Value.unlinedEntries <$> Source.mapping path values := by
  cases values with
  | nil => rfl
  | cons value rest => cases value <;> rfl

end SupplyLint
