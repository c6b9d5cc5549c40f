import SupplyLint.Proofs.Github.Origins
import SupplyLint.Proofs.Sifted
import SupplyLint.Proofs.Merge

/-! # Steps in their places

A step of a workflow has a place in it. `StepPlace.job_changesTo`: a malformed
value in that place takes the step out of its job and leaves alone everything else
that is read of the job, but for what is noted at the step. -/
set_option autoImplicit false

namespace SupplyLint.Github

open SupplyLint.Value (AllShort)
open SupplyLint.Yaml (lineKey)

/-! ## Places of steps -/

/-- A step of a workflow: an item of the list of steps of one of its jobs. -/
structure StepPlace (raw : Entries) where
  before : Entries
  key : Value
  job : Entries
  after : Entries
  earlier : List Value
  step : Value
  later : List Value
  jobs : raw.get? (.text "jobs") = some (.map (before ++ (key, .map job) :: after))
  isJob : (key == .text lineKey) = false
  steps : job.get? (.text "steps") = some (.list (earlier ++ step :: later))

namespace StepPlace
variable {raw : Entries} (place : StepPlace raw)

def position : Nat :=
  place.earlier.length

def jobWith (value : Value) : Entries :=
  place.job.put (.text "steps") (.list (place.earlier ++ value :: place.later))

def replaced (value : Value) : Entries :=
  raw.put (.text "jobs")
    (.map (place.before ++ (place.key, .map (place.jobWith value)) :: place.after))

end StepPlace

/-- A value that is no mapping, or a mapping that has both an action and a script or has neither. -/
def isMalformed : Value → Bool
  | .map entries => (Value.field entries "uses").isNull == (Value.field entries "run").isNull
  | _ => true

def elsewhere (path job : String) (position : Nat) (problem : Problem) : Bool :=
  !(problem.path == path && problem.location == stepLocation job position)

/-! ## One step -/

section Step
variable {path job : String} {position : Nat} {raw : Value}

theorem elsewhere_at (kind : ProblemKind) (message : String) :
    elsewhere path job position ⟨kind, path, message, stepLocation job position⟩ = false := by
  simp [elsewhere]

theorem allDropped_step (path job : String) (position : Nat) (raw : Value) :
    AllDropped (elsewhere path job position) (step path job position raw) := by
  have keys (entries : Entries) : AllDropped (elsewhere path job position)
      (noteUnknownKeys stepKeys "step" path (stepLocation job position) entries) := by
    refine allDropped_forM fun entry => ?_
    split
    · exact (allDropped_fault _).bind fun key => allDropped_note (elsewhere_at _ _)
    · exact allDropped_pure _
  have leftOut (message : String) : AllDropped (elsewhere path job position)
      (do Noted.note .unknownField path message (stepLocation job position)
          return (none : Option Step)) :=
    (allDropped_note (elsewhere_at _ _)).bind fun _ => allDropped_pure none
  cases raw with
  | map entries =>
    refine (keys entries).bind fun _ => ?_
    dsimp only
    split
    · exact leftOut _
    · exact (allDropped_fault _).bind fun env => (allDropped_fault _).bind fun action =>
        allDropped_pure _
  | _ => exact leftOut _

theorem none_of_malformed (malformed : isMalformed raw = true) {found : Option Step}
    (read : outcome (step path job position raw) = .ok found) : found = none := by
  cases raw with
  | map entries =>
    simp only [step, outcome_bind, bind_eq_ok] at read
    obtain ⟨-, -, read⟩ := read
    rw [isMalformed] at malformed
    rw [if_pos malformed] at read
    exact (Except.ok.inj read).symm
  | _ => exact (Except.ok.inj read).symm

theorem outcome_step_of_malformed (malformed : isMalformed raw = true)
    (short : AllShort (stepValues raw)) : outcome (step path job position raw) = .ok none := by
  obtain ⟨found, read⟩ := (returns_step path job position raw).mpr short
  obtain rfl := none_of_malformed malformed read
  exact read

theorem step_changesTo {other : Value} (returned : Returns (outcome (step path job position raw)))
    (malformed : isMalformed other = true) (short : AllShort (stepValues other)) :
    ChangesTo (elsewhere path job position) (fun _ => none) (step path job position raw)
      (step path job position other) := by
  obtain ⟨found, read⟩ := returned
  have readToo : outcome (step path job position other) = .ok none :=
    outcome_step_of_malformed malformed short
  have dropped := allDropped_step path job position
  rw [ChangesTo, sifted_eq_pure read (dropped raw), sifted_eq_pure readToo (dropped other)]
  rfl

end Step

theorem stepsFrom_append (path job : String) (first second : List Value) (position : Nat) :
    stepsFrom path job position (first ++ second) = (do
      let earlier ← stepsFrom path job position first
      let later ← stepsFrom path job (position + first.length) second
      return earlier ++ later) := by
  induction first generalizing position with
  | nil => simp [stepsFrom]
  | cons raw rest ih =>
    have next : position + 1 + rest.length = position + (rest.length + 1) := by omega
    simp only [List.cons_append, stepsFrom, ih, List.length_cons, bind_assoc, pure_bind, next,
      List.append_assoc]

def without (position : Nat) (found : List Step) : List Step :=
  found.filter fun step => step.position != position

theorem without_of_ne {position : Nat} {found : List Step}
    (others : ∀ step ∈ found, step.position ≠ position) : without position found = found := by
  refine List.filter_eq_self.mpr fun step member => ?_
  simpa using others step member

theorem stepsFrom_changesTo {path job : String} (earlier later : List Value) {raw other : Value}
    (returned : Returns (outcome (step path job earlier.length raw)))
    (malformed : isMalformed other = true) (short : AllShort (stepValues other)) :
    ChangesTo (elsewhere path job earlier.length) (without earlier.length)
      (stepsFrom path job 0 (earlier ++ raw :: later))
      (stepsFrom path job 0 (earlier ++ other :: later)) := by
  simp only [stepsFrom_append, stepsFrom, Nat.zero_add, bind_assoc, pure_bind]
  refine changesTo_bind fun first firstRead => ?_
  refine (step_changesTo returned malformed short).bind fun own ownRead => ?_
  refine changesTo_bind fun others othersRead => changesTo_pure ?_
  have firstKept : without earlier.length first = first := by
    refine without_of_ne fun step member => ?_
    have bound := (readFrom_stepsFrom earlier firstRead).bounds step member
    omega
  have othersKept : without earlier.length others = others := by
    refine without_of_ne fun step member => ?_
    have bound := (readFrom_stepsFrom later othersRead).bounds step member
    omega
  have ownDropped : without earlier.length own.toList = [] := by
    cases own with
    | none => rfl
    | some step =>
      obtain ⟨-, -, here, -⟩ := step_at ownRead
      simp [without, here]
  unfold without at firstKept othersKept ownDropped
  rw [without, List.filter_append, List.filter_append, firstKept, othersKept, ownDropped]
  rfl

/-! ## The job -/

def dropStep (position : Nat) (job : Job) : Job :=
  { job with steps := without position job.steps }

theorem field_put_text {entries : Entries} {name other : String} (differs : name ≠ other)
    (value : Value) :
    Value.field (entries.put (.text name) value) other = Value.field entries other := by
  unfold Value.field
  rw [Field.get?_put_text]
  simpa using differs

theorem field_put_self (entries : Entries) (name : String) (value : Value) :
    Value.field (entries.put (.text name) value) name = value := by
  unfold Value.field
  rw [Keyed.get?_put_of_beq (Value.text_beq_iff.mpr rfl)]
  rfl

theorem line_put_text (entries : Entries) {name : String}
    (differs : name ≠ lineKey) (value : Value) :
    Field.line (.map (entries.put (.text name) value)) = Field.line (.map entries) := by
  simp only [Field.line, Field.lineEntry, field_put_text differs]

namespace StepPlace
variable {raw : Entries} (place : StepPlace raw) {path name : String}

/-- A malformed value can be read in place of a step, as the step itself can. -/
structure Breaks (path name : String) (value : Value) : Prop where
  reads : Returns (outcome (Github.step path name place.position place.step))
  malformed : isMalformed value = true
  short : AllShort (stepValues value)

theorem keys_jobWith (value : Value) : (place.jobWith value).keys = place.job.keys :=
  Keyed.keys_put_of_get? place.steps _

theorem field_jobWith (value : Value) {other : String} (differs : "steps" ≠ other) :
    Value.field (place.jobWith value) other = Value.field place.job other :=
  field_put_text differs _

theorem images_jobWith (value : Value) : images (place.jobWith value) = images place.job := by
  simp (disch := decide) only [images, field_jobWith]

theorem steps_changesTo {value : Value} (breaks : place.Breaks path name value) :
    ChangesTo (elsewhere path name place.position) (without place.position)
      (Github.steps path name (Value.field place.job "steps"))
      (Github.steps path name (Value.field (place.jobWith value) "steps")) := by
  have listed (item : Value) :
      Github.steps path name (.list (place.earlier ++ item :: place.later)) =
        stepsFrom path name 0 (place.earlier ++ item :: place.later) := by
    simp [Github.steps, Value.present]
  have own : Value.field place.job "steps" = .list
      (place.earlier ++ place.step :: place.later) := by
    rw [Value.field, place.steps]
    rfl
  rw [jobWith, field_put_self, own, listed, listed]
  exact stepsFrom_changesTo place.earlier place.later breaks.reads breaks.malformed breaks.short

theorem job_changesTo {value : Value} (breaks : place.Breaks path name value) (index : Nat) :
    ChangesTo (elsewhere path name place.position) (dropStep place.position)
      (Github.job path name index place.job)
      (Github.job path name index (place.jobWith value)) := by
  have keys : noteUnknownKeys jobKeys "job" path ("jobs." ++ name) (place.jobWith value) =
      noteUnknownKeys jobKeys "job" path ("jobs." ++ name) place.job :=
    Keyed.forM_of_keys (fun _ _ _ => rfl) (place.keys_jobWith value)
  have line : Field.line (.map (place.jobWith value)) = Field.line (.map place.job) :=
    line_put_text place.job (by decide) _
  unfold Github.job
  simp (disch := decide) only [keys, field_jobWith, images_jobWith, line]
  refine changesTo_bind fun _ _ => ?_
  refine (place.steps_changesTo breaks).bind fun steps _ => ?_
  refine changesTo_bind fun uses _ => changesTo_bind fun labels _ => changesTo_bind fun granted _ =>
    changesTo_bind fun env _ => changesTo_bind fun needs _ => changesTo_pure rfl

end StepPlace

end SupplyLint.Github
