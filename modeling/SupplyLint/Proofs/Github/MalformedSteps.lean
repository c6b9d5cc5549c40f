import SupplyLint.Proofs.Github.Isolation

/-! # Malformed steps are left out

`malformed_step_is_left_out_iff`: a malformed value in place of a step of a
workflow costs the pipeline that step and no more, exactly if its unknown keys have
a text; and the position of every step of a pipeline is the place of its item. -/
set_option autoImplicit false

namespace SupplyLint.Github

open SupplyLint.Jobs
open SupplyLint.Value (AllShort)

/-- The steps of a job are those of a list in a file that is reached from a file by calls, or in
that file itself, each at the place of its item. -/
def StepsInPlace (resolve : Resolver) (file : File) (found : Job) : Prop :=
  ∃ last key mapping, Relation.ReflTransGen (Opens Calls (opened resolve)) file last ∧
    last.chain.getLast? = some found.originPath ∧
    (key, .map mapping) ∈ Field.entries (Value.field last.entries "jobs") ∧
    key.toText = .ok found.originName ∧
    ReadFrom found.originPath found.originName 0
      (stepItems (Value.field mapping "steps")) found.steps

theorem StepsInPlace.of_sameSource {resolve : Resolver} {file : File} {first second : Job}
    (inPlace : StepsInPlace resolve file first) (same : first.SameSource second) :
    StepsInPlace resolve file second := by
  obtain ⟨last, key, mapping, reached, here, member, named, read⟩ := inPlace
  rw [same.originPath] at here read
  rw [same.originName] at named read
  rw [same.steps] at read
  exact ⟨last, key, mapping, reached, here, member, named, read⟩

theorem workflow_stepsInPlace {resolve : Resolver} {file : File}
    {path : String} {pipeline : Pipeline}
    (last : file.chain.getLast? = some path)
    (read : outcome (workflow resolve (maxFiles - file.chain.length) file.chain path file.entries) =
      .ok pipeline) : Every (StepsInPlace resolve file) pipeline.jobs := by
  have ofPlace (file : File) : IsOfPlace (StepsInPlace resolve file) :=
    fun _ _ same _ inPlace => inPlace.of_sameSource same
  refine every_workflow (fun file => (ofPlace file).ignoresOrder) ?_ ?_ last read
  · intro file path key mapping name index own last member named wrote
    obtain ⟨lines, uses, labels, granted, env, waited, linesRead, -, -, -, -, -, rfl⟩ :=
        job_eq_ok wrote
    exact ⟨file, key, mapping, .refl, last, member, named, readFrom_steps linesRead⟩
  · rintro file name next opens job ⟨last, key, mapping, reached, inPlace⟩
    exact ⟨last, key, mapping, .head opens.opens reached, inPlace⟩

namespace StepPlace
variable {raw : Entries} (place : StepPlace raw)

theorem replaced_self : place.replaced place.step = raw := by
  rw [replaced, jobWith, Keyed.put_of_get? place.steps, Keyed.put_of_get? place.jobs]

/-- If a workflow can be read with a value in place of a step, the name of the job and the values of
the step have a text. -/
theorem allShort_of_returns {resolve : Resolver} {path : String} {value : Value}
    (returned : Returns (outcome
      (workflow resolve (maxFiles - 1) [path] path (place.replaced value)))) :
    AllShort (place.key :: stepValues value) := by
  have readable :=
      (returns_workflow resolve ⟨[path], place.replaced value⟩ path).mp returned _ .refl
  have entry : (place.key, .map (place.jobWith value)) ∈
      Field.entries (Value.field (place.replaced value) "jobs") := by
    rw [replaced, field_put_self, entries_around]
    simp
  have own : ∀ item ∈ jobEntryValues (place.key, .map (place.jobWith value)), item.isShort = true :=
    fun item inside => readable.values item
      (List.mem_append_right _ (List.mem_flatMap.mpr ⟨_, entry, inside⟩))
  intro item inside
  refine own item ?_
  rcases List.mem_cons.mp inside with rfl | ofStep
  · exact List.mem_cons_self
  · have steps : item ∈ stepsValues (Value.field (place.jobWith value) "steps") := by
      rw [jobWith, field_put_self]
      simp [stepsValues, Value.present, ofStep]
    simp [jobEntryValues, jobValues, steps]

/-- A pipeline and its problems without a step. Where a later job has the name of the job of the
step, that job was not there before. -/
structure LacksStep (resolve : Resolver) (path name : String)
    (pipeline other : Pipeline) (problems others : List Problem) : Prop where
  fresh : ¬ place.IsOverwritten (followTop resolve path) path name →
    other = { pipeline with jobs := jobsWithoutStep name place.position pipeline.jobs }
  overwritten : place.IsOverwritten (followTop resolve path) path name → other = pipeline
  elsewhere : others.filter (elsewhere path name place.position) =
    problems.filter (elsewhere path name place.position)

theorem lacksStep_of_breaks {resolve : Resolver} {path name : String} {pipeline : Pipeline}
    {value : Value} (named : place.key.toText = .ok name) (breaks : place.Breaks path name value)
    (read : outcome (workflow resolve (maxFiles - 1) [path] path raw) = .ok pipeline) :
    ∃ other, outcome (workflow resolve (maxFiles - 1) [path] path (place.replaced value)) =
      .ok other ∧
      place.LacksStep resolve path name pipeline other
        (noted (workflow resolve (maxFiles - 1) [path] path raw))
        (noted (workflow resolve (maxFiles - 1) [path] path (place.replaced value))) := by
  have byName := followCall_byName resolve (maxFiles - 1) [path]
  rw [workflow_eq] at read
  simp only [workflow_eq]
  by_cases overwritten : place.IsOverwritten (followTop resolve path) path name
  · have changes := place.workflowWith_changesTo byName named
      (place.leaves_of_overwritten byName overwritten) breaks
    have same := changes.outcome_eq
    rw [read] at same
    exact ⟨pipeline, same, fun fresh => absurd overwritten fresh, fun _ => rfl, changes.noted_eq⟩
  · have changes := place.workflowWith_changesTo byName named
      (place.leaves_of_fresh byName overwritten) breaks
    have same := changes.outcome_eq
    rw [read] at same
    exact ⟨_, same, fun _ => rfl, fun taken => absurd taken overwritten, changes.noted_eq⟩

end StepPlace

/-- A malformed value in place of a step of a workflow leaves the step out of the pipeline and
changes nothing else, exactly if the unknown keys of the value have a text. The positions of all
steps are the places of their items. -/
theorem malformed_step_is_left_out_iff {resolve : Resolver} {path : String} {raw : Entries}
    {pipeline : Pipeline} (place : StepPlace raw) {value : Value}
    (malformed : isMalformed value = true)
    (read : outcome (workflow resolve (maxFiles - 1) [path] path raw) = .ok pipeline) :
    (∃ name, place.key.toText = .ok name ∧
      ((∃ other,
          outcome (workflow resolve (maxFiles - 1) [path] path (place.replaced value)) = .ok other ∧
          place.LacksStep resolve path name pipeline other
            (noted (workflow resolve (maxFiles - 1) [path] path raw))
            (noted (workflow resolve (maxFiles - 1) [path] path (place.replaced value)))) ↔
        AllShort (stepValues value))) ∧
      Every (StepsInPlace resolve ⟨[path], raw⟩) pipeline.jobs := by
  have returned : Returns (outcome
      (workflow resolve (maxFiles - 1) [path] path (place.replaced place.step))) := by
    rw [place.replaced_self]
    exact ⟨pipeline, read⟩
  have short := Value.allShort_cons.mp (place.allShort_of_returns returned)
  obtain ⟨name, named⟩ := (Value.returns_toText place.key).mpr short.1
  refine ⟨⟨name, named, ?_, ?_⟩, workflow_stepsInPlace rfl read⟩
  · rintro ⟨other, readToo, -⟩
    exact (Value.allShort_cons.mp (place.allShort_of_returns ⟨other, readToo⟩)).2
  · intro ownShort
    have reads := (returns_step path name place.position place.step).mpr short.2
    exact place.lacksStep_of_breaks named ⟨reads, malformed, ownShort⟩ read

/-! ## A workflow of one job -/

section OneJob
variable (earlier : List Value) (step : Value) (later : List Value)

def oneJob : Entries :=
  [(.text "jobs", .map [(.text "j", .map [(.text "steps", .list (earlier ++ step :: later))])])]

def oneJobPlace : StepPlace (oneJob earlier step later) where
  before := []
  key := .text "j"
  job := [(.text "steps", .list (earlier ++ step :: later))]
  after := []
  earlier := earlier
  step := step
  later := later
  jobs := rfl
  isJob := by decide
  steps := rfl

end OneJob

def script (text : String) : Value :=
  .map [(.text "run", .text text)]

def middlePlace : StepPlace (oneJob [script "a"] (script "b") [script "c"]) :=
  oneJobPlace [script "a"] (script "b") [script "c"]

def alone (raw : Entries) : Normalizing Pipeline :=
  workflow Source.none (maxFiles - 1) ["w.yml"] "w.yml" raw

def stepPositions (pipeline : Pipeline) : List Int :=
  pipeline.jobs.values.flatMap fun job => job.steps.map (·.position)

theorem middlePlace_reads :
    (outcome (alone (oneJob [script "a"] (script "b") [script "c"]))).toOption.map stepPositions =
      some [0, 1, 2] := by
  decide +kernel

/-- No mapping in place of a script: the scripts around it keep their positions. -/
theorem scripts_keep_positions :
    isMalformed .null = true ∧
      (∃ pipeline other, outcome (alone (middlePlace.replaced .null)) = .ok other ∧
        middlePlace.LacksStep Source.none "w.yml" "j" pipeline other
          (noted (alone (oneJob [script "a"] (script "b") [script "c"])))
          (noted (alone (middlePlace.replaced .null)))) ∧
      (outcome (alone (middlePlace.replaced .null))).toOption.map stepPositions = some [0, 2] := by
  obtain ⟨pipeline, read, -⟩ := toOption_map_eq_some.mp middlePlace_reads
  have malformed : isMalformed .null = true := rfl
  obtain ⟨⟨name, named, isolated⟩, -⟩ := malformed_step_is_left_out_iff middlePlace malformed read
  obtain rfl : "j" = name := Except.ok.inj named
  obtain ⟨other, readToo, lacks⟩ := isolated.mpr Value.allShort_nil
  exact ⟨malformed, ⟨pipeline, other, readToo, lacks⟩, by decide +kernel⟩

def longInteger : Value :=
  .int (Int.ofNat (Nat.pow 16 3600 - 1))

/-- A mapping without an action and a script, with an integer of too many digits as its one key. -/
def longKeyed : Value :=
  .map [(longInteger, .int 1)]

/-- A malformed value whose key cannot be written takes the whole pipeline with it. -/
theorem longKeyed_ends_reading :
    isMalformed longKeyed = true ∧
      Returns (outcome (alone (oneJob [script "a"] (script "b") [script "c"]))) ∧
      ¬ Returns (outcome (alone (middlePlace.replaced longKeyed))) := by
  obtain ⟨pipeline, read, -⟩ := toOption_map_eq_some.mp middlePlace_reads
  have inside : longInteger ∈ stepValues longKeyed := List.mem_cons_self
  have long : longInteger.isShort = false := by decide +kernel
  refine ⟨rfl, ⟨pipeline, read⟩, fun returned => ?_⟩
  have short := (Value.allShort_cons.mp (middlePlace.allShort_of_returns returned)).2
  exact absurd (short longInteger inside) (by simp [long])

end SupplyLint.Github
