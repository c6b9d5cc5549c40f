import SupplyLint.Pipeline.Document
import SupplyLint.Proofs.Outcome

/-! # What documents cannot be read for

Nothing that goes wrong with the content of a document is a failure of the
configuration or of a repository: where the files of the repository are read or
refused with a fault, so are the documents. -/
set_option autoImplicit false

namespace SupplyLint

/-! ## Faults as the only failures -/

/-- A computation gives a result or meets a fault that nothing catches. -/
def FaultsOnly {α : Type} (x : Except Failure α) : Prop :=
  ∀ failure, x = .error failure → ∃ fault, failure = .fault fault

section FaultsOnly
variable {α β : Type}

@[simp] theorem faultsOnly_ok (a : α) : FaultsOnly (.ok a) := nofun

@[simp] theorem faultsOnly_pure (a : α) : FaultsOnly (pure a) := nofun

@[simp] theorem faultsOnly_fault (fault : Fault) : FaultsOnly
    (.error (.fault fault) : Except Failure α) := by
  rintro _ ⟨⟩
  exact ⟨fault, rfl⟩

@[simp] theorem faultsOnly_uncaught (x : Except Fault α) : FaultsOnly (uncaught x) := by
  cases x with
  | error fault => exact faultsOnly_fault fault
  | ok a => exact faultsOnly_ok a

@[simp] theorem faultsOnly_bind {first : Except Failure α} {next : α → Except Failure β} :
    FaultsOnly (first >>= next) ↔
      FaultsOnly first ∧ ∀ a, first = .ok a → FaultsOnly (next a) := by
  cases first with
  | error failure =>
    refine ⟨fun faults => ⟨?_, nofun⟩, fun ⟨faults, _⟩ => ?_⟩
    · rintro _ ⟨⟩
      exact faults failure rfl
    · rintro _ ⟨⟩
      exact faults failure rfl
  | ok a =>
    refine ⟨fun faults => ⟨faultsOnly_ok a, ?_⟩, fun ⟨_, faults⟩ => faults a rfl⟩
    rintro _ ⟨⟩
    exact faults

@[simp] theorem faultsOnly_map {x : Except Failure α} {f : α → β} :
    FaultsOnly (f <$> x) ↔ FaultsOnly x := by
  rw [← bind_pure_comp, faultsOnly_bind]
  exact and_iff_left fun a _ => faultsOnly_pure (f a)

@[simp] theorem faultsOnly_mapM {items : List α} {step : α → Except Failure β}
    (each : ∀ item, FaultsOnly (step item)) : FaultsOnly (items.mapM step) := by
  induction items with
  | nil => exact faultsOnly_pure []
  | cons item rest ih => simp [List.mapM_cons, each, ih]

@[simp] theorem faultsOnly_forM {items : List α} {step : α → Except Failure PUnit}
    (each : ∀ item, FaultsOnly (step item)) : FaultsOnly (forM items step) := by
  induction items with
  | nil => exact faultsOnly_pure _
  | cons item rest ih => simp [List.forM_cons, each, ih]

end FaultsOnly

@[simp] theorem faultsOnly_documents (path : String) (content : List UInt8) :
    FaultsOnly (outcome (Source.documents path content)) := by
  unfold Source.documents
  rcases Yaml.load content with (_ | fault) | values
  · exact faultsOnly_ok _
  · exact faultsOnly_fault fault
  · exact faultsOnly_ok _

/-! ## Workflows -/

namespace Github

theorem faultsOnly_noteKeys (isKnown : Value → Bool) (note : String → Noted Unit) (raw : Entries) :
    FaultsOnly (outcome (forM raw fun entry => do
      if !isKnown entry.1 then
        let key ← entry.1.toText
        note key)) := by
  rw [outcome_forM]
  refine faultsOnly_forM fun entry => ?_
  split <;> simp

@[simp] theorem faultsOnly_noteUnknownKeys (words : List String) (what path location : String)
    (raw : Entries) : FaultsOnly (outcome (noteUnknownKeys words what path location raw)) :=
  faultsOnly_noteKeys _ _ raw

@[simp] theorem faultsOnly_triggers (path : String) (raw : Value) :
    FaultsOnly (outcome (triggers path raw)) := by
  have written : FaultsOnly (outcome (writtenTriggers path raw)) := by
    unfold writtenTriggers
    split <;> simp
  simp only [triggers, outcome_bind, List.forM_eq_forM, outcome_forM, outcome_pure, faultsOnly_bind]
  refine ⟨written, fun triggers _ =>
    ⟨faultsOnly_forM fun trigger => ?_, fun _ _ => faultsOnly_ok _⟩⟩
  split <;> simp

@[simp] theorem faultsOnly_permissions (path location : String) (raw : Value) :
    FaultsOnly (outcome (permissions path location raw)) := by
  unfold permissions
  split <;> simp

@[simp] theorem faultsOnly_step (path job : String) (position : Nat) (raw : Value) :
    FaultsOnly (outcome (step path job position raw)) := by
  unfold step
  split
  · simp only [outcome_bind, faultsOnly_bind, faultsOnly_noteUnknownKeys, true_and]
    intro _ _
    split <;> simp
  · simp

@[simp] theorem faultsOnly_steps (path job : String) (raw : Value) :
    FaultsOnly (outcome (steps path job raw)) := by
  have each (position : Nat) (items : List Value) :
      FaultsOnly (outcome (stepsFrom path job position items)) := by
    induction items generalizing position with
    | nil => exact faultsOnly_ok _
    | cons raw rest ih => simp [stepsFrom, ih]
  unfold steps
  split
  · simp
  · split <;> simp [each]

@[simp] theorem faultsOnly_job (path name : String) (index : Nat) (raw : Entries) :
    FaultsOnly (outcome (job path name index raw)) := by
  simp [job]

section Calls
variable {follow : Follow}
  (follows : ∀ path caller target, FaultsOnly (outcome (follow path caller target)))
include follows

theorem faultsOnly_parseJobs (path : String) (entries : Entries) (jobs : Jobs) :
    FaultsOnly (outcome (parseJobs follow path entries jobs)) := by
  induction entries generalizing jobs with
  | nil => exact faultsOnly_ok _
  | cons entry rest ih =>
    obtain ⟨key, raw⟩ := entry
    simp only [parseJobs, outcome_bind, outcome_fault, faultsOnly_bind,
      faultsOnly_uncaught, true_and]
    intro name _
    split
    · simp only [outcome_bind, faultsOnly_bind, faultsOnly_job, true_and]
      intro written _
      split
      · exact ih _
      · simp only [outcome_bind, faultsOnly_bind]
        refine ⟨follows _ _ _, fun called _ => ?_⟩
        split <;> exact ih _
    · simp [ih]

theorem faultsOnly_workflowWith (path : String) (raw : Entries) :
    FaultsOnly (outcome (workflowWith follow path raw)) := by
  have jobs (raw : Value) : FaultsOnly (outcome (jobsOf follow path raw)) := by
    unfold jobsOf
    split
    · simp
    · simp [faultsOnly_parseJobs follows]
    · simp
  have keys := faultsOnly_noteKeys isWorkflowKey
    (fun key => Noted.note .unknownField path ("unknown workflow key '" ++ key ++ "'") key) raw
  simp only [workflowWith, outcome_bind, faultsOnly_bind]
  refine ⟨keys, ?_⟩
  simp [jobs]

end Calls

variable {resolve : Resolver} (lookups : ∀ path, FaultsOnly (resolve path))
include lookups

theorem faultsOnly_openTarget (path : String) (caller : Job) (target : String) :
    FaultsOnly (outcome (openTarget resolve path caller target)) := by
  simp only [openTarget, outcome_bind, outcome_failure, faultsOnly_bind]
  refine ⟨lookups target, fun found _ => ?_⟩
  split
  · simp
  · simp only [outcome_bind, faultsOnly_bind, faultsOnly_documents, true_and]
    intro values _
    split <;> simp

theorem faultsOnly_workflow (room : Nat) (chain : List String) (path : String) (raw : Entries) :
    FaultsOnly (outcome (workflow resolve room chain path raw)) := by
  have refuses (path : String) (caller : Job) (target : String) :
      FaultsOnly (outcome (refuseCall path caller target)) := by simp [refuseCall]
  induction room generalizing chain path raw with
  | zero => exact faultsOnly_workflowWith refuses path raw
  | succ room ih =>
    refine faultsOnly_workflowWith (fun path caller target => ?_) path raw
    split
    · exact refuses path caller target
    · simp only [outcome_bind, faultsOnly_bind]
      refine ⟨faultsOnly_openTarget lookups path caller target, fun found _ => ?_⟩
      split <;> simp [ih]

theorem faultsOnly_normalize (path : String) (content : List UInt8) :
    FaultsOnly (outcome (normalize resolve path content)) := by
  have action (raw : Entries) : FaultsOnly (outcome (actionMetadata path raw)) := by
    have jobs : FaultsOnly (outcome (actionJobs path raw)) := by
      unfold actionJobs
      split
      · simp only [outcome_bind, outcome_fault, faultsOnly_bind, faultsOnly_uncaught, true_and]
        intro kind _
        split
        · simp
        · split <;> simp
      · simp
    simp [actionMetadata, jobs]
  simp only [normalize, outcome_bind, faultsOnly_bind, faultsOnly_documents, true_and]
  intro values _
  split
  · simp
  · simp only [outcome_bind, outcome_noted, faultsOnly_bind, faultsOnly_ok, true_and]
    intro entries _
    split
    · simp
    · split
      · exact action _
      · exact faultsOnly_workflow lookups _ _ _ _

end Github

namespace Gitlab

@[simp] theorem faultsOnly_configuration (path : String) (content : List UInt8) :
    FaultsOnly (outcome (configuration path content)) := by
  simp only [configuration, outcome_bind, faultsOnly_bind, faultsOnly_documents, true_and]
  intro values _
  split <;> simp

section Merging
variable {enter : String → Normalizing (Option Merged)}
  (enters : ∀ target, FaultsOnly (outcome (enter target)))
include enters

theorem faultsOnly_mergeList (path : String) (items : List Value) (merged : Merged) :
    FaultsOnly (outcome (mergeList enter path items merged)) := by
  induction items generalizing merged with
  | nil => exact faultsOnly_ok _
  | cons item rest ih =>
    simp only [mergeList, outcome_bind, outcome_fault, faultsOnly_bind,
      faultsOnly_uncaught, true_and]
    intro found _
    split
    · simp only [outcome_bind, faultsOnly_bind]
      refine ⟨enters _, fun file _ => ?_⟩
      split <;> exact ih _
    · exact ih _
    · simp [ih]
    · simp [ih]

theorem faultsOnly_mergeWith (path : String) (raw : Entries) :
    FaultsOnly (outcome (mergeWith enter path raw)) := by
  unfold mergeWith
  split
  · simp
  · simp [faultsOnly_mergeList enters]

theorem faultsOnly_childFiles (path location : String) (items : List Value) (files : ChildFiles) :
    FaultsOnly (outcome (childFiles enter path location items files)) := by
  induction items generalizing files with
  | nil => exact faultsOnly_ok _
  | cons item rest ih =>
    simp only [childFiles, outcome_bind, outcome_fault, faultsOnly_bind,
      faultsOnly_uncaught, true_and]
    intro found _
    split
    · simp only [outcome_bind, faultsOnly_bind]
      refine ⟨enters _, fun file _ => ?_⟩
      split
      · exact ih _
      · simp [ih]
    · exact ih _
    · simp [ih]
    · simp [ih]

end Merging

/-! ### Jobs -/

theorem faultsOnly_resolveExtends (jobs : RawJobs) (path name : String) :
    FaultsOnly (outcome (resolveExtends jobs path name)) := by
  have bases {resolveBase : String → Normalizing Entries}
      (resolves : ∀ base, FaultsOnly (outcome (resolveBase base))) (name : String)
      (way bases : List String) (merged : Entries) :
      FaultsOnly (outcome (mergeBases resolveBase jobs path name way bases merged)) := by
    induction bases generalizing merged with
    | nil => exact faultsOnly_ok _
    | cons base rest ih =>
      unfold mergeBases
      split
      · simp [ih]
      · split <;> simp [ih, resolves]
  have within (budget : Nat) (above : List String) (name : String) :
      FaultsOnly (outcome (resolveWithin jobs path budget above name)) := by
    induction budget generalizing above name with
    | zero => exact faultsOnly_ok _
    | succ budget ih => simp [resolveWithin, bases (ih _)]
  exact within _ _ _

@[simp] theorem faultsOnly_job (path name : String) (index : Nat) (raw defaults : Entries) :
    FaultsOnly (outcome (job path name index raw defaults)) := by
  have waits (raw : Value) : FaultsOnly (outcome (needs path name raw)) := by
    unfold needs
    split
    · simp
    · split <;> simp
  unfold job
  split <;> simp [waits]

variable {resolve : Resolver} (lookups : ∀ path, FaultsOnly (resolve path))
include lookups

theorem faultsOnly_enterWith (path : String) {merging : Option Merging}
    (merges : ∀ merge ∈ merging, ∀ chain raw, FaultsOnly (outcome (merge chain raw)))
    (chain : List String) (written : String) :
    FaultsOnly (outcome (enterWith resolve path merging chain written)) := by
  unfold enterWith
  dsimp only
  split
  · simp
  · split
    · next merge _ =>
      simp only [outcome_bind, outcome_failure, faultsOnly_bind]
      refine ⟨lookups _, fun found _ => ?_⟩
      split
      · simp
      · simp only [outcome_bind, faultsOnly_bind, faultsOnly_configuration, true_and]
        intro entries _
        split
        · simp
        · simp [merges merge rfl]
    · simp

theorem faultsOnly_merge (path : String) (room : Nat) (chain : List String) (raw : Entries) :
    FaultsOnly (outcome (merge resolve path room chain raw)) := by
  induction room generalizing chain raw with
  | zero => exact faultsOnly_mergeWith (faultsOnly_enterWith lookups path (by simp) chain) path raw
  | succ room ih =>
    refine faultsOnly_mergeWith (faultsOnly_enterWith lookups path ?_ chain) path raw
    rintro _ ⟨⟩
    exact ih

theorem faultsOnly_enter (path : String) (chain : List String) (written : String) :
    FaultsOnly (outcome (enter resolve path chain written)) := by
  unfold enter
  split
  · exact faultsOnly_enterWith lookups path (by simp) chain written
  · refine faultsOnly_enterWith lookups path ?_ chain written
    rintro _ ⟨⟩
    exact faultsOnly_merge lookups path _

section Parsing
variable {parse : Option Parsing}
  (parses : ∀ read ∈ parse, ∀ chain path origins raw,
    FaultsOnly (outcome (read chain path origins raw)))
include parses

theorem faultsOnly_addJob (chain : List String) (path jobPath : String) (written : Job)
    (raw : Entries) (gathered : Gathered) :
    FaultsOnly (outcome (addJob resolve parse chain path jobPath written raw gathered)) := by
  have child (caller : String) (includes : Value) (gathered : Gathered) :
      FaultsOnly (outcome (inlineChild resolve parse chain path caller includes gathered)) := by
    simp only [inlineChild, outcome_bind, faultsOnly_bind]
    refine ⟨faultsOnly_childFiles (faultsOnly_enter lookups path chain) _ _ _ _, fun files _ => ?_⟩
    split
    · next read _ first _ _ => simp [parses read rfl]
    · simp
  unfold addJob
  split
  · simp
  · simp only [outcome_bind, outcome_fault, faultsOnly_bind, faultsOnly_uncaught, true_and]
    intro downstream _
    split
    · simp
    · exact child _ _ _
    · simp

theorem faultsOnly_gatherWith (chain : List String) (path : String) (origins : Keyed String String)
    (raw : Entries) : FaultsOnly (outcome (gatherWith resolve parse chain path origins raw)) := by
  have adds (defaults : Entries) (all jobs : RawJobs) (gathered : Gathered) :
      FaultsOnly (outcome
        (addJobs resolve parse chain path origins defaults all jobs gathered)) := by
    induction jobs generalizing gathered with
    | nil => exact faultsOnly_ok _
    | cons entry rest ih =>
      obtain ⟨name, value⟩ := entry
      unfold addJobs
      split
      · exact ih _
      · split
        · simp [faultsOnly_resolveExtends, faultsOnly_addJob lookups parses, ih]
        · simp [ih]
  simp [gatherWith, adds]

end Parsing

theorem faultsOnly_gather (levels : Nat) (chain : List String) (path : String)
    (origins : Keyed String String) (raw : Entries) :
    FaultsOnly (outcome (gather resolve levels chain path origins raw)) := by
  induction levels generalizing chain path origins raw with
  | zero => exact faultsOnly_gatherWith lookups (by simp) chain path origins raw
  | succ levels ih =>
    refine faultsOnly_gatherWith lookups ?_ chain path origins raw
    rintro _ ⟨⟩
    exact ih

theorem faultsOnly_normalize (path : String) (content : List UInt8) :
    FaultsOnly (outcome (normalize resolve path content)) := by
  simp only [normalize, outcome_bind, faultsOnly_bind, faultsOnly_configuration, true_and]
  intro entries _
  split
  · simp
  · simp [faultsOnly_merge lookups, faultsOnly_gather lookups]

end Gitlab

namespace Document
variable {resolve : Resolver}

theorem faultsOnly_pipeline (lookups : ∀ path, FaultsOnly (resolve path)) {document : Document}
    (known : document.platform = .github ∨ document.platform = .gitlab) :
    FaultsOnly (outcome (document.pipeline resolve)) := by
  unfold pipeline
  rcases known with platform | platform
  · rw [platform]
    exact Github.faultsOnly_normalize lookups document.path document.content
  · rw [platform]
    exact Gitlab.faultsOnly_normalize lookups document.path document.content

theorem faultsOnly_readEach (lookups : ∀ path, FaultsOnly (resolve path))
    {documents : List Document}
    (known : ∀ document ∈ documents, document.platform = .github ∨ document.platform = .gitlab)
    (before : Normalized) : FaultsOnly (readEach resolve documents before) := by
  induction documents generalizing before with
  | nil => exact faultsOnly_ok _
  | cons document rest ih =>
    have here := faultsOnly_pipeline lookups (known document List.mem_cons_self)
    rw [readEach]
    unfold outcome at here
    generalize (document.pipeline resolve).run = read at here ⊢
    rcases read with ⟨failure | pipeline, problems⟩
    · obtain ⟨fault, rfl⟩ := here failure rfl
      exact faultsOnly_fault fault
    · exact ih (fun other later => known other (List.mem_cons_of_mem _ later)) _

/-- Documents of the two platforms, where other files of the repository are refused with faults
only. -/
theorem faultsOnly_readAll (lookups : ∀ path, FaultsOnly (resolve path)) {documents : List Document}
    (known : ∀ document ∈ documents, document.platform = .github ∨ document.platform = .gitlab) :
    FaultsOnly (readAll documents resolve) := by
  refine faultsOnly_readEach (fun path => ?_) (fun document inside => ?_) {}
  · unfold resolver
    split
    · exact faultsOnly_ok _
    · exact lookups path
  · exact known document (List.mem_mergeSort.mp inside)

end Document

end SupplyLint
