import SupplyLint.Proofs.Scan.Exclusion

/-! # How the scan of a repository ends

`scan_ends_clean`: the work directory that is made for a scan is gone at its end,
whatever the end is; a scan that is cancelled has no outcome; and what a scan
comes to does not depend on whether it has a work directory. -/
set_option autoImplicit false

namespace SupplyLint.Scan

/-! ## Scenes -/

/-- Two scenes in which the same goes on, but for their work directories. -/
structure SameBeside (first second : Scene) : Prop where
  cancelled : first.cancelled = second.cancelled
  commands : first.commands = second.commands

theorem SameBeside.checkCancelled {first second : Scene} (same : SameBeside first second)
    (repository : String) : first.checkCancelled repository = second.checkCancelled repository := by
  unfold Scene.checkCancelled
  rw [same.cancelled]

theorem checkCancelled_of_cancelled {scene : Scene} (cancelled : scene.cancelled = true)
    (repository : String) :
    scene.checkCancelled repository = .error (Scene.cancelledFailure repository) := by
  unfold Scene.checkCancelled
  rw [if_pos cancelled]

theorem checkCancelled_of_not_cancelled {scene : Scene} (cancelled : scene.cancelled = false)
    (repository : String) : scene.checkCancelled repository = .ok () := by
  unfold Scene.checkCancelled
  rw [cancelled]
  rfl

theorem removeWorkdir_sameBeside (scene : Scene) : SameBeside scene.removeWorkdir scene := by
  unfold Scene.removeWorkdir
  split
  · exact ⟨rfl, rfl⟩
  · exact ⟨rfl, rfl⟩

theorem workdir_removeWorkdir (scene : Scene) :
    scene.removeWorkdir.workdir = if scene.workdir = .none then .none else .removed := by
  unfold Scene.removeWorkdir
  cases made : scene.workdir <;> simp [made]

section After
variable (repository : String) {first second : Scene}

theorem after_sameBeside (same : SameBeside first second) (happening : Happening) :
    SameBeside (first.after repository happening).1 (second.after repository happening).1 ∧
      (first.after repository happening).2 = (second.after repository happening).2 := by
  cases happening with
  | item item => exact ⟨same, rfl⟩
  | check =>
    refine ⟨same, ?_⟩
    simp only [Scene.after, same.checkCancelled repository]
  | cancel => exact ⟨⟨rfl, same.commands⟩, rfl⟩
  | command command => exact ⟨⟨same.cancelled, congrArg (· ++ [command]) same.commands⟩, rfl⟩
  | removeWorkdir =>
    have before := removeWorkdir_sameBeside first
    have after := removeWorkdir_sameBeside second
    exact ⟨⟨before.cancelled.trans (same.cancelled.trans after.cancelled.symm),
      before.commands.trans (same.commands.trans after.commands.symm)⟩, rfl⟩
  | fail failure => exact ⟨same, rfl⟩

theorem exists_after_of_sameBeside (same : SameBeside first second) (happening : Happening) :
    ∃ next other result, first.after repository happening = (next, result) ∧
      second.after repository happening = (other, result) ∧ SameBeside next other := by
  obtain ⟨beside, gives⟩ := after_sameBeside repository same happening
  exact ⟨_, _, _, rfl, Prod.ext rfl gives.symm, beside⟩

theorem workdir_after (scene : Scene) (happening : Happening) :
    (scene.after repository happening).1.workdir = .none ↔ scene.workdir = .none := by
  cases happening with
  | removeWorkdir =>
    show scene.removeWorkdir.workdir = .none ↔ _
    rw [workdir_removeWorkdir]
    split <;> simp_all
  | _ => exact Iff.rfl

theorem cancelled_after (scene : Scene) (happening : Happening) :
    (scene.after repository happening).1.cancelled = true ↔
      scene.cancelled = true ∨ happening = .cancel := by
  cases happening with
  | cancel => simp [Scene.after]
  | removeWorkdir =>
    show scene.removeWorkdir.cancelled = true ↔ _
    rw [(removeWorkdir_sameBeside scene).cancelled]
    simp
  | _ => simp [Scene.after]

end After

/-! ## Happenings -/

section Happenings
variable (config : Config) (repository : String)

theorem itemsOf_sameBeside (happenings : List Happening) {first second : Scene}
    (same : SameBeside first second) :
    itemsOf repository happenings first = itemsOf repository happenings second := by
  induction happenings generalizing first second with
  | nil => rfl
  | cons happening rest ih =>
    obtain ⟨next, other, item, here, there, beside⟩ :=
      exists_after_of_sameBeside repository same happening
    rw [itemsOf, itemsOf, here, there]
    cases item with
    | error failure => rfl
    | ok item =>
      dsimp only
      rw [ih beside]

theorem collect_sameBeside (happenings : List Happening) {first second : Scene}
    (same : SameBeside first second) (collected : Collected) :
    SameBeside (collect config repository happenings first collected).1
        (collect config repository happenings second collected).1 ∧
      (collect config repository happenings first collected).2 =
        (collect config repository happenings second collected).2 := by
  induction happenings generalizing first second collected with
  | nil => exact ⟨same, rfl⟩
  | cons happening rest ih =>
    obtain ⟨next, other, item, here, there, beside⟩ :=
      exists_after_of_sameBeside repository same happening
    rw [collect, collect, here, there]
    rcases item with failure | none | item
    · exact ⟨beside, rfl⟩
    · exact ih beside collected
    · dsimp only
      cases collected.add config item with
      | error fault => exact ⟨beside, rfl⟩
      | ok more => exact ih beside more

theorem workdir_collect (happenings : List Happening) (scene : Scene) (collected : Collected) :
    (collect config repository happenings scene collected).1.workdir = .none ↔
      scene.workdir = .none := by
  induction happenings generalizing scene collected with
  | nil => exact Iff.rfl
  | cons happening rest ih =>
    rw [collect, ← workdir_after repository scene happening]
    rcases scene.after repository happening with ⟨next, failure | none | item⟩
    · exact Iff.rfl
    · exact ih next collected
    · dsimp only
      cases collected.add config item with
      | error fault => exact Iff.rfl
      | ok more => exact ih next more

variable {config repository}

theorem excludes_of_add_eq_error {collected : Collected} {item : Item} {fault : Fault}
    (unmatched : collected.add config item = .error fault) :
    config.excludes item.path = .error fault := by
  unfold Collected.add at unmatched
  cases tested : config.excludes item.path with
  | error other =>
    rw [tested] at unmatched
    rw [show other = fault from Except.error.inj unmatched]
  | ok excluded =>
    rw [tested] at unmatched
    cases excluded <;> cases item <;> cases unmatched

theorem collect_eq_error (happenings : List Happening) {scene : Scene} {collected : Collected}
    {failure : Failure}
    (failed : (collect config repository happenings scene collected).2 = .error failure) :
    (itemsOf repository happenings scene).2 = some failure ∨
      ∃ item ∈ (itemsOf repository happenings scene).1, ∃ fault,
        config.excludes item.path = .error fault ∧ failure = .fault fault := by
  induction happenings generalizing scene collected with
  | nil => cases failed
  | cons happening rest ih =>
    rw [collect] at failed
    rw [itemsOf]
    rcases gives : scene.after repository happening with ⟨next, raised | none | item⟩
    all_goals rw [gives] at failed
    · obtain rfl := Except.error.inj failed
      exact Or.inl rfl
    · exact ih failed
    · dsimp only at failed ⊢
      cases added : collected.add config item with
      | error fault =>
        rw [added] at failed
        obtain rfl := Except.error.inj failed
        refine Or.inr ⟨item, by simp, fault, ?_, rfl⟩
        exact excludes_of_add_eq_error added
      | ok more =>
        rw [added] at failed
        rcases ih failed with raised | ⟨other, member, unmatched⟩
        · exact Or.inl raised
        · exact Or.inr ⟨other, by simp [member], unmatched⟩

theorem cancelled_collect (happenings : List Happening) {scene : Scene}
    {before collected : Collected}
    (found : (collect config repository happenings scene before).2 = .ok collected) :
    (collect config repository happenings scene before).1.cancelled = true ↔
      scene.cancelled = true ∨ Happening.cancel ∈ happenings := by
  induction happenings generalizing scene before with
  | nil => simp [collect]
  | cons happening rest ih =>
    have here := cancelled_after repository scene happening
    rw [List.mem_cons, ← or_assoc, @eq_comm _ Happening.cancel, ← here]
    rw [collect] at found ⊢
    rcases gives : scene.after repository happening with ⟨next, failure | none | item⟩
    all_goals rw [gives] at found
    · cases found
    · exact ih found
    · dsimp only at found ⊢
      cases added : before.add config item with
      | error fault =>
        rw [added] at found
        cases found
      | ok more =>
        rw [added] at found
        exact ih found

end Happenings

/-- The files to exclude are given by texts. -/
def ExcludesByTexts (config : Config) : Prop :=
  ∃ patterns : List String, config.exclude = .list (patterns.map .text)

theorem returns_excludes {config : Config} (texts : ExcludesByTexts config) (path : String) :
    Returns (config.excludes path) := by
  obtain ⟨patterns, exclude⟩ := texts
  have all : Returns (Config.anyPattern path (patterns.map .text)) := by
    clear exclude
    induction patterns with
    | nil => exact returns_ok _
    | cons pattern rest ih =>
      rw [List.map_cons, Config.anyPattern, Config.patternMatches, ok_bind]
      split
      · exact returns_ok _
      · exact ih
  rw [Config.excludes, exclude]
  exact all

/-! ## The end of a scan -/

/-- What a repository gives when it is asked for its files, and what it fails with. -/
def filesOf (repository : Repository) : List Item × Option Failure :=
  itemsOf repository.name (repository.documents repository.needsClone) {}

def inPlace (repository : Repository) : Repository :=
  { repository with
    needsClone := false
    documents := fun _ => repository.documents repository.needsClone }

/-- What a scan can fail with before it is found cancelled: what the repository fails with, what is
wrong with a pattern that is no text, or what the documents cannot be read for. -/
inductive FailsBefore (config : Config) (repository : Repository) : Failure → Prop
  | files {failure : Failure} (failed : (filesOf repository).2 = some failure) :
      FailsBefore config repository failure
  | patterns {item : Item} {fault : Fault} (given : item ∈ (filesOf repository).1)
      (unmatched : config.excludes item.path = .error fault) (noTexts : ¬ ExcludesByTexts config) :
      FailsBefore config repository (.fault fault)
  | reading {failure : Failure}
      (quiet : Happening.cancel ∉ repository.documents repository.needsClone)
      (unread : Document.readAll (scanned config repository) repository.read = .error failure) :
      FailsBefore config repository failure

/-- How a scan ends that is found cancelled before its call, while its files are given, or while
they are read. -/
structure EndsClean (config : Config) (rules : List Rule) (repository : Repository)
    (before cancelledThen : Bool) : Prop where
  workdir : (scanRepository config rules repository cancelledThen
    { cancelled := before }).1.workdir =
    if repository.needsClone = true ∧ before = false then .removed else .none
  cancelled : before = true ∨ Happening.cancel ∈ repository.documents repository.needsClone ∨
      cancelledThen = true →
    ∃ failure,
      (scanRepository config rules repository cancelledThen { cancelled := before }).2 =
        .error failure ∧
      (failure = Scene.cancelledFailure repository.name ∨
        before = false ∧ FailsBefore config repository failure)
  outcome : (scanRepository config rules repository cancelledThen { cancelled := before }).2 =
    (scanRepository config rules (inPlace repository) cancelledThen { cancelled := before }).2

section End
variable (config : Config) (rules : List Rule) (repository : Repository) (cancelledThen : Bool)

def opened (repository : Repository) (scene : Scene) : Scene :=
  { scene with workdir := if repository.needsClone then .present else .none }

/-- What a scan does once it has begun, before its work directory is removed. -/
def scanFrom (scene : Scene) : Scene × Except Failure Outcome :=
  match collect config repository.name (repository.documents repository.needsClone) scene {} with
  | (next, .error failure) => (next, .error failure)
  | (next, .ok collected) => finish config rules repository cancelledThen next collected

theorem scanRepository_of_cancelled {scene : Scene} (cancelled : scene.cancelled = true) :
    scanRepository config rules repository cancelledThen scene =
      (scene, .error (Scene.cancelledFailure repository.name)) := by
  rw [scanRepository, checkCancelled_of_cancelled cancelled]

theorem scanRepository_of_not_cancelled {scene : Scene} (quiet : scene.cancelled = false) :
    scanRepository config rules repository cancelledThen scene =
      ((scanFrom config rules repository cancelledThen (opened repository scene)).1.removeWorkdir,
        (scanFrom config rules repository cancelledThen (opened repository scene)).2) := by
  rw [scanRepository, checkCancelled_of_not_cancelled quiet]
  unfold scanFrom opened
  dsimp only
  rcases collect config repository.name _ _ _ with ⟨next, failure | collected⟩
  · rfl
  · rfl

theorem workdir_finish (scene : Scene) (collected : Collected) :
    (finish config rules repository cancelledThen scene collected).1.workdir = scene.workdir := by
  unfold finish
  split
  · rfl
  · rfl

theorem workdir_scanFrom (scene : Scene) :
    (scanFrom config rules repository cancelledThen scene).1.workdir = .none ↔
      scene.workdir = .none := by
  have collects := workdir_collect config repository.name
    (repository.documents repository.needsClone) scene {}
  unfold scanFrom
  generalize collect config repository.name _ scene {} = ended at collects ⊢
  obtain ⟨next, failure | collected⟩ := ended
  · exact collects
  · dsimp only
    rw [workdir_finish]
    exact collects

theorem workdir_scanRepository (before : Bool) :
    (scanRepository config rules repository cancelledThen { cancelled := before }).1.workdir =
      if repository.needsClone = true ∧ before = false then .removed else .none := by
  cases before with
  | true =>
    rw [scanRepository_of_cancelled _ _ _ _ rfl]
    simp
  | false =>
    have ends := workdir_scanFrom config rules repository cancelledThen (opened repository {})
    rw [scanRepository_of_not_cancelled _ _ _ _ rfl, workdir_removeWorkdir]
    simp only [ends]
    unfold opened
    cases repository.needsClone <;> simp

theorem finish_sameBeside {first second : Scene} (same : SameBeside first second)
    (collected : Collected) :
    (finish config rules repository cancelledThen first collected).2 =
      (finish config rules repository cancelledThen second collected).2 := by
  unfold finish
  dsimp only
  rw [same.checkCancelled]
  unfold Scene.checkCancelled
  dsimp only
  rw [same.cancelled]
  split
  · rfl
  · rfl

theorem scanRepository_inPlace (before : Bool) :
    (scanRepository config rules repository cancelledThen { cancelled := before }).2 =
      (scanRepository config rules (inPlace repository) cancelledThen
        { cancelled := before }).2 := by
  cases before with
  | true =>
    rw [scanRepository_of_cancelled _ _ _ _ rfl, scanRepository_of_cancelled _ _ _ _ rfl]
    rfl
  | false =>
    rw [scanRepository_of_not_cancelled _ _ _ _ rfl, scanRepository_of_not_cancelled _ _ _ _ rfl]
    have same : SameBeside (opened repository {}) (opened (inPlace repository) {}) := ⟨rfl, rfl⟩
    obtain ⟨beside, gives⟩ := collect_sameBeside config repository.name
      (repository.documents repository.needsClone) same {}
    unfold scanFrom
    dsimp only [inPlace] at beside gives ⊢
    generalize collect config repository.name _ (opened repository {}) {} = left at beside gives ⊢
    generalize collect config repository.name _ (opened _ {}) {} = right at beside gives ⊢
    obtain ⟨next, ended⟩ := left
    obtain ⟨other, ended⟩ := right
    obtain rfl := gives
    cases ended with
    | error failure => rfl
    | ok collected => exact finish_sameBeside config rules _ cancelledThen beside collected

theorem finish_of_cancelled {scene : Scene} {collected : Collected}
    (cancelled : scene.cancelled = true ∨ cancelledThen = true) :
    ∃ failure, (finish config rules repository cancelledThen scene collected).2 = .error failure ∧
      (failure = Scene.cancelledFailure repository.name ∨ scene.cancelled = false ∧
        Document.readAll collected.documents repository.read = .error failure) := by
  unfold finish
  cases here : scene.cancelled with
  | true =>
    rw [checkCancelled_of_cancelled here]
    exact ⟨_, rfl, Or.inl rfl⟩
  | false =>
    have later := cancelled.resolve_left (by simp [here])
    rw [checkCancelled_of_not_cancelled here]
    dsimp only
    cases read : Document.readAll collected.documents repository.read with
    | error failure => exact ⟨failure, rfl, Or.inr ⟨rfl, rfl⟩⟩
    | ok normalized =>
      refine ⟨Scene.cancelledFailure repository.name, ?_, Or.inl rfl⟩
      rw [ok_bind, checkCancelled_of_cancelled (by simp [later])]
      rfl

theorem scanRepository_cancelled (before : Bool)
    (cancelled : before = true ∨ Happening.cancel ∈ repository.documents repository.needsClone ∨
      cancelledThen = true) :
    ∃ failure,
      (scanRepository config rules repository cancelledThen { cancelled := before }).2 =
        .error failure ∧
      (failure = Scene.cancelledFailure repository.name ∨
        before = false ∧ FailsBefore config repository failure) := by
  cases before with
  | true =>
    rw [scanRepository_of_cancelled _ _ _ _ rfl]
    exact ⟨_, rfl, Or.inl rfl⟩
  | false =>
    rw [scanRepository_of_not_cancelled _ _ _ _ rfl]
    have same : SameBeside (opened repository {}) {} := ⟨rfl, rfl⟩
    have gives := itemsOf_sameBeside repository.name
      (repository.documents repository.needsClone) same
    unfold scanFrom
    cases ended : (collect config repository.name (repository.documents repository.needsClone)
        (opened repository {}) {}).2 with
    | error failure =>
      have failed := collect_eq_error _ ended
      rw [gives] at failed
      refine ⟨failure, ?_, Or.inr ⟨rfl, ?_⟩⟩
      · generalize collect config repository.name _ _ _ = result at ended
        obtain ⟨next, _⟩ := result
        obtain rfl := ended
        rfl
      · rcases failed with failed | ⟨item, given, fault, unmatched, rfl⟩
        · exact .files failed
        · refine .patterns given unmatched fun texts => ?_
          obtain ⟨excluded, matched⟩ := returns_excludes texts item.path
          rw [unmatched] at matched
          cases matched
    | ok collected =>
      have found := cancelled_collect _ ended
      have documents := collect_documents _ ended
      generalize collect config repository.name _ _ _ = result at ended found
      obtain ⟨next, _⟩ := result
      obtain rfl := ended
      -- While files are given a cancellation is kept in the scene, and a later one counts with it.
      have set : next.cancelled = true ∨ cancelledThen = true := by
        rcases cancelled with none | within | later
        · cases none
        · exact Or.inl (found.mpr (Or.inr within))
        · exact Or.inr later
      obtain ⟨failure, failed, why⟩ := finish_of_cancelled config rules repository cancelledThen set
      refine ⟨failure, failed, why.imp_right fun ⟨quiet, unread⟩ => ⟨rfl, .reading ?_ ?_⟩⟩
      · intro within
        rw [found.mpr (Or.inr within)] at quiet
        cases quiet
      · rw [← unread, documents]
        rfl

theorem scan_ends_clean (before : Bool) :
    EndsClean config rules repository before cancelledThen where
  workdir := workdir_scanRepository config rules repository cancelledThen before
  cancelled := scanRepository_cancelled config rules repository cancelledThen before
  outcome := scanRepository_inPlace config rules repository cancelledThen before

end End

def cancellingRepository : Repository where
  name := "r"
  documents := fun _ => [.cancel, .item (.document ⟨.github, "a.yml", []⟩)]

def numberConfig : Config :=
  { exclude := .list [.int 1] }

/-- A number cannot be matched with the path of a file, and so the scan does not get to see that it
is cancelled; neither the repository nor the reading of its file fails. -/
theorem number_pattern_hides_cancellation :
    (scanRepository numberConfig [] cancellingRepository false {}).2 =
        .error (.fault (.notPath "int")) ∧
      Happening.cancel ∈ cancellingRepository.documents cancellingRepository.needsClone ∧
      Failure.fault (.notPath "int") ≠ Scene.cancelledFailure cancellingRepository.name ∧
      (filesOf cancellingRepository).2 = none ∧
      Returns (Document.readAll [⟨.github, "a.yml", []⟩] cancellingRepository.read) := by
  refine ⟨rfl, ?_, nofun, rfl, ?_⟩
  · exact List.mem_cons_self
  have read : (Document.readAll [⟨.github, "a.yml", []⟩]
      cancellingRepository.read).toOption.isSome = true := by decide +kernel
  obtain ⟨normalized, found⟩ := Option.isSome_iff_exists.mp read
  exact ⟨normalized, toOption_eq_some.mp found⟩

end SupplyLint.Scan
