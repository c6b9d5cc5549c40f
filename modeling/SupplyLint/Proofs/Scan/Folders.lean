import SupplyLint.Proofs.Scan.Checkout

/-! # Organizations that are folders

Nothing in a folder cancels the scan of an organization or ends it for all of
its repositories. `scan_of_folders`: there is one outcome for each of them, which
is its own. -/
set_option autoImplicit false

namespace SupplyLint.Scan

section Quiet
variable {config : Config} {rules : List Rule}

theorem cancelled_collect_of_quiet {repository : String} {happenings : List Happening}
    (quiet : Happening.cancel ∉ happenings) (scene : Scene) (before : Collected) :
    (collect config repository happenings scene before).1.cancelled = scene.cancelled := by
  induction happenings generalizing scene before with
  | nil => rfl
  | cons happening rest ih =>
    rw [List.mem_cons, not_or] at quiet
    have here : (scene.after repository happening).1.cancelled = scene.cancelled := by
      rw [Bool.eq_iff_iff, cancelled_after]
      exact or_iff_left (Ne.symm quiet.1)
    rw [collect, ← here]
    rcases scene.after repository happening with ⟨next, failure | none | item⟩
    · rfl
    · exact ih quiet.2 next before
    · dsimp only
      cases before.add config item with
      | error fault => rfl
      | ok more => exact ih quiet.2 next more

theorem cancelled_finish (repository : Repository) (scene : Scene) (collected : Collected) :
    (finish config rules repository false scene collected).1.cancelled = scene.cancelled := by
  unfold finish
  split
  · rfl
  · exact Bool.or_false _

theorem isCalm_of_quiet {repository : Repository} (quiet : IsQuiet repository) :
    IsCalm config rules repository := by
  have stays : (collection config repository).1.cancelled = false :=
    cancelled_collect_of_quiet quiet (opened repository {}) {}
  rw [IsCalm, scanRepository_of_not_cancelled _ _ _ _ rfl]
  show (Scene.removeWorkdir _).cancelled = false
  rw [(removeWorkdir_sameBeside _).cancelled, scanFrom, ← collection]
  generalize collection config repository = collects at stays ⊢
  rcases collects with ⟨next, failure | collected⟩
  · exact stays
  · exact (cancelled_finish repository next collected).trans stays

end Quiet

/-! ## A dispatch that nothing cancels -/

namespace Dispatch

/-- Neither is a dispatch cancelled nor is it going to be by the scans that are under way. -/
structure Calm (config : Config) (rules : List Rule) (dispatch : Dispatch) : Prop where
  cancelled : dispatch.cancelled = false
  underWay : ∀ started ∈ dispatch.underWay, IsCalm config rules started.repository

section Calm
variable {config : Config} {rules : List Rule} {dispatch : Dispatch}

theorem Calm.finishOne (calm : dispatch.Calm config rules) :
    (dispatch.finishOne config rules).1.Calm config rules := by
  cases turn : dispatch.underWay[dispatch.turn]? with
  | none =>
    simp only [Dispatch.finishOne, turn]
    exact calm
  | some started =>
    rw [finishOne_eq config rules turn]
    refine ⟨?_, fun other member => calm.underWay other (List.mem_of_mem_eraseIdx member)⟩
    rw [calm.cancelled]
    exact calm.underWay started (List.mem_of_getElem? turn)

theorem Calm.makeRoom (calm : dispatch.Calm config rules) (parallelism : Nat) :
    (dispatch.makeRoom config rules parallelism).1.Calm config rules := by
  unfold Dispatch.makeRoom
  split
  · exact calm
  · exact calm.finishOne

theorem Calm.takeUp (calm : dispatch.Calm config rules) {repository : Repository}
    (own : IsCalm config rules repository) : (dispatch.takeUp repository).Calm config rules := by
  refine ⟨calm.cancelled, fun started member => ?_⟩
  rcases List.mem_append.mp member with before | last
  · exact calm.underWay started before
  · rw [List.mem_singleton.mp last]
    exact own

theorem Calm.takeAll (calm : dispatch.Calm config rules) (parallelism : Nat)
    (ending : Option Failure) {repositories : List Repository}
    (each : ∀ repository ∈ repositories, IsCalm config rules repository) :
    (Dispatch.takeAll config rules parallelism ending repositories dispatch).1.Calm config
      rules := by
  induction repositories generalizing dispatch with
  | nil =>
    cases ending with
    | none => exact calm
    | some failure => exact calm
  | cons repository rest ih =>
    have counted : { dispatch with handedOut := dispatch.handedOut + 1 }.Calm config rules :=
      ⟨calm.cancelled, calm.underWay⟩
    have room := counted.makeRoom parallelism
    unfold Dispatch.takeAll
    dsimp only
    generalize Dispatch.makeRoom config rules parallelism _ = made at room ⊢
    rcases made with ⟨next, none | failure⟩
    · dsimp only
      split
      · exact room
      · exact ih (room.takeUp (each repository List.mem_cons_self))
          fun other later => each other (List.mem_cons_of_mem _ later)
    · exact room

theorem Calm.drain (calm : dispatch.Calm config rules) (count : Nat) (failure : Option Failure) :
    (Dispatch.drain config rules count failure dispatch).1.Calm config rules := by
  induction count generalizing failure dispatch with
  | zero => exact calm
  | succ count ih =>
    have ended := calm.finishOne
    unfold Dispatch.drain
    generalize Dispatch.finishOne config rules dispatch = finished at ended ⊢
    rcases finished with ⟨next, none | first⟩
    · exact ih ended failure
    · exact ih ended none

end Calm
end Dispatch

section Result
variable {config : Config} {rules : List Rule} {listing : Listing} {parallelism : Nat}

theorem cancelled_scanOrganization
    (calm : ∀ repository ∈ listing.repositories, IsCalm config rules repository)
    (positive : 0 < parallelism) (schedule : List Nat) :
    (scanOrganization config rules parallelism listing false schedule).1.cancelled = false := by
  have begins : ({ schedule := schedule } : Dispatch).Calm config rules := ⟨rfl, nofun⟩
  have taken := begins.takeAll parallelism listing.failure calm
  have enough : ¬ (parallelism : Int) < 1 := by omega
  simp only [scanOrganization, enough, if_false, Int.toNat_natCast]
  generalize Dispatch.takeAll config rules parallelism _ _ _ = took at taken ⊢
  obtain ⟨dispatch, failure⟩ := took
  have drained := (taken.drain dispatch.underWay.length failure).cancelled
  dsimp only
  generalize Dispatch.drain config rules _ _ _ = ended at drained ⊢
  rcases ended with ⟨last, none | failure⟩
  · exact drained
  · exact drained

/-- While nothing is cancelled and no failure is one of the configuration, each repository of a
listing has its own outcome. -/
theorem scanOrganization_of_calm (whole : listing.failure = none)
    (calm : ∀ repository ∈ listing.repositories, IsCalm config rules repository)
    (fine : ∀ repository ∈ listing.repositories, IsIsolated config rules repository)
    (positive : 0 < parallelism) (schedule : List Nat) :
    ∃ outcomes, (scanOrganization config rules parallelism listing false schedule).2 =
      .ok outcomes ∧
      outcomes.Perm (listing.repositories.map (ownOutcome config rules)) := by
  obtain ⟨pool, reached, closed, same⟩ := exists_run config rules listing false schedule positive
  have quiet := same.trans (cancelled_scanOrganization calm positive schedule)
  obtain ⟨outcomes, result, own⟩ := reached.sound.result fine quiet whole closed
  exact ⟨byRepository outcomes, result, (byRepository_perm outcomes).trans own⟩

end Result

theorem isIsolated_of_faultsOnly {config : Config} {rules : List Rule} {repository : Repository}
    (faults : FaultsOnly (aloneResult config rules repository)) :
    IsIsolated config rules repository := by
  intro failure failed
  obtain ⟨fault, rfl⟩ := faults failure failed
  rfl

theorem returns_inFolder {tree : Tree} {root : Place} (folder : tree.isFolder root = true) :
    Returns (Checkout.inFolder tree root) := by
  rw [Checkout.inFolder, if_pos folder]
  exact returns_ok _

theorem isFolder_of_mem_inFolder {tree : Tree} {root : Place} {checkouts : List Checkout}
    (listed : Checkout.inFolder tree root = .ok checkouts) {checkout : Checkout}
    (member : checkout ∈ checkouts) : checkout.tree.isFolder checkout.root = true := by
  unfold Checkout.inFolder at listed
  split at listed
  · obtain rfl := Except.ok.inj listed
    obtain ⟨name, inside, rfl⟩ := List.mem_map.mp member
    rw [List.mem_mergeSort, List.mem_filter, Bool.and_eq_true] at inside
    exact inside.2.1
  · cases listed

/-- In an organization that is a folder, each repository has its own outcome. -/
theorem scan_of_folders {config : Config} {rules : List Rule} {tree : Tree} {root : Place}
    {checkouts : List Checkout} (listed : Checkout.inFolder tree root = .ok checkouts)
    {parallelism : Nat} (positive : 0 < parallelism) (schedule : List Nat) :
    ∃ outcomes,
      (scanOrganization config rules parallelism (Checkout.listing tree root) false schedule).2 =
        .ok outcomes ∧
      outcomes.Perm (checkouts.map fun checkout =>
        ownOutcome config rules checkout.repository) := by
  have each (repository : Repository) (member : repository ∈ checkouts.map Checkout.repository) :
      IsCalm config rules repository ∧ IsIsolated config rules repository := by
    obtain ⟨checkout, inside, rfl⟩ := List.mem_map.mp member
    exact ⟨isCalm_of_quiet checkout.isQuiet_repository, isIsolated_of_faultsOnly
      (Checkout.faultsOnly_alone config rules (isFolder_of_mem_inFolder listed inside))⟩
  let listing : Listing := ⟨checkouts.map Checkout.repository, none⟩
  have here : Checkout.listing tree root = listing := by rw [Checkout.listing, listed]
  obtain ⟨outcomes, result, own⟩ := scanOrganization_of_calm (rfl : listing.failure = none)
    (fun repository member => (each repository member).1)
    (fun repository member => (each repository member).2) positive schedule
  rw [List.map_map] at own
  exact ⟨outcomes, here ▸ result, own⟩

end SupplyLint.Scan
