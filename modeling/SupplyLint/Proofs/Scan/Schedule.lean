import SupplyLint.Proofs.Scan.Dispatch

/-! # Schedules as runs

A dispatch with a schedule is one of the runs of the relation: the scan whose turn it is ends, the
dispatcher looks at it at once, and nothing else happens in between. `exists_run` gives that run for
a whole organization. -/
set_option autoImplicit false

namespace SupplyLint.Scan

open Dispatch

variable {config : Config} {rules : List Rule} {parallelism : Nat} {ending : Option Failure}
  {pool : Pool} {dispatch : Dispatch}

/-- The scans of a dispatch are those of a pool. -/
structure Mirrors (pool : Pool) (dispatch : Dispatch) : Prop where
  running : pool.running = dispatch.underWay
  outcomes : pool.outcomes = dispatch.outcomes
  cancelled : pool.cancelled = dispatch.cancelled

def HandsOver (result : Except Failure Outcome) : Option Failure → Prop
  | none => Returns result
  | some failure => result = .error failure

/-- What a scan comes to when it starts as cancelled as the others are, and ends before anything
else. -/
theorem mayComeTo_scan (config : Config) (rules : List Rule) (repository : Repository)
    (cancelled : Bool) :
    MayComeTo config rules repository
      (scanRepository config rules repository false { cancelled := cancelled }).1.cancelled
      (scanRepository config rules repository false { cancelled := cancelled }).2 := by
  cases after : (scanRepository config rules repository false
    { cancelled := cancelled }).1.cancelled with
  | true => exact .interrupted cancelled false (interrupted_refl _)
  | false =>
    cases cancelled with
    | false => exact .alone false after
    | true =>
      rw [scanRepository_of_cancelled _ _ _ _ rfl] at after
      cases after

section Finishing
variable (config rules)

def endOf (dispatch : Dispatch) (started : Started) : Ended :=
  ⟨started, isolated started.repository.name
    (scanRepository config rules started.repository false { cancelled := dispatch.cancelled }).2⟩

theorem finishOne_eq {started : Started} (turn : dispatch.underWay[dispatch.turn]? = some started) :
    let scene :=
      (scanRepository config rules started.repository false { cancelled := dispatch.cancelled }).1
    finishOne config rules dispatch =
      ({ dispatch with
          underWay := dispatch.underWay.eraseIdx dispatch.turn
          outcomes := dispatch.outcomes ++ (endOf config rules dispatch started).outcome?.toList
          workdirs := dispatch.workdirs ++ [(started.number, scene.workdir)]
          cancelled := scene.cancelled
          schedule := dispatch.schedule.tail },
        match (endOf config rules dispatch started).result with
        | .ok _ => none
        | .error failure => some failure) := by
  simp only [finishOne, turn, endOf, Ended.outcome?]
  split
  · rename_i isolates
    simp [isolates, Except.toOption]
  · rename_i isolates
    simp [isolates, Except.toOption]

@[simp] theorem handedOut_finishOne (dispatch : Dispatch) :
    (finishOne config rules dispatch).1.handedOut = dispatch.handedOut := by
  cases turn : dispatch.underWay[dispatch.turn]? with
  | none => simp only [finishOne, turn]
  | some started => rw [finishOne_eq config rules turn]

theorem turn_lt (any : dispatch.underWay ≠ []) : dispatch.turn < dispatch.underWay.length :=
  Nat.mod_lt _ (List.length_pos_of_ne_nil any)

theorem exists_turn (any : dispatch.underWay ≠ []) :
    ∃ started, dispatch.underWay[dispatch.turn]? = some started ∧
      dispatch.underWay.Perm (started :: dispatch.underWay.eraseIdx dispatch.turn) := by
  have turn := turn_lt any
  exact ⟨dispatch.underWay[dispatch.turn], List.getElem?_eq_getElem turn,
    (List.getElem_cons_eraseIdx_perm turn).symm⟩

theorem length_finishOne (any : dispatch.underWay ≠ []) :
    (finishOne config rules dispatch).1.underWay.length + 1 = dispatch.underWay.length := by
  obtain ⟨started, turn, parts⟩ := exists_turn any
  rw [finishOne_eq config rules turn, parts.length_eq, List.length_cons]

theorem finishOne_steps (parallelism : Nat) (ending : Option Failure)
    (mirrors : Mirrors pool dispatch) (open' : pool.isOver = false)
    (any : dispatch.underWay ≠ []) :
    ∃ after last,
      Relation.ReflTransGen (Step config rules parallelism ending) pool after ∧
        after.phase = pool.phase ∧ after.submitted = pool.submitted ∧
        after.inFlight = pool.inFlight ∧ after.waiting = pool.waiting ++ [last] ∧
        Mirrors after (finishOne config rules dispatch).1 ∧
        HandsOver last.result (finishOne config rules dispatch).2 := by
  obtain ⟨started, turn, parts⟩ := exists_turn any
  have comes := mayComeTo_scan config rules started.repository dispatch.cancelled
  rw [finishOne_eq config rules turn]
  generalize scan : (scanRepository config rules started.repository false
    { cancelled := dispatch.cancelled }).1 = scene at comes ⊢
  let between : Pool := { pool with cancelled := scene.cancelled }
  -- a repository that cancels the scans does so before its own scan has ended
  have cancels : Relation.ReflTransGen (Step config rules parallelism ending) pool between := by
    cases after : scene.cancelled with
    | true =>
      have same : between = { pool with cancelled := true } := by
        simp only [between, after]
      exact same ▸ .single (.cancel open')
    | false =>
      have before : pool.cancelled = false := by
        rw [mirrors.cancelled]
        cases before : dispatch.cancelled with
        | false => rfl
        | true =>
          rw [before, scanRepository_of_cancelled _ _ _ _ rfl] at scan
          exact (congrArg Scene.cancelled scan).trans after
      have same : between = pool := by
        simp only [between, after, ← before]
      rw [same]
  have running : between.running.Perm (started :: dispatch.underWay.eraseIdx dispatch.turn) :=
    mirrors.running ▸ parts
  refine ⟨between.finish (dispatch.underWay.eraseIdx dispatch.turn)
      (endOf config rules dispatch started), _,
    cancels.tail (.finish open' running comes), rfl, rfl, Pool.inFlight_finish _ running, rfl,
    ⟨rfl, congrArg (· ++ _) mirrors.outcomes, rfl⟩, ?_⟩
  cases handed : (endOf config rules dispatch started).result with
  | ok outcome => exact returns_ok outcome
  | error failure => rfl

end Finishing

/-- A pool whose dispatcher looked at every scan that has ended, with the scans of a dispatch. -/
structure Follows (pool : Pool) (dispatch : Dispatch) (phase : Phase) : Prop where
  mirrors : Mirrors pool dispatch
  looked : pool.waiting = []
  place : pool.phase = phase

theorem Follows.inFlight {phase : Phase} (follows : Follows pool dispatch phase) :
    pool.inFlight = dispatch.underWay.length := by
  simp [Pool.inFlight, follows.looked, follows.mirrors.running]

theorem Follows.finishOne (config : Config) (rules : List Rule) (parallelism : Nat)
    (ending : Option Failure) {phase : Phase} (follows : Follows pool dispatch phase)
    (open' : pool.isOver = false)
    (any : dispatch.underWay ≠ []) :
    ∃ after last,
      Relation.ReflTransGen (Step config rules parallelism ending) pool after ∧
        after.phase = phase ∧ after.submitted = pool.submitted ∧ after.inFlight = pool.inFlight ∧
        after.waiting = [last] ∧ Mirrors after (finishOne config rules dispatch).1 ∧
        HandsOver last.result (finishOne config rules dispatch).2 := by
  obtain ⟨after, last, steps, phase, submitted, inFlight, waiting, mirrors, handed⟩ :=
    finishOne_steps config rules parallelism ending follows.mirrors open' any
  rw [follows.looked] at waiting
  exact ⟨after, last, steps, phase.trans follows.place, submitted, inFlight,
    waiting, mirrors, handed⟩

theorem Follows.look (phase : Phase) (last : Ended) (mirrors : Mirrors pool dispatch) :
    Follows (pool.look phase [last] []) dispatch phase :=
  ⟨⟨mirrors.running, mirrors.outcomes, mirrors.cancelled⟩, rfl, rfl⟩

theorem perm_single {last : Ended} (waiting : pool.waiting = [last]) :
    pool.waiting.Perm ([last] ++ []) := by
  rw [waiting]
  exact .refl _

/-! ## The listing -/

section Listing
variable (config rules parallelism ending) {repository : Repository} {rest : List Repository}

def roomPhase (repository : Repository) (rest : List Repository) : Option Failure → Phase
  | none => .ready repository rest
  | some failure => .draining (some failure)

theorem makeRoom_steps (positive : 0 < parallelism)
    (follows : Follows pool dispatch (.holding repository rest)) :
    ∃ after, Relation.ReflTransGen (Step config rules parallelism ending) pool after ∧
      after.submitted = pool.submitted ∧
      Follows after (makeRoom config rules parallelism dispatch).1
        (roomPhase repository rest (makeRoom config rules parallelism dispatch).2) := by
  unfold makeRoom
  split
  · rename_i room
    exact ⟨_, .single (.pass follows.place (follows.inFlight ▸ room)), rfl,
      ⟨⟨follows.mirrors.running, follows.mirrors.outcomes, follows.mirrors.cancelled⟩,
        follows.looked, rfl⟩⟩
  · rename_i full
    have any : dispatch.underWay ≠ [] := List.ne_nil_of_length_pos (by omega)
    have open' : pool.isOver = false := by simp [Pool.isOver, follows.place]
    obtain ⟨after, last, steps, place, submitted, inFlight, waiting, mirrors, handed⟩ :=
      follows.finishOne config rules parallelism ending open' any
    have full : parallelism ≤ after.inFlight := by
      rw [inFlight, follows.inFlight]
      omega
    have parts := perm_single waiting
    refine ⟨after.look (roomPhase repository rest (finishOne config rules dispatch).2) [last] [],
      steps.tail ?_, submitted, .look _ last mirrors⟩
    cases failed : (finishOne config rules dispatch).2 with
    | none =>
      rw [failed] at handed
      exact .look place full (List.cons_ne_nil _ _) parts fun ended member =>
        List.mem_singleton.mp member ▸ handed
    | some failure =>
      rw [failed] at handed
      exact .lookFatal place full parts (List.mem_singleton_self _) handed

theorem Follows.takeUp {phase : Phase} (follows : Follows pool dispatch phase)
    (repository : Repository) (rest : List Repository)
    (numbered : pool.submitted.length = dispatch.handedOut - 1) :
    Follows (pool.submit repository rest) (dispatch.takeUp repository) (.listing rest) := by
  refine ⟨⟨?_, follows.mirrors.outcomes, follows.mirrors.cancelled⟩, follows.looked, rfl⟩
  simp only [Pool.submit, Dispatch.takeUp, numbered, follows.mirrors.running]

@[simp] theorem handedOut_makeRoom (dispatch : Dispatch) :
    (makeRoom config rules parallelism dispatch).1.handedOut = dispatch.handedOut := by
  unfold makeRoom
  split
  · rfl
  · exact handedOut_finishOne config rules dispatch

theorem takeAll_steps (positive : 0 < parallelism) (repositories : List Repository)
    (follows : Follows pool dispatch (.listing repositories))
    (numbered : pool.submitted.length = dispatch.handedOut) :
    let taken := takeAll config rules parallelism ending repositories dispatch
    ∃ after, Relation.ReflTransGen (Step config rules parallelism ending) pool after ∧
      Follows after taken.1 (.draining taken.2) := by
  induction repositories generalizing pool dispatch with
  | nil =>
    unfold takeAll
    cases ending with
    | none =>
      exact ⟨_, .single (.listed follows.place rfl),
        ⟨follows.mirrors.running, follows.mirrors.outcomes, follows.mirrors.cancelled⟩,
        follows.looked, rfl⟩
    | some failure =>
      refine ⟨_, .single (.breaks follows.place rfl),
        ⟨follows.mirrors.running, follows.mirrors.outcomes, follows.mirrors.cancelled⟩,
        follows.looked, ?_⟩
      simp only [afterBreak, follows.mirrors.cancelled]
  | cons repository rest ih =>
    -- One step of the dispatcher is several of the pool: the repository is handed out, room is
    -- made, the scan is not found cancelled, and only then is the repository taken up.
    let held : Pool := { pool with phase := .holding repository rest }
    let counted : Dispatch := { dispatch with handedOut := dispatch.handedOut + 1 }
    have holds : Follows held counted (.holding repository rest) :=
      ⟨⟨follows.mirrors.running, follows.mirrors.outcomes, follows.mirrors.cancelled⟩,
        follows.looked, rfl⟩
    obtain ⟨roomy, steps, submitted, room⟩ :=
      makeRoom_steps config rules parallelism ending positive holds
    have first : Relation.ReflTransGen (Step config rules parallelism ending) pool roomy :=
      .head (.handOut follows.place) steps
    have number := handedOut_makeRoom config rules parallelism counted
    simp only [takeAll]
    generalize makeRoom config rules parallelism counted = made at room number
    obtain ⟨next, failed⟩ := made
    cases failed with
    | some failure => exact ⟨roomy, first, room⟩
    | none =>
      have number : next.handedOut = dispatch.handedOut + 1 := number
      cases cancelled : next.cancelled with
      | true =>
        simp only [cancelled, if_true]
        refine ⟨_, first.tail (.breakOff room.place (room.mirrors.cancelled.trans cancelled)), ?_⟩
        exact ⟨⟨room.mirrors.running, room.mirrors.outcomes, room.mirrors.cancelled⟩,
          room.looked, rfl⟩
      | false =>
        simp only [cancelled, Bool.false_eq_true, if_false]
        have quiet := room.mirrors.cancelled.trans cancelled
        have taken := room.takeUp repository rest (by
          rw [submitted, number]
          exact numbered)
        obtain ⟨after, later, ends⟩ := ih taken (by
          rw [Pool.length_submitted_submit, submitted, takeUp, number]
          exact congrArg (· + 1) numbered)
        exact ⟨after, (first.tail (.submit room.place quiet)).trans later, ends⟩

end Listing

section Draining
variable (config rules parallelism ending)

theorem drain_closing {failure : Failure} (count : Nat) (other : Option Failure)
    (mirrors : Mirrors pool dispatch) (place : pool.phase = .closing (some failure))
    (all : dispatch.underWay.length = count) :
    ∃ after, Relation.ReflTransGen (Step config rules parallelism ending) pool after ∧
      after.phase = .closing (some failure) ∧ after.running = [] ∧
      Mirrors after (drain config rules count other dispatch).1 := by
  induction count generalizing pool dispatch other with
  | zero =>
    refine ⟨pool, .refl, place, ?_, mirrors⟩
    rw [mirrors.running]
    exact List.eq_nil_of_length_eq_zero all
  | succ count ih =>
    have any : dispatch.underWay ≠ [] := List.ne_nil_of_length_pos (by omega)
    have fewer := length_finishOne config rules any
    have open' : pool.isOver = false := by simp [Pool.isOver, place]
    obtain ⟨after, last, steps, phase, -, -, -, follows, -⟩ :=
      finishOne_steps config rules parallelism ending mirrors open' any
    obtain ⟨done, later, ends, ended, same⟩ :=
      ih (match (finishOne config rules dispatch).2 with | none => other | some _ => none)
        follows (phase.trans place) (by omega)
    refine ⟨done, steps.trans later, ends, ended, ?_⟩
    simp only [drain]
    cases failed : (finishOne config rules dispatch).2 with
    | none => rwa [failed] at same
    | some first => rwa [failed] at same

theorem drain_steps (count : Nat) (failure : Option Failure)
    (follows : Follows pool dispatch (.draining failure)) (all : dispatch.underWay.length = count) :
    let drained := drain config rules count failure dispatch
    ∃ after, Relation.ReflTransGen (Step config rules parallelism ending) pool after ∧
      after.phase = .closed (resultOf drained.2 drained.1.outcomes) ∧ Mirrors after drained.1 := by
  induction count generalizing pool dispatch with
  | zero =>
    have ended : pool.running = [] := by
      rw [follows.mirrors.running]
      exact List.eq_nil_of_length_eq_zero all
    refine ⟨_, .tail (.single (.close follows.place ended follows.looked)) (.finally rfl ended), ?_,
      ⟨follows.mirrors.running, follows.mirrors.outcomes, follows.mirrors.cancelled⟩⟩
    simp only [drain, follows.mirrors.outcomes]
  | succ count ih =>
    have any : dispatch.underWay ≠ [] := List.ne_nil_of_length_pos (by omega)
    have fewer := length_finishOne config rules any
    have open' : pool.isOver = false := by simp [Pool.isOver, follows.place]
    obtain ⟨after, last, steps, place, -, -, waiting, mirrors, handed⟩ :=
      follows.finishOne config rules parallelism ending open' any
    have parts := perm_single waiting
    simp only [drain]
    cases failed : (finishOne config rules dispatch).2 with
    | none =>
      rw [failed] at handed
      obtain ⟨done, later, closed⟩ := ih (Follows.look _ last mirrors) (by omega)
      exact ⟨done, (steps.tail (.drain place parts handed)).trans later, closed⟩
    | some first =>
      rw [failed] at handed
      have looked := Follows.look (.closing (some first)) last mirrors
      obtain ⟨done, later, closing, ended, same⟩ :=
        drain_closing config rules parallelism ending count none
          looked.mirrors rfl (by omega)
      refine ⟨_, ((steps.tail (.drainFatal place parts handed)).trans later).tail
        (.finally closing ended), rfl, ⟨same.running, same.outcomes, same.cancelled⟩⟩

end Draining

/-- The scan of an organization with a schedule is a run. -/
theorem exists_run (config : Config) (rules : List Rule) {parallelism : Nat} (listing : Listing)
    (cancelled : Bool) (schedule : List Nat) (positive : 0 < parallelism) :
    let scan := scanOrganization config rules parallelism listing cancelled schedule
    ∃ pool, Reaches config rules parallelism listing cancelled pool ∧ pool.phase = .closed scan.2 ∧
      pool.cancelled = scan.1.cancelled := by
  have begins : Follows (Pool.start listing cancelled)
      { cancelled := cancelled, schedule := schedule } (.listing listing.repositories) :=
    ⟨⟨rfl, rfl, rfl⟩, rfl, rfl⟩
  obtain ⟨taken, first, follows⟩ :=
    takeAll_steps config rules parallelism listing.failure positive _ begins rfl
  obtain ⟨pool, second, closed, mirrors⟩ :=
    drain_steps config rules parallelism listing.failure _ _ follows rfl
  have enough : ¬ (parallelism : Int) < 1 := by omega
  simp only [scanOrganization, enough, if_false, Int.toNat_natCast]
  refine ⟨pool, first.trans second, ?_⟩
  generalize drain config rules _ _ _ = drained at closed mirrors
  obtain ⟨ended, failure⟩ := drained
  cases failure with
  | none => exact ⟨closed, mirrors.cancelled⟩
  | some failure => exact ⟨closed, mirrors.cancelled⟩

end SupplyLint.Scan
