import SupplyLint.Proofs.Scan.Pool

/-! # What a dispatcher keeps

Every step leaves the scans as they are, takes one up, ends one, or looks at some that have ended
(`Step.change`). From that comes what holds in each state that is reached, `Reaches.sound`: the
scans in flight have places, each that was taken up is running or has ended, what the ended ones
came to is there, and what the dispatcher ends with has a reason in what it saw. -/
set_option autoImplicit false

namespace SupplyLint.Scan

/-- A scan that has ended with its own outcome, or with the failure that it came to. -/
def Ended.IsOf (config : Config) (rules : List Rule) (cancelled : Bool) (ended : Ended) : Prop :=
  ∃ result, MayComeTo config rules ended.started.repository cancelled result ∧
    ended.result = isolated ended.started.repository.name result

theorem MayComeTo.mono {config : Config} {rules : List Rule} {repository : Repository}
    {earlier later : Bool} {result : Except Failure Outcome}
    (comes : MayComeTo config rules repository earlier result)
    (still : earlier = true → later = true) :
    MayComeTo config rules repository later result := by
  cases comes with
  | alone _ quiet => exact .alone later quiet
  | interrupted before cancelledThen among =>
    rw [still rfl]
    exact .interrupted before cancelledThen among

theorem Ended.IsOf.mono {config : Config} {rules : List Rule} {earlier later : Bool} {ended : Ended}
    (isOf : ended.IsOf config rules earlier) (still : earlier = true → later = true) :
    ended.IsOf config rules later := by
  obtain ⟨result, comes, isolates⟩ := isOf
  exact ⟨result, comes.mono still, isolates⟩

theorem Ended.IsOf.repository {config : Config} {rules : List Rule}
    {cancelled : Bool} {ended : Ended}
    (isOf : ended.IsOf config rules cancelled) {outcome : Outcome}
    (ok : ended.result = .ok outcome) :
    outcome.repository = ended.started.repository.name := by
  obtain ⟨result, comes, isolates⟩ := isOf
  refine repository_of_isolated (fun own same => ?_) (isolates ▸ ok)
  subst same
  exact comes.repository

namespace Pool

def taken (pool : Pool) : List Repository :=
  pool.submitted.map Started.repository

@[simp] theorem taken_submit (pool : Pool) (repository : Repository) (rest : List Repository) :
    (pool.submit repository rest).taken = pool.taken ++ [repository] := by
  simp [taken, submit]

@[simp] theorem length_submitted_submit (pool : Pool) (repository : Repository)
    (rest : List Repository) :
    (pool.submit repository rest).submitted.length = pool.submitted.length + 1 := by
  simp [submit]

@[simp] theorem inFlight_submit (pool : Pool) (repository : Repository) (rest : List Repository) :
    (pool.submit repository rest).inFlight = pool.inFlight + 1 := by
  simp only [inFlight, submit, List.length_append, List.length_singleton]
  omega

@[simp] theorem ended_finish (pool : Pool) (others : List Started) (last : Ended) :
    (pool.finish others last).ended = pool.ended ++ [last] := by
  simp [ended, finish]

theorem inFlight_finish {pool : Pool} {started : Started} {others : List Started} (last : Ended)
    (parts : pool.running.Perm (started :: others)) :
    (pool.finish others last).inFlight = pool.inFlight := by
  have count := parts.length_eq
  simp only [inFlight, finish, List.length_append, List.length_cons, List.length_nil] at count ⊢
  omega

theorem ended_look {pool : Pool} {looked others : List Ended} (phase : Phase)
    (parts : pool.waiting.Perm (looked ++ others)) :
    (pool.look phase looked others).ended.Perm pool.ended := by
  simp only [ended, look, List.append_assoc]
  exact parts.symm.append_left _

theorem inFlight_look {pool : Pool} {looked others : List Ended} (phase : Phase)
    (parts : pool.waiting.Perm (looked ++ others)) :
    (pool.look phase looked others).inFlight + looked.length = pool.inFlight := by
  have count := parts.length_eq
  simp only [inFlight, look, List.length_append] at count ⊢
  omega

end Pool

/-! ## What a step changes -/

section Steps
variable {config : Config} {rules : List Rule} {parallelism : Nat} {ending : Option Failure}
  {pool next : Pool}

inductive Change (config : Config) (rules : List Rule) (pool : Pool) : Pool → Prop
  | stay (phase : Phase) (cancelled : Bool) (broken : Option Break)
      (still : pool.cancelled = true → cancelled = true) :
      Change config rules pool
        { pool with phase := phase, cancelled := cancelled, broken := broken }
  | submit (repository : Repository) (rest : List Repository) (quiet : pool.cancelled = false)
      (place : pool.phase = .ready repository rest) :
      Change config rules pool (pool.submit repository rest)
  | finish {started : Started} {others : List Started} {result : Except Failure Outcome}
      (parts : pool.running.Perm (started :: others))
      (comes : MayComeTo config rules started.repository pool.cancelled result) :
      Change config rules pool
        (pool.finish others ⟨started, isolated started.repository.name result⟩)
  | look {looked others : List Ended} (phase : Phase)
      (parts : pool.waiting.Perm (looked ++ others)) :
      Change config rules pool (pool.look phase looked others)

theorem Step.change (step : Step config rules parallelism ending pool next) :
    Change config rules pool next := by
  cases step with
  | handOut | listed | breaks | pass | breakOff | close | «finally» => exact .stay _ _ _ id
  | cancel => exact .stay _ _ _ fun _ => rfl
  | look _ _ _ parts | lookFatal _ _ parts => exact .look _ parts
  | submit place quiet => exact .submit _ _ quiet place
  | finish _ parts comes => exact .finish parts comes
  | drain _ parts | drainFatal _ parts => exact .look _ parts

/-- Each scan that was taken up is running or has ended. -/
def Pool.HoldsEach (pool : Pool) : Prop :=
  (pool.running ++ pool.ended.map Ended.started).Perm pool.submitted

theorem Change.holdsEach (change : Change config rules pool next) (each : pool.HoldsEach) :
    next.HoldsEach := by
  unfold Pool.HoldsEach at each ⊢
  cases change with
  | stay => exact each
  | submit repository rest =>
    let started : Started := ⟨pool.submitted.length, repository⟩
    have moved : ([started] ++ pool.ended.map Ended.started).Perm
        (pool.ended.map Ended.started ++ [started]) := List.perm_append_comm
    refine .trans ?_ (each.append_right [started])
    simpa [Pool.submit, Pool.ended, started] using moved.append_left pool.running
  | @finish started others result parts =>
    rw [Pool.ended_finish]
    refine .trans ?_ ((parts.append_right _).symm.trans each)
    simp only [Pool.finish, List.map_append, List.map_cons, List.map_nil, ← List.append_assoc]
    exact List.perm_append_singleton _ _
  | look phase parts =>
    exact (((Pool.ended_look phase parts).map _).append_left _).trans each

def Pool.HoldsOutcomes (pool : Pool) : Prop :=
  pool.outcomes.Perm (pool.ended.filterMap Ended.outcome?)

theorem Change.holdsOutcomes (change : Change config rules pool next) (holds : pool.HoldsOutcomes) :
    next.HoldsOutcomes := by
  unfold Pool.HoldsOutcomes at holds ⊢
  cases change with
  | stay | submit => exact holds
  | @finish started others result =>
    rw [Pool.ended_finish, List.filterMap_append]
    have last (ended : Ended) : ended.outcome?.toList = [ended].filterMap Ended.outcome? := by
      cases outcome : ended.outcome? <;> simp [outcome]
    simp only [Pool.finish, last]
    exact holds.append_right _
  | look phase parts => exact holds.trans ((Pool.ended_look phase parts).filterMap _).symm

theorem Change.cancelled (change : Change config rules pool next)
    (cancelled : pool.cancelled = true) :
    next.cancelled = true := by
  cases change with
  | stay _ _ _ still => exact still cancelled
  | submit | finish | look => exact cancelled

theorem Change.scanned (change : Change config rules pool next)
    (scanned : ∀ ended ∈ pool.ended, ended.IsOf config rules pool.cancelled) :
    ∀ ended ∈ next.ended, ended.IsOf config rules next.cancelled := by
  have still (ended : Ended) (member : ended ∈ pool.ended) :
      ended.IsOf config rules next.cancelled :=
    (scanned ended member).mono change.cancelled
  cases change with
  | stay | submit => exact still
  | finish parts comes =>
    intro ended member
    rw [Pool.ended_finish, List.mem_append, List.mem_singleton] at member
    obtain earlier | rfl := member
    · exact still ended earlier
    · exact ⟨_, comes, rfl⟩
  | look phase parts =>
    exact fun ended member => still ended ((Pool.ended_look phase parts).mem_iff.mp member)

/-! ## Where the dispatcher is -/

/-- There is place for the scans in flight, and for one more when a repository is to be taken up. -/
def Pool.HasPlace (parallelism : Nat) (pool : Pool) : Prop :=
  match pool.phase with
  | .ready _ _ => pool.inFlight < parallelism
  | _ => pool.inFlight ≤ parallelism

theorem Pool.HasPlace.le (place : pool.HasPlace parallelism) : pool.inFlight ≤ parallelism := by
  unfold HasPlace at place
  split at place
  · exact place.le
  · exact place

theorem Pool.hasPlace_finish {started : Started} {others : List Started} (last : Ended)
    (parts : pool.running.Perm (started :: others)) :
    (pool.finish others last).HasPlace parallelism ↔ pool.HasPlace parallelism := by
  unfold HasPlace
  rw [inFlight_finish last parts]
  rfl

theorem Step.hasPlace (step : Step config rules parallelism ending pool next)
    (place : pool.HasPlace parallelism) : next.HasPlace parallelism := by
  cases step with
  | handOut | listed | breaks | breakOff | close | «finally» => exact place.le
  | cancel => exact place
  | pass _ room => exact room
  | submit holding =>
    simp only [Pool.HasPlace, holding] at place
    simp only [Pool.HasPlace, Pool.submit]
    exact Pool.inFlight_submit _ _ _ ▸ place
  | finish _ parts => exact (Pool.hasPlace_finish _ parts).mpr place
  | @look repository rest looked _ _ _ any parts =>
    have some := List.length_pos_of_ne_nil any
    have fewer := Pool.inFlight_look (.ready repository rest) parts
    have le := place.le
    show Pool.inFlight _ < parallelism
    omega
  | lookFatal _ _ parts =>
    exact (Nat.le_add_right _ _).trans ((Pool.inFlight_look _ parts).le.trans place.le)
  | drain _ parts | drainFatal _ parts =>
    exact (Nat.le_add_right _ 1).trans ((Pool.inFlight_look _ parts).le.trans place.le)

variable {listing : Listing}

/-- Why the dispatcher ends with a failure: it looked at a scan that ended with it, or the listing
did. Without a failure it saw none that counts, and it took up the whole listing unless it was
cancelled. -/
def Pool.Explains (listing : Listing) (pool : Pool) : Option Failure → Prop
  | none =>
    (∀ ended ∈ pool.seen, Returns ended.result) ∧
      (∀ failed, pool.broken = some failed →
        failed.failure.isFetch = true ∧ failed.cancelled = true) ∧
      (pool.cancelled = false → pool.taken = listing.repositories)
  | some failure =>
    (∃ ended ∈ pool.seen, ended.result = .error failure) ∨
      ∃ failed, pool.broken = some failed ∧ failed.failure = failure ∧
        ¬ (failed.failure.isFetch = true ∧ failed.cancelled = true)

/-- The dispatcher did not see a failure, and it still has these repositories before it. -/
structure Pool.Faces (listing : Listing) (pool : Pool) (rest : List Repository) : Prop where
  all : pool.taken ++ rest = listing.repositories
  fine : ∀ ended ∈ pool.seen, Returns ended.result
  whole : pool.broken = none

/-- What holds where the dispatcher is. -/
def Pool.Stands (listing : Listing) (pool : Pool) : Prop :=
  match pool.phase with
  | .listing rest => pool.Faces listing rest
  | .holding repository rest | .ready repository rest => pool.Faces listing (repository :: rest)
  | .draining failure => pool.Explains listing failure
  | .closing failure =>
    pool.Explains listing failure ∧ (failure = none → pool.running = [] ∧ pool.waiting = [])
  | .closed result =>
    pool.running = [] ∧ ∃ failure, result = resultOf failure pool.outcomes ∧
      pool.Explains listing failure ∧ (failure = none → pool.waiting = [])

theorem Pool.Explains.drain {failure : Option Failure} {last : Ended} (others : List Ended)
    (explains : pool.Explains listing failure) (fine : Returns last.result) :
    (pool.look (.draining failure) [last] others).Explains listing failure := by
  cases failure with
  | none =>
    obtain ⟨returns, excused, all⟩ := explains
    refine ⟨fun ended member => ?_, excused, all⟩
    obtain earlier | later := List.mem_append.mp member
    · exact returns ended earlier
    · exact List.mem_singleton.mp later ▸ fine
  | some failure =>
    exact explains.imp_left fun ⟨ended, member, failed⟩ =>
      ⟨ended, List.mem_append_left _ member, failed⟩

theorem Pool.Faces.explains (faces : pool.Faces listing []) (phase : Phase) :
    ({ pool with phase := phase } : Pool).Explains listing none := by
  refine ⟨faces.fine, fun failed broken => ?_, fun _ => ?_⟩
  · cases faces.whole.symm.trans broken
  · exact (List.append_nil _).symm.trans faces.all

theorem Pool.Faces.afterBreak (faces : pool.Faces listing []) (phase : Phase) (failure : Failure) :
    ({ pool with phase := phase, broken := some ⟨failure, pool.cancelled⟩ } : Pool).Explains listing
      (afterBreak failure pool.cancelled) := by
  cases excused : failure.isFetch && pool.cancelled with
  | true =>
    obtain ⟨fetch, cancelled⟩ := Bool.and_eq_true_iff.mp excused
    simp only [Scan.afterBreak, excused, if_true]
    refine ⟨faces.fine, fun failed broken => ?_, fun quiet => ?_⟩
    · obtain rfl := Option.some.inj broken
      exact ⟨fetch, cancelled⟩
    · exact absurd (quiet.symm.trans cancelled) Bool.false_ne_true
  | false =>
    simp only [Scan.afterBreak, excused]
    exact .inr ⟨_, rfl, rfl, fun both =>
      Bool.false_ne_true (excused.symm.trans (Bool.and_eq_true_iff.mpr both))⟩

theorem Pool.explains_cancel {failure : Option Failure} (explains : pool.Explains listing failure) :
    ({ pool with cancelled := true } : Pool).Explains listing failure := by
  cases failure with
  | none => exact ⟨explains.1, explains.2.1, nofun⟩
  | some failure => exact explains

theorem Pool.Stands.cancel (stands : pool.Stands listing) :
    ({ pool with cancelled := true } : Pool).Stands listing := by
  unfold Stands at stands ⊢
  dsimp only
  split at stands
  · exact ⟨stands.all, stands.fine, stands.whole⟩
  · exact ⟨stands.all, stands.fine, stands.whole⟩
  · exact ⟨stands.all, stands.fine, stands.whole⟩
  · exact explains_cancel stands
  · exact ⟨explains_cancel stands.1, stands.2⟩
  · obtain ⟨ended, failure, same, explains, looked⟩ := stands
    exact ⟨ended, failure, same, explains_cancel explains, looked⟩

theorem Pool.Stands.finish {started : Started} {others : List Started} (last : Ended)
    (stands : pool.Stands listing) (open' : pool.isOver = false)
    (parts : pool.running.Perm (started :: others)) : (pool.finish others last).Stands listing := by
  unfold Stands at stands ⊢
  simp only [Pool.finish]
  split at stands
  · exact ⟨stands.all, stands.fine, stands.whole⟩
  · exact ⟨stands.all, stands.fine, stands.whole⟩
  · exact ⟨stands.all, stands.fine, stands.whole⟩
  · exact stands
  · -- behind the scans that it waits for, it waits for others only after a failure
    refine ⟨stands.1, fun none => ?_⟩
    rw [(stands.2 none).1] at parts
    cases parts.nil_eq
  · rename_i closed
    simp [isOver, closed] at open'

theorem Step.stands (step : Step config rules parallelism listing.failure pool next)
    (stands : pool.Stands listing) : next.Stands listing := by
  cases step with
  | cancel => exact stands.cancel
  | finish open' parts => exact stands.finish _ open' parts
  | handOut place | pass place =>
    simp only [Pool.Stands, place] at stands
    exact ⟨stands.all, stands.fine, stands.whole⟩
  | listed place =>
    simp only [Pool.Stands, place] at stands
    exact stands.explains _
  | breaks place =>
    simp only [Pool.Stands, place] at stands
    exact stands.afterBreak _ _
  | look place _ _ _ fine =>
    simp only [Pool.Stands, place] at stands
    refine ⟨stands.all, fun ended member => ?_, stands.whole⟩
    exact (List.mem_append.mp member).elim (stands.fine ended) (fine ended)
  | lookFatal _ _ _ member fatal => exact .inl ⟨_, List.mem_append_right _ member, fatal⟩
  | submit place =>
    simp only [Pool.Stands, place] at stands
    refine ⟨?_, stands.fine, stands.whole⟩
    rw [Pool.taken_submit, List.append_assoc]
    exact stands.all
  | breakOff place cancelled =>
    simp only [Pool.Stands, place] at stands
    refine ⟨stands.fine, fun failed broken => ?_, fun quiet => ?_⟩
    · cases stands.whole.symm.trans broken
    · exact absurd (quiet.symm.trans cancelled) Bool.false_ne_true
  | drain place _ fine =>
    simp only [Pool.Stands, place] at stands
    exact stands.drain _ fine
  | drainFatal _ _ fatal =>
    exact ⟨.inl ⟨_, List.mem_append_right _ (List.mem_singleton_self _), fatal⟩, nofun⟩
  | close place ended looked =>
    simp only [Pool.Stands, place] at stands
    exact ⟨stands, fun _ => ⟨ended, looked⟩⟩
  | «finally» place ended =>
    simp only [Pool.Stands, place] at stands
    exact ⟨ended, _, rfl, stands.1, fun none => (stands.2 none).2⟩

/-! ## Every state -/

structure Pool.Sound (config : Config) (rules : List Rule) (parallelism : Nat) (listing : Listing)
    (pool : Pool) : Prop where
  listed : pool.taken <+: listing.repositories
  place : pool.HasPlace parallelism
  each : pool.HoldsEach
  outcomes : pool.HoldsOutcomes
  scanned : ∀ ended ∈ pool.ended, ended.IsOf config rules pool.cancelled
  broken : ∀ failed, pool.broken = some failed → listing.failure = some failed.failure
  stands : pool.Stands listing

theorem Pool.start_sound (config : Config) (rules : List Rule)
    (parallelism : Nat) (listing : Listing)
    (cancelled : Bool) : (start listing cancelled).Sound config rules parallelism listing where
  listed := List.nil_prefix
  place := Nat.zero_le _
  each := .refl _
  outcomes := .refl _
  scanned := nofun
  broken := nofun
  stands := ⟨rfl, nofun, rfl⟩

theorem Step.broken (step : Step config rules parallelism listing.failure pool next)
    (broken : ∀ failed, pool.broken = some failed → listing.failure = some failed.failure) :
    ∀ failed, next.broken = some failed → listing.failure = some failed.failure := by
  cases step with
  | breaks _ failed =>
    rintro _ ⟨⟩
    exact failed
  | _ => exact broken

theorem Step.taken_prefix (step : Step config rules parallelism listing.failure pool next)
    (listed : pool.taken <+: listing.repositories) (stands : pool.Stands listing) :
    next.taken <+: listing.repositories := by
  cases step with
  | submit place =>
    simp only [Pool.Stands, place] at stands
    rw [Pool.taken_submit, ← stands.all]
    exact (List.prefix_append_right_inj _).mpr (List.prefix_append [_] _)
  | _ => exact listed

theorem Pool.Sound.step (sound : pool.Sound config rules parallelism listing)
    (step : Step config rules parallelism listing.failure pool next) :
    next.Sound config rules parallelism listing where
  listed := step.taken_prefix sound.listed sound.stands
  place := step.hasPlace sound.place
  each := step.change.holdsEach sound.each
  outcomes := step.change.holdsOutcomes sound.outcomes
  scanned := step.change.scanned sound.scanned
  broken := step.broken sound.broken
  stands := step.stands sound.stands

theorem Reaches.sound {cancelled : Bool}
    (reached : Reaches config rules parallelism listing cancelled pool) :
    pool.Sound config rules parallelism listing := by
  induction reached with
  | refl => exact Pool.start_sound _ _ _ _ _
  | tail _ step ih => exact ih.step step

end Steps

end SupplyLint.Scan
