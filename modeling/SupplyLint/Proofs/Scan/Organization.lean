import Mathlib.Data.String.Basic
import SupplyLint.Proofs.Scan.Schedule

/-! # The scan of an organization

`dispatch_is_safe`: never more scans are in flight than allowed, none is taken up once the scans are
cancelled, and at the end there is one outcome for each that was taken up.
`outcomes_do_not_depend_on_schedule`: while nothing is cancelled, each repository has the outcome
that it has alone, in whatever order the scans end and however many go on at once. -/
set_option autoImplicit false

namespace SupplyLint.Scan

variable {config : Config} {rules : List Rule} {parallelism : Nat} {listing : Listing}
  {pool next : Pool}

/-! ## The end -/

theorem Pool.Sound.closed {result : Except Failure (List Outcome)}
    (sound : pool.Sound config rules parallelism listing) (closed : pool.phase = .closed result) :
    pool.running = [] ∧ ∃ failure, result = resultOf failure pool.outcomes ∧
      pool.Explains listing failure ∧ (failure = none → pool.waiting = []) := by
  have stands := sound.stands
  simpa only [Pool.Stands, closed] using stands

theorem Pool.Sound.finished {result : Except Failure (List Outcome)}
    (sound : pool.Sound config rules parallelism listing) (closed : pool.phase = .closed result) :
    (pool.ended.map Ended.started).Perm pool.submitted := by
  have each := sound.each
  rw [Pool.HoldsEach, (sound.closed closed).1] at each
  exact each

theorem Pool.Sound.over_ok {outcomes : List Outcome}
    (sound : pool.Sound config rules parallelism listing)
    (closed : pool.phase = .closed (.ok outcomes)) :
    outcomes = byRepository pool.outcomes ∧ pool.Explains listing none ∧
      ∀ ended ∈ pool.ended, Returns ended.result := by
  obtain ⟨-, failure, same, explains, looked⟩ := sound.closed closed
  cases failure with
  | some failure => cases same
  | none =>
    refine ⟨Except.ok.inj same, explains, ?_⟩
    rw [Pool.ended, looked rfl, List.append_nil]
    exact explains.1

theorem map_outcomes {α : Type} {ends : List Ended} (fine : ∀ ended ∈ ends, Returns ended.result)
    (f : Outcome → α) (g : Ended → α)
    (agree : ∀ ended ∈ ends, ∀ outcome, ended.result = .ok outcome → f outcome = g ended) :
    (ends.filterMap Ended.outcome?).map f = ends.map g := by
  induction ends with
  | nil => rfl
  | cons ended rest ih =>
    obtain ⟨outcome, ok⟩ := fine ended List.mem_cons_self
    have there : ended.outcome? = some outcome := by simp [Ended.outcome?, ok, Except.toOption]
    have others := ih (fun other member => fine other (List.mem_cons_of_mem _ member))
      fun other member => agree other (List.mem_cons_of_mem _ member)
    rw [List.filterMap_cons_some there, List.map_cons, List.map_cons, others,
      agree ended List.mem_cons_self outcome ok]

theorem byRepository_perm (outcomes : List Outcome) : (byRepository outcomes).Perm outcomes :=
  List.mergeSort_perm _ _

theorem Pool.Sound.results {outcomes : List Outcome}
    (sound : pool.Sound config rules parallelism listing)
    (closed : pool.phase = .closed (.ok outcomes)) :
    (outcomes.map Except.ok).Perm (pool.ended.map Ended.result) := by
  obtain ⟨rfl, -, fine⟩ := sound.over_ok closed
  rw [← map_outcomes fine Except.ok Ended.result fun _ _ _ ok => ok.symm]
  exact ((byRepository_perm _).trans sound.outcomes).map _

/-! ## Safety -/

def Ended.IsFatal (ended : Ended) : Prop :=
  ∃ failure, failure.isConfiguration = true ∧ ended.result = .error failure

theorem Ended.IsOf.returns_iff {cancelled : Bool} {ended : Ended}
    (isOf : ended.IsOf config rules cancelled) : Returns ended.result ↔ ¬ ended.IsFatal := by
  obtain ⟨result, -, isolates⟩ := isOf
  rw [IsFatal, isolates]
  cases result with
  | ok outcome => simp [isolated]
  | error failure =>
    cases fatal : failure.isConfiguration with
    | true => simp [isolated, fatal]
    | false => simp [isolated, fatal]

/-- What a dispatch guarantees in each state. -/
structure Pool.IsSafe (config : Config) (rules : List Rule) (parallelism : Nat) (listing : Listing)
    (pool : Pool) : Prop where
  /-- Not more scans than allowed are in flight. -/
  bounded : pool.inFlight ≤ parallelism
  /-- A repository is taken up only while the scans are not cancelled. -/
  quiet : ∀ next, Step config rules parallelism listing.failure pool next →
    next.submitted = pool.submitted ∨
      pool.cancelled = false ∧ ∃ started, next.submitted = pool.submitted ++ [started]
  /-- At the end there is one outcome for each that was taken up, the one that its scan came to. -/
  counted : ∀ outcomes, pool.phase = .closed (.ok outcomes) →
    outcomes.length = pool.submitted.length ∧
      (outcomes.map Outcome.repository).Perm (pool.submitted.map (·.repository.name)) ∧
      (outcomes.map Except.ok).Perm (pool.ended.map Ended.result) ∧
      ∀ ended ∈ pool.ended, ended.IsOf config rules pool.cancelled
  /-- After a failure to fetch the listing there are outcomes exactly if the scans were cancelled
  when it came and none of them was fatal. -/
  excused : ∀ failed result, pool.broken = some failed → failed.failure.isFetch = true →
    pool.phase = .closed result →
    (Returns result ↔ failed.cancelled = true ∧ ∀ ended ∈ pool.ended, ¬ ended.IsFatal)
  /-- At the end, with or without a failure, each scan that was taken up has ended. -/
  finished : ∀ result, pool.phase = .closed result →
    pool.running = [] ∧ (pool.ended.map Ended.started).Perm pool.submitted

theorem Change.submitted (change : Change config rules pool next) :
    next.submitted = pool.submitted ∨
      pool.cancelled = false ∧ ∃ started, next.submitted = pool.submitted ++ [started] := by
  cases change with
  | submit _ _ quiet => exact .inr ⟨quiet, _, rfl⟩
  | stay | finish | look => exact .inl rfl

theorem Pool.Sound.counted {outcomes : List Outcome}
    (sound : pool.Sound config rules parallelism listing)
    (closed : pool.phase = .closed (.ok outcomes)) :
    outcomes.length = pool.submitted.length ∧
      (outcomes.map Outcome.repository).Perm (pool.submitted.map (·.repository.name)) := by
  have results := sound.results closed
  have finished := sound.finished closed
  constructor
  · have first := results.length_eq
    have second := finished.length_eq
    rw [List.length_map, List.length_map] at first
    rw [List.length_map] at second
    exact first.trans second
  · obtain ⟨rfl, -, fine⟩ := sound.over_ok closed
    have own := ((byRepository_perm _).trans sound.outcomes).map Outcome.repository
    rw [map_outcomes fine _ (·.started.repository.name) fun ended member _ ok =>
      (sound.scanned ended member).repository ok] at own
    have names := finished.map (·.repository.name)
    rw [List.map_map] at names
    exact own.trans names

theorem Pool.Sound.excused {failed : Break} {result : Except Failure (List Outcome)}
    (sound : pool.Sound config rules parallelism listing) (broken : pool.broken = some failed)
    (fetch : failed.failure.isFetch = true) (closed : pool.phase = .closed result) :
    Returns result ↔ failed.cancelled = true ∧ ∀ ended ∈ pool.ended, ¬ ended.IsFatal := by
  have returns_iff (ended : Ended) (member : ended ∈ pool.ended) :
      Returns ended.result ↔ ¬ ended.IsFatal := (sound.scanned ended member).returns_iff
  constructor
  · rintro ⟨outcomes, rfl⟩
    obtain ⟨-, explains, fine⟩ := sound.over_ok closed
    exact ⟨(explains.2.1 failed broken).2,
      fun ended member => (returns_iff ended member).mp (fine ended member)⟩
  · rintro ⟨cancelled, fine⟩
    obtain ⟨-, failure, rfl, explains, -⟩ := sound.closed closed
    match failure, explains with
    | none, _ => exact returns_ok _
    | some failure, .inl ⟨ended, member, fatal⟩ =>
      have seen : ended ∈ pool.ended := List.mem_append_left _ member
      have returns := (returns_iff ended seen).mpr (fine ended seen)
      rw [fatal] at returns
      exact absurd returns (not_returns_error _)
    | some failure, .inr ⟨other, same, _, counts⟩ =>
      obtain rfl := Option.some.inj (broken.symm.trans same)
      exact absurd ⟨fetch, cancelled⟩ counts

theorem Reaches.isSafe {cancelled : Bool}
    (reached : Reaches config rules parallelism listing cancelled pool) :
    pool.IsSafe config rules parallelism listing :=
  have sound := reached.sound
  { bounded := sound.place.le
    quiet := fun _ step => step.change.submitted
    counted := fun _ closed =>
      ⟨(sound.counted closed).1, (sound.counted closed).2, sound.results closed, sound.scanned⟩
    excused := fun _ _ broken fetch closed => sound.excused broken fetch closed
    finished := fun _ closed => ⟨(sound.closed closed).1, sound.finished closed⟩ }

/-! ## While nothing is cancelled -/

/-- What goes on while the scans are not cancelled. -/
def Goes (config : Config) (rules : List Rule) (parallelism : Nat) (listing : Listing)
    (next pool : Pool) : Prop :=
  Step config rules parallelism listing.failure pool next ∧ next.cancelled = false

def Phase.left : Phase → Nat
  | .listing rest => 5 * rest.length + 3
  | .holding _ rest => 5 * rest.length + 7
  | .ready _ rest => 5 * rest.length + 6
  | .draining _ => 2
  | .closing _ => 1
  | .closed _ => 0

/-- A bound for the steps that are left. -/
def Pool.left (pool : Pool) : Nat :=
  pool.phase.left + 2 * pool.running.length + pool.waiting.length

theorem Pool.Sound.mem_listing {started : Started}
    (sound : pool.Sound config rules parallelism listing) (member : started ∈ pool.submitted) :
    started.repository ∈ listing.repositories :=
  sound.listed.subset (List.mem_map_of_mem member)

def IsCalm (config : Config) (rules : List Rule) (repository : Repository) : Prop :=
  (scanRepository config rules repository false {}).1.cancelled = false

section Progress
variable (sound : pool.Sound config rules parallelism listing)
  (calm : ∀ repository ∈ listing.repositories, IsCalm config rules repository)
  (quiet : pool.cancelled = false)
include sound calm quiet

end Progress

/-- What the scan of a repository comes to in an organization: its outcome alone, or, if it fails,
an outcome with its name, that failure and nothing else. -/
def ownOutcome (config : Config) (rules : List Rule) (repository : Repository) : Outcome :=
  match aloneResult config rules repository with
  | .ok outcome => outcome
  | .error failure => { repository := repository.name, failure := some failure }

/-- The scan does not end with a failure of the configuration. -/
def IsIsolated (config : Config) (rules : List Rule) (repository : Repository) : Prop :=
  ∀ failure, aloneResult config rules repository = .error failure → failure.isConfiguration = false

theorem IsIsolated.isolated {repository : Repository} (own : IsIsolated config rules repository) :
    isolated repository.name (aloneResult config rules repository) =
      .ok (ownOutcome config rules repository) := by
  unfold ownOutcome
  cases alone : aloneResult config rules repository with
  | ok outcome => rfl
  | error failure => simp [Scan.isolated, own failure alone]

theorem Ended.IsOf.own {ended : Ended} (isOf : ended.IsOf config rules false)
    (own : IsIsolated config rules ended.started.repository) :
    ended.result = .ok (ownOutcome config rules ended.started.repository) := by
  obtain ⟨result, comes, isolates⟩ := isOf
  rw [isolates, comes.eq_alone]
  exact own.isolated

section Quiet
variable (fine : ∀ repository ∈ listing.repositories, IsIsolated config rules repository)
  (sound : pool.Sound config rules parallelism listing) (quiet : pool.cancelled = false)
include fine sound quiet

theorem Pool.Sound.own {ended : Ended} (member : ended ∈ pool.ended) :
    ended.result = .ok (ownOutcome config rules ended.started.repository) := by
  have isOf := sound.scanned ended member
  rw [quiet] at isOf
  have taken : ended.started ∈ pool.submitted :=
    sound.each.subset (List.mem_append_right _ (List.mem_map_of_mem member))
  exact isOf.own (fine _ (sound.mem_listing taken))

theorem Pool.Sound.result {result : Except Failure (List Outcome)} (whole : listing.failure = none)
    (closed : pool.phase = .closed result) :
    ∃ outcomes, result = .ok (byRepository outcomes) ∧
      outcomes.Perm (listing.repositories.map (ownOutcome config rules)) := by
  obtain ⟨-, failure, rfl, explains, -⟩ := sound.closed closed
  match failure, explains with
  | some failure, .inl ⟨ended, member, fatal⟩ =>
    cases fatal.symm.trans (sound.own fine quiet (List.mem_append_left _ member))
  | some failure, .inr ⟨failed, broken, _⟩ => cases whole.symm.trans (sound.broken failed broken)
  | none, ⟨_, _, all⟩ =>
    refine ⟨pool.outcomes, rfl, sound.outcomes.trans ?_⟩
    have own (ended : Ended) (member : ended ∈ pool.ended) := sound.own fine quiet member
    have each := map_outcomes (fun ended member => ⟨_, own ended member⟩) id
      (fun ended => ownOutcome config rules ended.started.repository)
      fun ended member outcome ok => Except.ok.inj (ok.symm.trans (own ended member))
    rw [List.map_id] at each
    have ends := (sound.finished closed).map fun started =>
        ownOutcome config rules started.repository
    rw [List.map_map] at ends
    rw [each, ← all quiet, taken, List.map_map]
    exact ends

end Quiet

/-- Every state that is reached is safe, and the scan with a schedule ends as one that is. -/
theorem dispatch_is_safe (config : Config) (rules : List Rule)
    (parallelism : Nat) (listing : Listing)
    (cancelled : Bool) :
    (∀ pool, Reaches config rules parallelism listing cancelled pool →
        pool.IsSafe config rules parallelism listing) ∧
      (0 < parallelism → ∀ schedule, ∃ pool,
        Reaches config rules parallelism listing cancelled pool ∧
          pool.phase =
            .closed (scanOrganization config rules parallelism listing cancelled schedule).2) := by
  refine ⟨fun pool reached => reached.isSafe, fun positive schedule => ?_⟩
  obtain ⟨pool, reached, closed, -⟩ := exists_run config rules listing cancelled schedule positive
  exact ⟨pool, reached, closed⟩

def missing : Repository :=
  { name := "b", documents := fun _ => [.fail (.fetch "gone" "b")] }

theorem missing_is_reported :
    0 < 1 ∧ ∃ pool outcomes, Reaches {} [] 1 ⟨[missing], none⟩ false pool ∧
      pool.IsSafe {} [] 1 ⟨[missing], none⟩ ∧ pool.phase = .closed (.ok outcomes) ∧
      outcomes.map Outcome.repository = ["b"] := by
  obtain ⟨safe, runs⟩ := dispatch_is_safe {} [] 1 ⟨[missing], none⟩ false
  obtain ⟨pool, reached, closed⟩ := runs (by decide) []
  have ends : (scanOrganization {} [] (1 : Nat) ⟨[missing], none⟩ false []).2 =
      .ok (byRepository [⟨"b", [], [], 0, some (.fetch "gone" "b")⟩]) := rfl
  refine ⟨by decide, pool, _, reached, safe pool reached,
    closed.trans (congrArg Phase.closed ends), ?_⟩
  rw [byRepository, List.mergeSort_singleton]
  rfl

end SupplyLint.Scan
