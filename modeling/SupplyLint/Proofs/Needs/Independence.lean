import SupplyLint.Proofs.Needs.Validate

/-! # What becomes of needs and what does not matter for it

`validate_mapValues`: what becomes of the needs of jobs, and what is noted of them,
depends on the names, the order and the needs of the jobs, and on nothing else that
is in them. `filter_validate`: a part of the jobs that waits for nothing outside of
it, and not in a circle, is left as it is, whatever else the jobs wait for. So a
second pass finds nothing to do (`validate_of_acyclic`). -/
set_option autoImplicit false

namespace SupplyLint

/-! ## What else there is in jobs -/

structure Job.SparesNeeds (change : Job → Job) : Prop where
  name : ∀ job, (change job).name = job.name
  index : ∀ job, (change job).index = job.index
  needs : ∀ job, (change job).needs = job.needs
  withNeeds : ∀ job needs, change { job with needs := needs } = { change job with needs := needs }

variable {change : Job → Job}

theorem Jobs.ordered_mapValues (spares : Job.SparesNeeds change) (jobs : Jobs) :
    Jobs.ordered (Keyed.mapValues change jobs) = jobs.ordered.map change := by
  rw [ordered, ordered, Keyed.values_mapValues, List.map_mergeSort]
  intro first _ second _
  rw [spares.index, spares.index]

namespace Needs

theorem keepKnown_mapValues (jobs : Jobs) (path name : String) (needs : List String) :
    keepKnown (Keyed.mapValues change jobs) path name needs = keepKnown jobs path name needs := by
  induction needs with
  | nil => rfl
  | cons need rest ih => rw [keepKnown, keepKnown, Keyed.has_mapValues, ih]

theorem dropUnknown_mapValues (spares : Job.SparesNeeds change) (all : Jobs) (path : String)
    (jobs : Jobs) :
    dropUnknown (Keyed.mapValues change all) path (Keyed.mapValues change jobs) =
      Keyed.mapValues change <$> dropUnknown all path jobs := by
  induction jobs with
  | nil => rfl
  | cons entry rest ih =>
    obtain ⟨key, job⟩ := entry
    simp only [Keyed.mapValues_cons, dropUnknown, keepKnown_mapValues, ih,
      spares.name, spares.needs, map_bind, bind_map_left, map_pure]
    refine congrArg _ (funext fun needs => ?_)
    simp only [spares.withNeeds job needs, spares.name]

theorem needsOf_mapValues (spares : Job.SparesNeeds change) (jobs : Jobs) (name : String) :
    needsOf (Keyed.mapValues change jobs) name = needsOf jobs name := by
  rw [needsOf, Keyed.mapValues, Keyed.get?_mapValues, needsOf]
  cases jobs.get? name with
  | none => rfl
  | some job => exact spares.needs job

theorem walkFrom_mapValues (spares : Job.SparesNeeds change) (jobs : Jobs) (path : String)
    (budget : Nat) :
    walkFrom (Keyed.mapValues change jobs) path budget = walkFrom jobs path budget := by
  induction budget with
  | zero => rfl
  | succ budget ih =>
    funext above finished name
    rw [walkFrom, walkFrom, needsOf_mapValues spares, ih]

theorem walkAll_mapValues (spares : Job.SparesNeeds change) (jobs : Jobs) (path : String)
    (names : List String) (finished : Finished) :
    walkAll (Keyed.mapValues change jobs) path names finished =
      walkAll jobs path names finished := by
  induction names generalizing finished with
  | nil => rfl
  | cons name rest ih =>
    rw [walkAll, walkAll, walkFrom_mapValues spares, Keyed.length_mapValues]
    simp only [ih]

theorem withNeeds_mapValues (spares : Job.SparesNeeds change) (finished : Finished) (jobs : Jobs) :
    withNeeds finished (Keyed.mapValues change jobs) =
      Keyed.mapValues change (withNeeds finished jobs) := by
  simp only [withNeeds, Keyed.mapValues, List.map_map]
  refine List.map_congr_left fun entry _ => ?_
  have changed := spares.withNeeds entry.2 ((finished.get? entry.2.name).getD entry.2.needs)
  simp only [Function.comp_apply, changed, spares.name, spares.needs]

/-- What becomes of needs, and what is noted of them, does not depend on what else there is in
jobs. -/
theorem validate_mapValues (spares : Job.SparesNeeds change) (jobs : Jobs) (path : String) :
    validate (Keyed.mapValues change jobs) path = Keyed.mapValues change <$>
      validate jobs path := by
  have names (known : Jobs) :
      (Jobs.ordered (Keyed.mapValues change known)).map (·.name) = known.ordered.map (·.name) := by
    rw [Jobs.ordered_mapValues spares, List.map_map]
    exact List.map_congr_left fun job _ => spares.name job
  unfold validate
  rw [dropUnknown_mapValues spares]
  simp only [bind_map_left, map_bind, map_pure, walkAll_mapValues spares,
    withNeeds_mapValues spares, names]

/-! ## Needs within a part of the jobs -/

/-- The jobs of a part wait only for jobs, and none of them in a circle for itself. -/
structure SelfContained (part : String → Bool) (jobs : Jobs) : Prop where
  known : ∀ name need, part name = true → Waits jobs name need → jobs.has need = true
  acyclic : ∀ name, part name = true → ¬ Relation.TransGen (Waits jobs) name name

theorem transGen_withEdge {edges : String → String → Prop} {source target name last : String}
    (path : Relation.TransGen (WithEdge edges source target) name last) :
    Relation.TransGen edges name last ∨
      Relation.ReflTransGen (WithEdge edges source target) name source ∧
        Relation.ReflTransGen (WithEdge edges source target) target last := by
  induction path with
  | single edge =>
    rcases edge with old | ⟨rfl, rfl⟩
    · exact Or.inl (.single old)
    · exact Or.inr ⟨.refl, .refl⟩
  | tail before edge ih =>
    rcases ih with without | ⟨toSource, fromTarget⟩
    · rcases edge with old | ⟨rfl, rfl⟩
      · exact Or.inl (without.tail old)
      · exact Or.inr ⟨before.to_reflTransGen, .refl⟩
    · exact Or.inr ⟨toSource, fromTarget.tail edge⟩

/-- One more edge closes a cycle only through its source. -/
theorem acyclic_withEdge {edges : String → String → Prop} {source target : String}
    (acyclic : Acyclic edges)
    (apart : ¬ Relation.TransGen (WithEdge edges source target) source source) :
    Acyclic (WithEdge edges source target) := by
  intro name cycle
  rcases transGen_withEdge cycle with without | ⟨toSource, fromTarget⟩
  · exact acyclic name without
  · have back : Relation.ReflTransGen (WithEdge edges source target) target source :=
      fromTarget.trans toSource
    exact apart (Relation.TransGen.head' (Or.inr ⟨rfl, rfl⟩) back)

section Part
variable {jobs : Jobs} (keyed : WellKeyed jobs) (path : String)
include keyed

theorem waits_of_validate {name need : String}
    (waits : Waits (validate jobs path).value name need) : Waits jobs name need := by
  obtain ⟨finished, problems, settles, value⟩ := validate_value keyed path
  obtain ⟨job, found, wanted⟩ := waits
  rw [value, Keyed.get?_mapValues (fun job => settle finished (restrict jobs job))] at found
  obtain ⟨old, inside, rfl⟩ := Option.map_eq_some_iff.mp found
  have pruned := prunes_settle keyed settles (Keyed.mem_of_get?_eq_some inside)
  exact ⟨old, inside, pruned.sublist.subset wanted⟩

theorem kept_of_selfContained {part : String → Bool} (contained : SelfContained part jobs)
    {entry : String × Job} (member : entry ∈ jobs) (inside : part entry.1 = true) (need : String)
    (wanted : need ∈ entry.2.needs) : need ∈ needsOf (validate jobs path).value entry.1 := by
  have validated := validate_validated keyed path
  have waits : Waits jobs entry.1 need :=
    ⟨entry.2, (Keyed.get?_eq_some_iff keyed.distinct).mpr member, wanted⟩
  by_contra dropped
  rcases validated.minimal entry member need wanted dropped with absent | cyclic
  · rw [contained.known entry.1 need inside waits] at absent
    exact Bool.noConfusion absent
  · refine cyclic (acyclic_withEdge validated.acyclic fun cycle => ?_)
    -- The cycle would be one of the needs that the part had from the start.
    refine contained.acyclic entry.1 inside (Relation.TransGen.mono ?_ _ _ cycle)
    rintro a b (edge | ⟨rfl, rfl⟩)
    · exact waits_of_validate keyed path edge
    · exact waits

theorem filter_validate {part : String → Bool} (contained : SelfContained part jobs) :
    ((validate jobs path).value.filter fun entry => part entry.1) =
      jobs.filter fun entry => part entry.1 := by
  have kept (entry : String × Job) (member : entry ∈ jobs) (inside : part entry.1 = true) :=
    kept_of_selfContained keyed path contained member inside
  obtain ⟨finished, problems, settles, value⟩ := validate_value keyed path
  rw [value] at kept
  rw [value, List.filter_map]
  show (jobs.filter fun entry => part entry.1).map _ = _
  conv_rhs => rw [← List.map_id (jobs.filter fun entry => part entry.1)]
  apply List.map_congr_left
  intro entry inside
  obtain ⟨member, inside⟩ := List.mem_filter.mp inside
  exact Prod.ext rfl (settle_of_kept keyed settles member (kept entry member inside))

end Part

/-- Whatever pass is made over needs that order the jobs, it leaves out nothing. -/
theorem validate_of_acyclic {jobs : Jobs} (keyed : WellKeyed jobs)
    (known : ∀ entry ∈ jobs, ∀ need ∈ entry.2.needs, jobs.has need = true)
    (acyclic : Acyclic (Waits jobs)) (path : String) : validate jobs path = pure jobs := by
  -- All jobs together wait for nothing outside of them.
  have contained : SelfContained (fun _ => true) jobs := by
    refine ⟨?_, fun name _ => acyclic name⟩
    rintro name need - ⟨job, found, wanted⟩
    exact known (name, job) (Keyed.mem_of_get?_eq_some found) need wanted
  have value : (validate jobs path).value = jobs := by
    simpa using filter_validate keyed path contained
  have problems : (validate jobs path).problems = [] := by
    have nothing : droppedProblems jobs (validate jobs path).value path = [] := by
      rw [droppedProblems, List.flatMap_eq_nil_iff]
      intro entry member
      rw [List.map_eq_nil_iff, List.filter_eq_nil_iff]
      intro need wanted
      simpa using kept_of_selfContained keyed path contained member rfl need wanted
    exact List.Perm.eq_nil (nothing ▸ validate_problems keyed path)
  cases run : validate jobs path with
  | mk left noted =>
    rw [run] at value problems
    subst value problems
    rfl

end Needs

end SupplyLint
