import SupplyLint.Proofs.Gitlab.Extends
import SupplyLint.Proofs.Merge

/-! # What extended jobs come to

`Expands` says what a job is extended to without regard to the way on which it is
reached. Where no job extends itself through others the reading agrees with it
(`resolveWithin_of_expands`), whichever job is on the way, and a job that is
extended twice is the same both times. -/
set_option autoImplicit false

namespace SupplyLint.Gitlab

abbrev Unknown := String × String

def unknownBase (path : String) (visit : Unknown) : Problem where
  kind := .unresolved
  path := path
  message := "'" ++ visit.1 ++ "' extends unknown job '" ++ visit.2 ++ "'"
  location := visit.1 ++ ".extends"

def isJob (jobs : RawJobs) (name : String) : Bool :=
  (rawJob jobs name).isSome

/-- What a job is extended to: its bases are extended, those that are jobs are merged in the order
in which it names them, and its own entries are merged over them. Along with the entries go the
unknown bases that are named on the way, once for each time that a job is extended. -/
inductive Expands (jobs : RawJobs) : String → Entries → List Unknown → Prop
  | extended {name : String} {bases : List String} (meaning : String → Entries)
      (visits : String → List Unknown)
      (listed : Field.texts (extendsField jobs name) = .ok bases)
      (below : ∀ base ∈ bases, isJob jobs base = true →
        Expands jobs base (meaning base) (visits base)) :
      Expands jobs name
        (Field.merge (((bases.filter (isJob jobs)).map meaning).foldl Field.merge [])
          (Keyed.erase ((rawJob jobs name).getD []) (.text "extends")))
        (bases.flatMap fun base => if isJob jobs base then visits base else [(name, base)])

/-- No job that is extended extends itself through others. -/
def NoCycleBelow (jobs : RawJobs) (name : String) : Prop :=
  ∀ base, Relation.ReflTransGen (Extends jobs) name base →
    ¬ Relation.TransGen (Extends jobs) base base

/-- The jobs on the way to a job that is resolved for another one: each names the next, which is not
on the way yet. -/
inductive Nested (jobs : RawJobs) (top : String) : List String → String → Prop
  | top : Nested jobs top [] top
  | base {above bases : List String} {name base : String} (below : Nested jobs top above name)
      (listed : Field.texts (extendsField jobs name) = .ok bases) (member : base ∈ bases)
      (fresh : base ∉ above ++ [name]) (known : isJob jobs base = true) :
      Nested jobs top (above ++ [name]) base

section Expansion
variable {jobs : RawJobs} {path name top base : String} {above way : List String}

/-! ## Ways -/

theorem extends_of_listed {bases : List String}
    (listed : Field.texts (extendsField jobs name) = .ok bases) (member : base ∈ bases)
    (known : isJob jobs base = true) : Extends jobs name base :=
  ⟨bases, listed, member, known⟩

def Leads (jobs : RawJobs) (above : List String) (name : String) : Prop :=
  ∀ job ∈ above, isJob jobs job = true ∧ Relation.TransGen (Extends jobs) job name

theorem Leads.concat (leads : Leads jobs above name) (step : Extends jobs name base) :
    Leads jobs (above ++ [name]) base := by
  intro job onWay
  rcases List.mem_append.mp onWay with before | last
  · exact ⟨(leads job before).1, (leads job before).2.tail step⟩
  · have ⟨bases, listed, member, _⟩ := step
    rw [List.mem_singleton.mp last]
    exact ⟨isJob_of_mem_bases listed member, .single step⟩

theorem Nested.leads (nested : Nested jobs top above name) : Leads jobs above name := by
  induction nested with
  | top => exact fun job none => absurd none List.not_mem_nil
  | base below listed member fresh known ih =>
    exact ih.concat (extends_of_listed listed member known)

theorem Nested.distinct (nested : Nested jobs top above name) : (above ++ [name]).Nodup := by
  induction nested with
  | top => exact List.nodup_singleton top
  | base below listed member fresh known ih =>
    exact ih.append (List.nodup_singleton _) (by simpa using fresh)

theorem Nested.listed (nested : Nested jobs top above name) (isTop : top ∈ jobs.keys) :
    above ++ [name] ⊆ jobs.keys := by
  induction nested with
  | top => simpa using isTop
  | base below listed member fresh known ih =>
    exact List.append_subset.mpr ⟨ih, by simpa using mem_keys_of_rawJob known⟩

theorem Nested.length_le (nested : Nested jobs top above name) (isTop : top ∈ jobs.keys) :
    (above ++ [name]).length ≤ jobs.length :=
  length_le_of_subset_keys nested.distinct (nested.listed isTop)

/-! ## The reading without ways -/

theorem NoCycleBelow.of_extends (noCycle : NoCycleBelow jobs name) (step : Extends jobs name base) :
    NoCycleBelow jobs base :=
  fun other reached => noCycle other (.head step reached)

theorem NoCycleBelow.not_mem_way (noCycle : NoCycleBelow jobs name)
    (leads : ∀ job ∈ above, Relation.TransGen (Extends jobs) job name)
    (step : Extends jobs name base) : base ∉ above ++ [name] := by
  intro onWay
  refine noCycle name .refl ?_
  rcases List.mem_append.mp onWay with before | last
  · exact .head step (leads base before)
  · rw [List.mem_singleton.mp last] at step
    exact .single step

theorem Expands.noCycle {entries : Entries} {visits : List Unknown}
    (expands : Expands jobs name entries visits) : NoCycleBelow jobs name := by
  induction expands with
  | @extended name bases meaning visits listed below ih =>
    have next {base : String} (step : Extends jobs name base) : NoCycleBelow jobs base := by
      obtain ⟨others, same, member, known⟩ := step
      obtain rfl := Except.ok.inj (listed.symm.trans same)
      exact ih base member known
    intro base reached
    rcases Relation.ReflTransGen.cases_head reached with rfl | ⟨first, step, later⟩
    · intro cycle
      obtain ⟨first, step, back⟩ := Relation.TransGen.head'_iff.mp cycle
      exact next step first .refl (.tail' back step)
    · exact next step base later

theorem noted_noteExtends_unknown (path name base : String) :
    noted (noteExtends path name base "unknown job " "" : Normalizing Unit) =
      [unknownBase path (name, base)] := by
  have words : "' extends unknown job '" = "' extends " ++ "unknown job " ++ "'" := by decide
  show [(_ : Problem)] = [_]
  simp [unknownBase, words, String.append_assoc]

variable (path name) in
theorem mergeBases_of_outside {resolveBase : String → Normalizing Entries} {bases : List String}
    {meaning : String → Entries} {visits : String → List Unknown}
    (outside : ∀ base ∈ bases, base ∉ way)
    (resolved : ∀ base ∈ bases, isJob jobs base = true →
      outcome (resolveBase base) = .ok (meaning base) ∧
        noted (resolveBase base) = (visits base).map (unknownBase path))
    (merged : Entries) :
    outcome (mergeBases resolveBase jobs path name way bases merged) =
        .ok (((bases.filter (isJob jobs)).map meaning).foldl Field.merge merged) ∧
      noted (mergeBases resolveBase jobs path name way bases merged) =
        (bases.flatMap fun base => if isJob jobs base then visits base else [(name, base)]).map
          (unknownBase path) := by
  induction bases generalizing merged with
  | nil => exact ⟨rfl, rfl⟩
  | cons base rest ih =>
    rw [List.forall_mem_cons] at outside resolved
    have later := ih outside.2 resolved.2
    unfold mergeBases
    rw [if_neg (by simpa using outside.1)]
    by_cases known : isJob jobs base = true
    · obtain ⟨own, problems⟩ := resolved.1 known
      have found : ¬ (rawJob jobs base).isNone = true := by
        simpa [isJob, ← Option.isSome_iff_ne_none] using known
      rw [if_neg found, outcome_bind, noted_bind_of_ok own, own, ok_bind, problems,
        (later _).1, (later _).2]
      simp [known]
    · have absent : (rawJob jobs base).isNone = true := by simpa [isJob] using known
      rw [if_pos absent, outcome_bind, noted_bind_of_ok rfl, noted_noteExtends_unknown,
        (later _).2]
      refine ⟨?_, by simp [known]⟩
      rw [List.filter_cons_of_neg known]
      exact (later merged).1

/-- A job comes to what it is extended to, whatever is on the way to it. -/
theorem resolveWithin_of_expands {entries : Entries} {visits : List Unknown} {budget : Nat}
    (expands : Expands jobs name entries visits) (enough : jobs.length < budget + above.length)
    (distinct : above.Nodup)
    (leads : Leads jobs above name) :
    outcome (resolveWithin jobs path budget above name) = .ok entries ∧
      noted (resolveWithin jobs path budget above name) = visits.map (unknownBase path) := by
  have noCycle := expands.noCycle
  induction expands generalizing budget above with
  | @extended name bases meaning visits listed below ih =>
    have short := length_way distinct fun job member => (leads job member).1
    obtain ⟨budget, rfl⟩ := Nat.exists_eq_succ_of_ne_zero (n := budget) (by omega)
    -- A base on the way would close a cycle.
    have outside : ∀ base ∈ bases, base ∉ above ++ [name] := by
      intro base member onWay
      have known : isJob jobs base = true := by
        rcases List.mem_append.mp onWay with before | last
        · exact (leads base before).1
        · rw [List.mem_singleton.mp last]
          exact isJob_of_mem_bases listed member
      exact noCycle.not_mem_way (fun job before => (leads job before).2)
        (extends_of_listed listed member known) onWay
    have resolved : ∀ base ∈ bases, isJob jobs base = true →
        outcome (resolveWithin jobs path budget (above ++ [name]) base) = .ok (meaning base) ∧
          noted (resolveWithin jobs path budget (above ++ [name]) base) =
            (visits base).map (unknownBase path) := by
      intro base member known
      have step := extends_of_listed listed member known
      refine ih base member known ?_ ?_ ?_ (noCycle.of_extends step)
      · rw [List.length_append, List.length_singleton]
        omega
      · refine distinct.append (List.nodup_singleton name) ?_
        rw [List.disjoint_singleton]
        exact fun before => noCycle name .refl (leads name before).2
      · exact leads.concat step
    have merged := mergeBases_of_outside path name outside resolved []
    have texts :
        outcome (liftM (Field.texts (extendsField jobs name)) : Normalizing (List String)) =
          .ok bases :=
      outcome_fault_of_ok listed
    have reading : resolveWithin jobs path (budget + 1) above name =
        (liftM (Field.texts (extendsField jobs name)) >>= fun bases =>
          mergeBases (resolveWithin jobs path budget (above ++ [name])) jobs path name
            (above ++ [name]) bases [] >>= fun merged =>
            pure (Field.merge merged
              (Keyed.erase ((rawJob jobs name).getD []) (.text "extends")))) := rfl
    rw [reading, outcome_bind, noted_bind_of_ok texts, texts, ok_bind, outcome_bind,
      noted_bind_of_ok merged.1, merged.1, merged.2]
    exact ⟨rfl, by simp⟩

theorem exists_expands (budget : Nat) (enough : jobs.length < budget + above.length)
    (distinct : above.Nodup)
    (leads : Leads jobs above name)
    (noCycle : NoCycleBelow jobs name)
    (named : ∀ base, Relation.ReflTransGen (Extends jobs) name base → NamesBases jobs base) :
    ∃ entries visits, Expands jobs name entries visits := by
  -- The jobs above are ever more, and there are only so many.
  induction budget generalizing above name with
  | zero =>
    have short := length_way distinct fun job member => (leads job member).1
    omega
  | succ budget ih =>
    obtain ⟨bases, listed⟩ := (Field.returns_texts (extendsField jobs name)).mpr (named name .refl)
    have each : ∀ base, ∃ result : Entries × List Unknown,
        base ∈ bases → isJob jobs base = true → Expands jobs base result.1 result.2 := by
      intro base
      by_cases known : base ∈ bases ∧ isJob jobs base = true
      · have step := extends_of_listed listed known.1 known.2
        obtain ⟨entries, visits, expands⟩ := ih
          (by rw [List.length_append, List.length_singleton]; omega)
          (distinct.append (List.nodup_singleton name) (by
            rw [List.disjoint_singleton]
            exact fun before => noCycle name .refl (leads name before).2))
          (leads.concat step) (noCycle.of_extends step)
          (fun other reached => named other (.head step reached))
        exact ⟨(entries, visits), fun _ _ => expands⟩
      · exact ⟨([], []), fun member isJob => absurd ⟨member, isJob⟩ known⟩
    obtain ⟨result, all⟩ := Classical.axiomOfChoice each
    exact ⟨_, _, .extended (fun base => (result base).1) (fun base => (result base).2) listed all⟩

/-! ## What is kept -/

def NoBases (entries : Entries) : Prop :=
  ∀ entry ∈ entries, entry.1 ≠ .text "extends"

theorem noBases_erase (own : Entries) : NoBases (own.erase (.text "extends")) := by
  intro entry member same
  obtain ⟨-, kept⟩ := List.mem_filter.mp member
  rw [same] at kept
  exact absurd kept (by decide)

theorem NoBases.merge {base upper : Entries} (below : NoBases base) (above : NoBases upper) :
    NoBases (Field.merge base upper) := by
  intro entry member same
  rcases Field.key_of_mem_merge upper member with inside | inside
  · obtain ⟨old, found, key⟩ := List.mem_map.mp inside
    exact below old found (key.trans same)
  · obtain ⟨new, found, key⟩ := List.mem_map.mp inside
    exact above new found (key.trans same)

theorem mergeBases_noBases {resolveBase : String → Normalizing Entries}
    (resolved : ∀ base entries, outcome (resolveBase base) = .ok entries → NoBases entries)
    (bases : List String) {merged result : Entries} (none : NoBases merged)
    (read : outcome (mergeBases resolveBase jobs path name way bases merged) = .ok result) :
    NoBases result := by
  induction bases generalizing merged with
  | nil =>
    obtain rfl := Except.ok.inj read
    exact none
  | cons base rest ih =>
    unfold mergeBases at read
    split at read
    · exact ih none read
    · split at read
      · exact ih none read
      · simp only [outcome_bind, bind_eq_ok] at read
        obtain ⟨entries, own, read⟩ := read
        exact ih (none.merge (resolved base entries own)) read

/-- What a job comes to is its own entries, but for the one that names its bases, merged over
others. -/
theorem resolveWithin_eq_ok {budget : Nat} {entries : Entries}
    (read : outcome (resolveWithin jobs path (budget + 1) above name) = .ok entries) :
    ∃ bases merged,
      outcome (mergeBases (resolveWithin jobs path budget (above ++ [name])) jobs path name
        (above ++ [name]) bases []) = .ok merged ∧
      entries = Field.merge merged
        (Keyed.erase ((rawJob jobs name).getD []) (.text "extends")) := by
  simp only [resolveWithin, outcome_bind, bind_eq_ok, outcome_pure, Except.ok.injEq] at read
  obtain ⟨bases, -, merged, read, rfl⟩ := read
  exact ⟨bases, merged, read, rfl⟩

theorem resolveWithin_noBases {budget : Nat} {entries : Entries}
    (read : outcome (resolveWithin jobs path budget above name) = .ok entries) :
      NoBases entries := by
  induction budget generalizing above name entries with
  | zero =>
    obtain rfl := Except.ok.inj read
    exact fun entry member => absurd member List.not_mem_nil
  | succ budget ih =>
    obtain ⟨bases, merged, below, rfl⟩ := resolveWithin_eq_ok read
    have nothing : NoBases [] := fun entry member => absurd member List.not_mem_nil
    exact (mergeBases_noBases (fun _ _ own => ih own) bases nothing below).merge (noBases_erase _)

theorem resolveExtends_keeps {own entries : Entries} {key value : Value}
    (read : outcome (resolveExtends jobs path name) = .ok entries)
    (isOwn : rawJob jobs name = some own) (distinct : own.Distinct) (member : (key, value) ∈ own)
    (other : key ≠ .text "extends") (plain : Field.isMapping value = false) :
    (∃ kept, (kept, value) ∈ entries ∧ (kept = key ∨ (kept == key) = true)) ∧
      ((key == key) = true → entries.get? key = some value) := by
  obtain ⟨bases, merged, -, rfl⟩ := resolveWithin_eq_ok read
  rw [isOwn, Option.getD_some]
  have inside : (key, value) ∈ Keyed.erase own (.text "extends") := by
    refine List.mem_filter.mpr ⟨member, ?_⟩
    simpa [Bool.eq_false_iff, Value.beq_text_iff] using other
  exact ⟨Field.exists_mem_merge _ (distinct.erase _) inside plain,
    fun equal => Field.get?_merge_of_mem _ (distinct.erase _) inside equal plain⟩

/-- A job comes to what it is extended to, on every way to it and with a note for each visit of an
unknown base, unless there is a cycle below it. With cycles and without, no way is longer than the
list of jobs, and the own values of the job are kept. -/
theorem resolveExtends_expands (jobs : RawJobs) (path name : String) (listed : name ∈ jobs.keys) :
    (NoCycleBelow jobs name →
      (Returns (outcome (resolveExtends jobs path name)) ↔
        ∃ entries visits, Expands jobs name entries visits) ∧
      ∀ entries visits, Expands jobs name entries visits →
        outcome (resolveExtends jobs path name) = .ok entries ∧
        noted (resolveExtends jobs path name) = visits.map (unknownBase path) ∧
        ∀ top above, top ∈ jobs.keys → Nested jobs top above name →
          resolveWithin jobs path (jobs.length + 1 - above.length) above name =
            resolveExtends jobs path name) ∧
    (∀ above base, Nested jobs name above base → (above ++ [base]).length ≤ jobs.length) ∧
    (∀ budget, jobs.length ≤ budget →
      resolveWithin jobs path budget [] name = resolveExtends jobs path name) ∧
    ∀ entries, outcome (resolveExtends jobs path name) = .ok entries →
      NoBases entries ∧
      ∀ own, rawJob jobs name = some own → own.Distinct → ∀ key value, (key, value) ∈ own →
        key ≠ .text "extends" → Field.isMapping value = false →
          (∃ kept, (kept, value) ∈ entries ∧ (kept = key ∨ (kept == key) = true)) ∧
            ((key == key) = true → entries.get? key = some value) := by
  have alone : Leads jobs [] name := fun job none => absurd none List.not_mem_nil
  have comes {entries : Entries} {visits : List Unknown}
      (expands : Expands jobs name entries visits) :
      outcome (resolveExtends jobs path name) = .ok entries ∧
        noted (resolveExtends jobs path name) = visits.map (unknownBase path) :=
    resolveWithin_of_expands expands (Nat.lt_succ_self jobs.length) List.nodup_nil alone
  refine ⟨fun noCycle => ⟨⟨fun returned => ?_, ?_⟩, ?_⟩, ?_, ?_, ?_⟩
  · by_cases known : isJob jobs name = true
    · exact exists_expands (jobs.length + 1) (by simp) List.nodup_nil alone noCycle
        ((returns_resolveExtends known).mp returned)
    · have none : rawJob jobs name = none := by simpa [isJob] using known
      have noBases : Field.texts (extendsField jobs name) = .ok [] := by
        rw [extendsField, none]
        rfl
      exact ⟨_, _, .extended (fun _ => []) (fun _ => []) noBases (by simp)⟩
  · rintro ⟨entries, visits, expands⟩
    exact ⟨entries, (comes expands).1⟩
  · intro entries visits expands
    refine ⟨(comes expands).1, (comes expands).2, fun top above isTop nested => ?_⟩
    have short := nested.length_le isTop
    rw [List.length_append, List.length_singleton] at short
    have onWay : outcome (resolveWithin jobs path (jobs.length + 1 - above.length) above name) =
        .ok entries ∧ noted (resolveWithin jobs path (jobs.length + 1 - above.length) above name) =
          visits.map (unknownBase path) :=
      resolveWithin_of_expands expands (by omega) nested.distinct.of_append_left nested.leads
    exact reading_ext (onWay.1.trans (comes expands).1.symm) (onWay.2.trans (comes expands).2.symm)
  · exact fun above base nested => nested.length_le listed
  · intro budget enough
    exact resolveWithin_congr_of_listed (by simpa using enough) (by simp)
      (List.nodup_singleton name)
      (by simpa using listed)
  · intro entries read
    exact ⟨resolveWithin_noBases read, fun own isOwn distinct key value member other plain =>
      resolveExtends_keeps read isOwn distinct member other plain⟩

end Expansion

def diamondJobs : RawJobs :=
  [("d", .map [(.text "extends", .list [.text "a", .text "x", .text "b"]),
    (.text "script", .text "s")]), ("a", .map [(.text "extends", .text "c")]),
   ("b", .map [(.text "extends", .text "c")]),
   ("c", .map [(.text "extends", .text "y"), (.text "script", .text "t")])]

/-- The base at the bottom names only what is no job. -/
theorem expands_bottom : ∃ entries visits, Expands diamondJobs "c" entries visits := by
  have listed : Field.texts (extendsField diamondJobs "c") = .ok ["y"] := rfl
  refine ⟨_, _, .extended (fun _ => []) (fun _ => []) listed fun base member known => ?_⟩
  obtain rfl := List.mem_singleton.mp member
  exact absurd known (by decide)

theorem expands_diamond : ∃ entries visits, Expands diamondJobs "d" entries visits := by
  obtain ⟨entries, visits, c⟩ := expands_bottom
  have ofBase (name : String) (listed : Field.texts (extendsField diamondJobs name) = .ok ["c"]) :
      ∃ entries visits, Expands diamondJobs name entries visits :=
    ⟨_, _, .extended (fun _ => entries) (fun _ => visits) listed (by simpa using fun _ => c)⟩
  obtain ⟨entriesOfA, visitsOfA, a⟩ := ofBase "a" rfl
  obtain ⟨entriesOfB, visitsOfB, b⟩ := ofBase "b" rfl
  have listed : Field.texts (extendsField diamondJobs "d") = .ok ["a", "x", "b"] := rfl
  refine ⟨_, _, .extended (fun base => if base = "a" then entriesOfA else entriesOfB)
    (fun base => if base = "a" then visitsOfA else visitsOfB) listed ?_⟩
  simpa [show isJob diamondJobs "x" = false from rfl] using ⟨fun _ => a, fun _ => b⟩

theorem diamond_expands_alike :
    (∃ entries visits, Expands diamondJobs "d" entries visits ∧
      outcome (resolveExtends diamondJobs "w.yml" "d") = .ok entries ∧
      entries.get? (.text "script") = some (.text "s")) ∧
    noted (resolveExtends diamondJobs "w.yml" "d") =
      [unknownBase "w.yml" ("c", "y"), unknownBase "w.yml" ("d", "x"),
        unknownBase "w.yml" ("c", "y")] ∧
    resolveWithin diamondJobs "w.yml" 3 ["d", "a"] "c" =
      resolveExtends diamondJobs "w.yml" "c" := by
  obtain ⟨entries, visits, expands⟩ := expands_diamond
  obtain ⟨comes, -, -, kept⟩ := resolveExtends_expands diamondJobs "w.yml" "d" (by decide)
  obtain ⟨read, -, -⟩ := (comes expands.noCycle).2 entries visits expands
  have script := (kept entries read).2 _ rfl (by simp [Keyed.Distinct]; decide) (.text "script")
    (.text "s") (by simp) (by simp) rfl
  refine ⟨⟨entries, visits, expands, read, script.2 rfl⟩, by decide, ?_⟩
  have listed : Field.texts (extendsField diamondJobs "d") = .ok ["a", "x", "b"] := rfl
  have below : Field.texts (extendsField diamondJobs "a") = .ok ["c"] := rfl
  have nested : Nested diamondJobs "d" ["d", "a"] "c" :=
    .base (.base .top listed (by simp) (by decide) rfl) below (by simp) (by decide) rfl
  obtain ⟨own, ownVisits, bottom⟩ := expands_bottom
  obtain ⟨again, -⟩ := resolveExtends_expands diamondJobs "w.yml" "c" (by decide)
  exact ((again bottom.noCycle).2 own ownVisits bottom).2.2 "d" ["d", "a"] (by decide) nested

end SupplyLint.Gitlab
