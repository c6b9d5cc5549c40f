import SupplyLint.Proofs.Document.Triggers
import SupplyLint.Proofs.Github.Lookups
import SupplyLint.Proofs.Gitlab.Trails

/-! # What is looked up for a document is bounded

`reading_is_bounded`: whatever a resolver gives, a document is read with finitely
many lookups, each at the end of a chain of files that is not longer than it may be
and holds no file twice; and no budget of the reading is used up. A trail of
triggers may hold a file twice, but only when a file before it has no key of its
own. -/
set_option autoImplicit false

namespace SupplyLint.Document

open SupplyLint.Gitlab (Layer TopLayer)

def lookups (resolve : Resolver) (document : Document) : List Lookup :=
  match document.platform with
  | .github => Github.documentLookups resolve document.path document.content
  | .gitlab => Gitlab.documentLookups resolve document.path document.content
  | .other _ => []

def HasCallers (resolve : Resolver) (document : Document)
    (callers : List String) (job : Job) : Prop :=
  match document.platform with
  | .github => ∃ raw, Github.entriesOf document.path document.content = .ok (some raw) ∧
      Github.HasCallers resolve document.path raw callers job
  | .gitlab => ∃ top, TopLayer resolve document.path document.content top ∧
      Gitlab.ComesThrough resolve top callers job
  | .other _ => False

/-- A document is read with a bounded number of lookups, chains, callers and steps. -/
structure IsBounded (resolve : Resolver) (document : Document) : Prop where
  /-- Nothing matters of a resolver but what it gives for the lookups, of which there is a list. -/
  finite : ∀ other, Agree resolve other (document.lookups resolve) →
    document.pipeline resolve = document.pipeline other
  made : Returns (outcome (document.pipeline resolve)) →
    ∀ lookup ∈ document.lookups resolve, FileLoads resolve lookup.target
  chains : ∀ lookup ∈ document.lookups resolve, IsChain lookup.files
  /-- A trail of files, each named by a trigger in the child pipeline of the one before. -/
  trails : ∀ top, TopLayer resolve document.path document.content top →
    ∀ files last target, Way (Layer.StartsFile resolve) top files last → last.AsksFor target →
      (document.path :: (files ++ [target])).length ≤ maxFiles
  /-- The same, when every file that starts a child pipeline has a key that no file before it
  has. -/
  distinct : ∀ top, TopLayer resolve document.path document.content top →
    ∀ files last target, Way (Layer.StartsOwn resolve) top files last → last.AsksFor target →
      (document.path :: (files ++ [target])).Nodup
  /-- A file has such a key if its trigger names no other file. -/
  alone : ∀ layer target child, Layer.StartsAlone resolve layer target child →
    layer.StartsOwn resolve target child
  reached : ∀ pipeline, outcome (document.pipeline resolve) = .ok pipeline →
    ∀ job ∈ pipeline.jobs.values, ∃ callers, document.HasCallers resolve callers job
  callers : ∀ callers job, document.HasCallers resolve callers job → callers.length ≤ maxFiles - 1
  /-- The levels of child pipelines are enough for every configuration that is reached. -/
  levels : ∀ top, TopLayer resolve document.path document.content top →
    ∀ layer, Relation.ReflTransGen (Layer.Triggers resolve) top layer →
      ∀ levels, maxFiles ≤ levels →
      Gitlab.gather resolve levels layer.chain layer.path layer.origins layer.entries =
        Gitlab.gather resolve maxFiles layer.chain layer.path layer.origins layer.entries
  /-- The budget for what jobs extend is enough for any jobs. -/
  bases : ∀ (jobs : Gitlab.RawJobs) path name budget, jobs.length < budget →
    Gitlab.resolveWithin jobs path budget [] name = Gitlab.resolveExtends jobs path name

section Bounded
variable {resolve : Resolver} {document : Document}

theorem pipeline_of_agree {other : Resolver}
    (agree : Agree resolve other (document.lookups resolve)) :
    document.pipeline resolve = document.pipeline other := by
  unfold lookups at agree
  unfold Document.pipeline
  cases platform : document.platform with
  | github =>
    rw [platform] at agree
    exact Github.normalize_of_agree agree
  | gitlab =>
    rw [platform] at agree
    exact Gitlab.normalize_of_agree agree
  | other value => rfl

theorem fileLoads_of_returns (returned : Returns (outcome (document.pipeline resolve))) :
    ∀ lookup ∈ document.lookups resolve, FileLoads resolve lookup.target := by
  unfold Document.pipeline at returned
  unfold lookups
  cases platform : document.platform with
  | github =>
    rw [platform] at returned
    exact Github.fileLoads_of_returns returned
  | gitlab =>
    rw [platform] at returned
    exact Gitlab.fileLoads_of_returns returned
  | other value => exact fun lookup none => absurd none List.not_mem_nil

theorem lookups_isChain : ∀ lookup ∈ document.lookups resolve, IsChain lookup.files := by
  unfold lookups
  cases document.platform with
  | github => exact Github.documentLookups_isChain resolve
  | gitlab => exact Gitlab.documentLookups_isChain resolve document.path document.content
  | other value => exact fun lookup none => absurd none List.not_mem_nil

theorem exists_callers {pipeline : Pipeline}
    (read : outcome (document.pipeline resolve) = .ok pipeline) {job : Job}
    (member : job ∈ pipeline.jobs.values) : ∃ callers, document.HasCallers resolve callers job := by
  unfold Document.pipeline at read
  unfold HasCallers
  cases platform : document.platform with
  | github =>
    rw [platform] at read
    obtain ⟨raw, callers, loaded, has⟩ := (Github.normalize_comes read).of_mem_values member
    exact ⟨callers, raw, loaded, has⟩
  | gitlab =>
    rw [platform] at read
    obtain ⟨top, isTop, callers, through⟩ := (Gitlab.normalize_comes read).of_mem_values member
    exact ⟨callers, top, isTop, through⟩
  | other value =>
    rw [platform, outcome_throw] at read
    cases read

theorem callers_le {callers : List String} {job : Job}
    (has : document.HasCallers resolve callers job) : callers.length ≤ maxFiles - 1 := by
  unfold HasCallers at has
  cases platform : document.platform with
  | github =>
    rw [platform] at has
    obtain ⟨raw, -, ⟨-, -, rfl⟩ | ⟨-, last, path, way, -⟩⟩ := has
    · exact Nat.zero_le _
    · exact Github.callers_le way
  | gitlab =>
    rw [platform] at has
    obtain ⟨top, ⟨raw, merged, -, -, rfl⟩, last, way, -⟩ := has
    exact Gitlab.callers_le rfl way
  | other value =>
    rw [platform] at has
    exact has.elim

end Bounded

theorem reading_is_bounded (resolve : Resolver) (document : Document) :
    document.IsBounded resolve where
  finite := fun _ agree => pipeline_of_agree agree
  made := fileLoads_of_returns
  chains := lookups_isChain
  trails := by
    rintro top ⟨raw, merged, -, -, rfl⟩ files last target way asks
    exact Gitlab.trail_length rfl way asks
  distinct := by
    rintro top ⟨raw, merged, -, -, rfl⟩ files last target way asks
    exact Gitlab.trail_distinct rfl way asks
  alone := fun _ _ _ starts => starts.own
  reached := fun _ read _ member => exists_callers read member
  callers := fun _ _ has => callers_le has
  levels := by
    rintro top ⟨raw, merged, -, -, rfl⟩ layer reached levels enough
    exact Gitlab.gather_of_levels rfl reached enough
  bases := fun _ _ _ _ enough => Gitlab.resolveWithin_eq enough

/-! ## A file that is triggered again

The keys of the second file stand in the first one, so the second file is not in the
chain of the child pipeline, where its own trigger starts it again. -/

def startsTwoFiles : Document :=
  ofText .gitlab "r.yml" "t:\n trigger:\n  include: [a.yml, b.yml]\n"

def startsItself : Resolver := fun wanted =>
  if wanted = "a.yml" then .ok (some "x:\n script: a\n".toUTF8.data.toList)
  else oneFile "b.yml" "x:\n trigger:\n  include: b.yml\n" wanted

/-- What the first trigger of a document names, the chain of files below it, and what the first
trigger there names. -/
def firstTrail (resolve : Resolver) (document : Document) :
    Option (List String × List String × List String) := do
  let top ← topLayer? resolve document
  let start ← top.starts.head?
  let child ← top.child resolve start
  let next ← child.starts.head?
  return (Gitlab.targets [(.text "include", start.2)], child.chain,
    Gitlab.targets [(.text "include", next.2)])

theorem tries_of_named (target : String) {layer : Layer} {includes : Value}
    {names chain : List String} (named : Gitlab.targets [(.text "include", includes)] = names)
    (chained : layer.chain = chain) (inside : target ∈ names) (outside : target ∉ chain)
    (room : chain.length < maxFiles) :
    Tries Gitlab.Includes ⟨layer.chain, [(.text "include", includes)]⟩ target := by
  subst named chained
  exact ⟨Gitlab.refers_targets ▸ inside, outside, room⟩

theorem file_is_triggered_again :
    ∃ pipeline, outcome (startsTwoFiles.pipeline startsItself) = .ok pipeline ∧
      pipeline.jobs.keys = ["t", "t/x", "t/x/x"] ∧
      ∃ top files last target, TopLayer startsItself startsTwoFiles.path
        startsTwoFiles.content top ∧
        Way (Layer.StartsFile startsItself) top files last ∧ last.AsksFor target ∧
        ¬ (startsTwoFiles.path :: (files ++ [target])).Nodup := by
  have listed : (startsTwoFiles.jobNames startsItself).toOption = some ["t", "t/x", "t/x/x"] := by
    decide +kernel
  have returned : (outcome (startsTwoFiles.pipeline startsItself)).toOption.isSome = true := by
    decide +kernel
  have trail : firstTrail startsItself startsTwoFiles =
      some (["a.yml", "b.yml"], ["r.yml", "a.yml"], ["b.yml"]) := by decide +kernel
  have found : (Gitlab.opened startsItself "b.yml").toOption.join.isSome = true := by decide +kernel
  obtain ⟨pipeline, read⟩ := Option.isSome_iff_exists.mp returned
  obtain ⟨names, named, settled⟩ := pipeline_settled (toOption_eq_some.mp read)
  obtain rfl := Except.ok.inj (named.symm.trans (toOption_eq_some.mp listed))
  refine ⟨pipeline, toOption_eq_some.mp read, (settled.placed.inOrder (by decide)).1, ?_⟩
  obtain ⟨raw, opens⟩ := Option.isSome_iff_exists.mp found
  rw [Option.join_eq_some_iff, toOption_eq_some] at opens
  simp only [firstTrail, Option.bind_eq_bind, Option.bind_eq_some_iff] at trail
  obtain ⟨top, isTop, start, starts, child, started, next, restarts, same⟩ := trail
  obtain ⟨named, chain, namedAgain⟩ : _ ∧ _ ∧ _ := by simpa using same
  have topLayer := topLayer_iff.mpr isTop
  have single : top.chain = ["r.yml"] := by
    obtain ⟨_, _, -, -, rfl⟩ := topLayer
    rfl
  have starting := Gitlab.startsBy_of_child (List.mem_of_mem_head? starts) started
  obtain ⟨job, hasJob, startsAgain⟩ := Layer.mem_starts.mp (List.mem_of_mem_head? restarts)
  have here := tries_of_named "b.yml" named single (by decide) (by decide) (by decide)
  have below := tries_of_named "b.yml" namedAgain chain (by decide) (by decide) (by decide)
  exact ⟨top, ["b.yml"], child, "b.yml", topLayer,
    .through ⟨start.2, raw, starting, "b.yml", here, opens, rfl⟩ (.here child),
    ⟨next.1, job, next.2, hasJob, startsAgain, below⟩, by decide⟩

end SupplyLint.Document
