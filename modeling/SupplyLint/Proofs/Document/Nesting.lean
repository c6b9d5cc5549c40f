import SupplyLint.Proofs.Document.Triggers
import SupplyLint.Proofs.Gitlab.Depth

/-! # Documents with nested child pipelines

A document and files of which no chain of triggers runs in a circle: whatever is listed below the
document is found step by step. `siblings_use_up_the_chain`: a file is refused on a chain of three
files, since the other files of the first trigger stand in the chain too. -/
set_option autoImplicit false

namespace SupplyLint.Document

open SupplyLint.Gitlab (ChildFiles Descent Include IncludeNothing Layer ListsFiles ListsOne Nests
  NestsShort Refuses Starts childLayer listedFiles opened rootLayer)

/-! ## Step by step -/

/-- Whether something holds of all that is reached, no more steps being possible than so many. -/
def holdsWithin {α : Type} (next : α → List α) (check : α → Bool) : Nat → α → Bool
  | 0, _ => false
  | steps + 1, place => check place && (next place).all (holdsWithin next check steps)

theorem holdsWithin_reached {α : Type} {next : α → List α} {check : α → Bool} {steps : Nat}
    {place last : α} (holds : holdsWithin next check steps place = true)
    (reached : Relation.ReflTransGen (fun place other => other ∈ next place) place last) :
    check last = true := by
  induction reached using Relation.ReflTransGen.head_induction_on generalizing steps with
  | refl =>
    cases steps with
    | zero => cases holds
    | succ steps => exact (Bool.and_eq_true_iff.mp holds).1
  | head first _ ih =>
    cases steps with
    | zero => cases holds
    | succ steps => exact ih (List.all_eq_true.mp (Bool.and_eq_true_iff.mp holds).2 _ first)

section Layers
variable {resolve : Resolver} {layer child : Layer} {name target : String}

/-- The child pipeline that a job lists the files of. -/
def listedChild (resolve : Resolver) (layer : Layer) (start : String × Value) : Option Layer :=
  (listedFiles resolve layer.path start.1 start.2).toOption.bind (childLayer layer.chain)

def listedLayers (resolve : Resolver) (layer : Layer) : List Layer :=
  layer.starts.filterMap (listedChild resolve layer)

def listedTargets (start : String × Value) : List String :=
  Gitlab.targets [(.text "include", start.2)]

theorem listsAs_iff :
    layer.ListsAs resolve name child ↔
      ∃ includes, (name, includes) ∈ layer.starts ∧
        listedChild resolve layer (name, includes) = some child := by
  simp only [Layer.mem_starts, listedChild, Option.bind_eq_some_iff, toOption_eq_some]
  constructor
  · rintro ⟨raw, includes, files, hasJob, starts, opens, made⟩
    exact ⟨includes, ⟨raw, hasJob, starts⟩, files, opens, made⟩
  · rintro ⟨includes, ⟨raw, hasJob, starts⟩, files, opens, made⟩
    exact ⟨raw, includes, files, hasJob, starts, opens, made⟩

theorem lists_iff :
    layer.Lists name target ↔
      ∃ includes, (name, includes) ∈ layer.starts ∧ target ∈ listedTargets (name, includes) := by
  have listed (includes : Value) : target ∈ listedTargets (name, includes) ↔
      Gitlab.Includes [(.text "include", includes)] target :=
    iff_of_eq (congrFun₂ Gitlab.refers_targets _ target)
  simp only [Layer.mem_starts, listed]
  constructor
  · rintro ⟨raw, includes, hasJob, starts, listed⟩
    exact ⟨includes, ⟨raw, hasJob, starts⟩, listed⟩
  · rintro ⟨includes, ⟨raw, hasJob, starts⟩, listed⟩
    exact ⟨raw, includes, hasJob, starts, listed⟩

theorem check_of_way {check : Layer → Bool} {steps : Nat} {top : Layer} {callers : List String}
    (holds : holdsWithin (listedLayers resolve) check steps top = true)
    (way : Way (Layer.ListsAs resolve) top callers layer) : check layer = true := by
  refine holdsWithin_reached holds (way.reached fun above caller below lists => ?_)
  obtain ⟨includes, starts, found⟩ := listsAs_iff.mp lists
  exact List.mem_filterMap.mpr ⟨_, starts, found⟩

/-- The chains of child files that go on from one. -/
def descents (resolve : Resolver) (above : Descent) : List Descent :=
  above.layer.starts.flatMap fun start =>
    if above.files.getLast? = some (above.layer.jobPath start.1) then
      (listedTargets start).flatMap fun target =>
        (listedChild resolve above.layer start).toList.map fun child =>
          ⟨above.files ++ [target], child⟩
    else []

theorem starts_unique {includes other : Value} (starts : (name, includes) ∈ layer.starts)
    (again : (name, other) ∈ layer.starts) : includes = other := by
  obtain ⟨raw, hasJob, starts⟩ := Layer.mem_starts.mp starts
  obtain ⟨_, hasJobAgain, startsAgain⟩ := Layer.mem_starts.mp again
  obtain rfl := hasJob.unique hasJobAgain
  exact starts.unique startsAgain

theorem mem_descents {above below : Descent} (leads : above.Leads resolve below) :
    below ∈ descents resolve above := by
  obtain ⟨name, target, ⟨last, listed⟩, lists, files⟩ := leads
  obtain ⟨includes, starts, inside⟩ := lists_iff.mp listed
  obtain ⟨_, startsAgain, found⟩ := listsAs_iff.mp lists
  obtain rfl := starts_unique starts startsAgain
  refine List.mem_flatMap.mpr ⟨_, starts, ?_⟩
  rw [if_pos last]
  refine List.mem_flatMap.mpr ⟨target, inside, ?_⟩
  rw [found]
  exact List.mem_singleton.mpr (by rw [← files])

end Layers

/-! ## What is checked -/

section Checks
variable {resolve : Resolver} {top : Layer} {steps : Nat}

def opensFile (resolve : Resolver) (item : Value) : Bool :=
  match Include.ofValue item with
  | .ok (.file written) =>
    !Text.contains (Gitlab.stripped written) "*" &&
      (opened resolve (Gitlab.stripped written)).toOption.join.isSome
  | _ => false

theorem listsFiles_of_opensFile {includes : Value}
    (opens : includes.asList.all (opensFile resolve) = true) :
    ListsFiles resolve includes := by
  intro item member
  have file := List.all_eq_true.mp opens item member
  unfold opensFile at file
  split at file
  · next written names =>
    obtain ⟨plain, found⟩ := Bool.and_eq_true_iff.mp file
    obtain ⟨entries, found⟩ := Option.isSome_iff_exists.mp found
    rw [Option.join_eq_some_iff, toOption_eq_some] at found
    exact ⟨written, entries, names, by simpa using plain, found⟩
  · cases file

def includesNothing (document : Document) : Bool :=
  match outcome (Gitlab.configuration document.path document.content) with
  | .ok (some raw) => (Value.field raw "include").isNull
  | _ => true

theorem eq_null_of_isNull {raw : Value} (null : raw.isNull = true) : raw = .null := by
  cases raw with
  | null => rfl
  | _ => cases null

theorem includeNothing_of_documents {documents : List Document}
    (none : documents.all includesNothing = true) :
    IncludeNothing (resolver documents Source.none) := by
  intro target raw opens
  unfold opened resolver at opens
  cases found : documents.reverse.find? (·.path == target) with
  | none =>
    rw [found] at opens
    cases opens
  | some document =>
    rw [found] at opens
    have same : document.path = target := by simpa using List.find?_some found
    have member := List.mem_reverse.mp (List.mem_of_find?_eq_some found)
    have configured : outcome (Gitlab.configuration document.path document.content) =
        .ok (some raw) := same ▸ opens
    have nothing := List.all_eq_true.mp none document member
    unfold includesNothing at nothing
    rw [configured] at nothing
    exact eq_null_of_isNull nothing

def listsKnown (resolve : Resolver) (layer : Layer) : Bool :=
  layer.starts.all fun start => (Value.asList start.2).all (opensFile resolve)

theorem nests_of_listsKnown (none : IncludeNothing resolve)
    (known : holdsWithin (listedLayers resolve) (listsKnown resolve) steps top = true) :
    Nests resolve top where
  alone := none
  files _ _ way name raw includes hasJob starts :=
    listsFiles_of_opensFile (List.all_eq_true.mp (check_of_way known way) (name, includes)
      (Layer.mem_starts.mpr ⟨raw, hasJob, starts⟩))

def listsOne (layer : Layer) : Bool :=
  layer.starts.all fun start => (listedTargets start).length ≤ 1

theorem listsOne_of_check (one : holdsWithin (listedLayers resolve) listsOne steps top = true) :
    ListsOne resolve top := by
  intro callers layer way name target other listed listedToo
  obtain ⟨includes, starts, inside⟩ := lists_iff.mp listed
  obtain ⟨_, startsAgain, insideToo⟩ := lists_iff.mp listedToo
  obtain rfl := starts_unique starts startsAgain
  have few := of_decide_eq_true (List.all_eq_true.mp (check_of_way one way) _ starts)
  match list : listedTargets (name, includes), few with
  | [], _ => simp [list] at inside
  | [only], _ =>
    rw [list, List.mem_singleton] at inside insideToo
    rw [inside, insideToo]

/-- Whether the files that are listed in the last file of a chain may stand behind it. -/
def goesOn (above : Descent) : Bool :=
  above.layer.starts.all fun start =>
    above.files.getLast? ≠ some (above.layer.jobPath start.1) ||
      (listedTargets start).all fun target =>
        (above.files ++ [target]).Nodup && (above.files ++ [target]).length ≤ maxFiles

theorem nestsShort_of_goesOn
    (short : holdsWithin (descents resolve) goesOn steps ⟨[top.path], top⟩ = true) :
    NestsShort resolve top := by
  rintro last reached name target ⟨ends, listed⟩
  obtain ⟨includes, starts, inside⟩ := lists_iff.mp listed
  have goes := holdsWithin_reached short
    (Relation.ReflTransGen.mono (fun _ _ leads => mem_descents leads) _ _ reached)
  have fits := List.all_eq_true.mp goes _ starts
  simp only [ends, ne_eq, not_true_eq_false, decide_false, Bool.false_or] at fits
  simpa using List.all_eq_true.mp fits target inside

end Checks

/-- The configuration of a document that includes nothing at its top. -/
def root? (document : Document) : Option Layer :=
  match outcome (Gitlab.configuration document.path document.content) with
  | .ok (some raw) =>
    if (Value.field raw "include").isNull then some (rootLayer document.path raw) else none
  | _ => none

theorem root?_eq_some {document : Document} {top : Layer} (found : document.root? = some top) :
    ∃ raw, outcome (Gitlab.configuration document.path document.content) = .ok (some raw) ∧
      Value.field raw "include" = .null ∧ top = rootLayer document.path raw := by
  unfold root? at found
  split at found
  · next raw configured =>
    split at found
    · next null => exact ⟨raw, configured, eq_null_of_isNull null, (Option.some.inj found).symm⟩
    · cases found
  · cases found

def below (resolve : Resolver) (layer : Layer) : List String → Option Layer
  | [] => some layer
  | caller :: callers => do
    let start ← layer.starts.find? (·.1 == caller)
    below resolve (← listedChild resolve layer start) callers

theorem way_of_below {resolve : Resolver} {callers : List String} {layer last : Layer}
    (found : below resolve layer callers = some last) :
    Way (Layer.ListsAs resolve) layer callers last := by
  induction callers generalizing layer with
  | nil => exact Option.some.inj found ▸ .here layer
  | cons caller callers ih =>
    simp only [below, Option.bind_eq_bind, Option.bind_eq_some_iff] at found
    obtain ⟨⟨name, includes⟩, starts, child, lists, rest⟩ := found
    obtain rfl : name = caller := by simpa using List.find?_some starts
    exact .through (listsAs_iff.mpr ⟨includes, List.mem_of_find?_eq_some starts, lists⟩) (ih rest)

def jobBelow (resolve : Resolver) (layer : Layer) (callers : List String) (name : String) :
    Option (String × Entries) := do
  let jobs ← (jobsOf (← below resolve layer callers)).toOption
  jobs.find? (·.1 == name)

theorem exists_job_of_jobBelow {resolve : Resolver} {layer : Layer} {callers : List String}
    {name : String} (found : (jobBelow resolve layer callers name).isSome = true) :
    ∃ last raw, Way (Layer.ListsAs resolve) layer callers last ∧ last.HasJob name raw := by
  obtain ⟨⟨other, raw⟩, found⟩ := Option.isSome_iff_exists.mp found
  simp only [jobBelow, Option.bind_eq_bind, Option.bind_eq_some_iff, toOption_eq_some] at found
  obtain ⟨last, leads, jobs, read, found⟩ := found
  obtain rfl : other = name := by simpa using List.find?_some found
  exact ⟨last, raw, way_of_below leads, (hasJob_iff read).mpr (List.mem_of_find?_eq_some found)⟩

/-- A document that includes nothing, whose jobs and those below it list files of the repository,
and below which no chain of child files is too long or holds a file twice. -/
structure IsNested (resolve : Resolver) (document : Document) (raw : Entries) : Prop where
  loaded : outcome (Gitlab.configuration document.path document.content) = .ok (some raw)
  none : Value.field raw "include" = .null
  nests : Nests resolve (rootLayer document.path raw)
  short : NestsShort resolve (rootLayer document.path raw)

/-- Whether the jobs of a configuration and those below it list files on chains that may go on. -/
def isNested (resolve : Resolver) (steps : Nat) (top : Layer) : Bool :=
  holdsWithin (listedLayers resolve) (listsKnown resolve) steps top &&
    holdsWithin (descents resolve) goesOn steps ⟨[top.path], top⟩

theorem exists_isNested (documents : List Document) (document : Document) (steps : Nat)
    (check : Layer → Bool) (nothing : documents.all includesNothing = true)
    (checked : document.root?.any (fun top =>
      isNested (resolver documents Source.none) steps top && check top) = true) :
    ∃ raw, IsNested (resolver documents Source.none) document raw ∧
      check (rootLayer document.path raw) = true := by
  cases found : document.root? with
  | none =>
    rw [found] at checked
    cases checked
  | some top =>
    obtain ⟨raw, loaded, none, rfl⟩ := root?_eq_some found
    rw [found, Option.any_some, isNested, Bool.and_eq_true, Bool.and_eq_true] at checked
    obtain ⟨⟨known, goes⟩, holds⟩ := checked
    exact ⟨raw, ⟨loaded, none, nests_of_listsKnown (includeNothing_of_documents nothing) known,
      nestsShort_of_goesOn goes⟩, holds⟩

def nestedDocument : Document :=
  ofText .gitlab "r.yml" "t:\n trigger:\n  include: a.yml\n"

def nestedParts : List Document :=
  [ofText .gitlab "a.yml" "x:\n trigger:\n  include: e.yml\n",
    ofText .gitlab "e.yml" "y:\n script: y\n"]

def nestedFiles : Resolver :=
  resolver nestedParts Source.none

theorem files_of_one_each_are_inlined :
    ∃ raw pipeline, IsNested nestedFiles nestedDocument raw ∧
      ListsOne nestedFiles (rootLayer nestedDocument.path raw) ∧
      outcome (Gitlab.normalize nestedFiles nestedDocument.path nestedDocument.content) =
        .ok pipeline ∧
      Gitlab.Quiet (Gitlab.normalize nestedFiles nestedDocument.path nestedDocument.content) ∧
      "t/x/y" ∈ pipeline.jobs.keys := by
  have returned : (outcome (Gitlab.normalize nestedFiles nestedDocument.path
      nestedDocument.content)).toOption.isSome = true := by decide +kernel
  obtain ⟨raw, nested, checked⟩ := exists_isNested nestedParts nestedDocument 3
    (fun top => holdsWithin (listedLayers nestedFiles) listsOne 3 top &&
      (jobBelow nestedFiles top ["t", "x"] "y").isSome) (by decide +kernel) (by decide +kernel)
  rw [Bool.and_eq_true] at checked
  have one := listsOne_of_check checked.1
  obtain ⟨layer, job, way, hasJob⟩ := exists_job_of_jobBelow checked.2
  obtain ⟨shown, some⟩ := Option.isSome_iff_exists.mp returned
  have readable := ((Gitlab.returns_normalize _ _ _).mp ⟨shown, toOption_eq_some.mp some⟩).2 raw
    nested.loaded
  obtain ⟨pipeline, read, -, inlined, quiet⟩ := Gitlab.nested_pipelines_are_inlined nested.loaded
    nested.none nested.nests readable
  have accepts := quiet one nested.short
  exact ⟨raw, pipeline, nested, one, read, accepts, inlined accepts _ _ _ _ way hasJob⟩

/-! ## Several files for one trigger -/

/-- The files of one trigger have no job of one name. -/
def JobsApart (resolve : Resolver) (top : Layer) : Prop :=
  ∀ callers layer, Way (Layer.ListsAs resolve) top callers layer →
    ∀ name target other, layer.Lists name target → layer.Lists name other → target ≠ other →
      ∀ first second, opened resolve target = .ok (some first) →
        opened resolve other = .ok (some second) →
        ∀ jobs others, Gitlab.rawJobsOf first = .ok jobs → Gitlab.rawJobsOf second = .ok others →
          ∀ job ∈ Keyed.keys jobs, job ∉ Keyed.keys others

def jobsIn (resolve : Resolver) (target : String) : List String :=
  match opened resolve target with
  | .ok (some raw) => ((Gitlab.rawJobsOf raw).toOption.map Keyed.keys).getD []
  | _ => []

def listsApart (resolve : Resolver) (layer : Layer) : Bool :=
  layer.starts.all fun start => decide
    (∀ target ∈ listedTargets start, ∀ other ∈ listedTargets start, target ≠ other →
      ∀ job ∈ jobsIn resolve target, job ∉ jobsIn resolve other)

theorem jobsApart_of_check {resolve : Resolver} {top : Layer} {steps : Nat}
    (apart : holdsWithin (listedLayers resolve) (listsApart resolve) steps top = true) :
    JobsApart resolve top := by
  intro callers layer way name target other listed listedToo differ first second opens opensToo jobs
    others named namedToo
  obtain ⟨includes, starts, inside⟩ := lists_iff.mp listed
  obtain ⟨_, startsAgain, insideToo⟩ := lists_iff.mp listedToo
  obtain rfl := starts_unique starts startsAgain
  have checked := of_decide_eq_true (List.all_eq_true.mp (check_of_way apart way) _ starts)
    target inside other insideToo differ
  have here : jobsIn resolve target = Keyed.keys jobs := by
    rw [jobsIn, opens]
    dsimp only
    rw [named]
    rfl
  have there : jobsIn resolve other = Keyed.keys others := by
    rw [jobsIn, opensToo]
    dsimp only
    rw [namedToo]
    rfl
  rwa [here, there] at checked

def siblingDocument : Document :=
  ofText .gitlab "r.yml" "t:\n trigger:\n  include: [a.yml, b.yml, c.yml, d.yml]\n"

def siblingParts : List Document :=
  [ofText .gitlab "a.yml" "x:\n trigger:\n  include: e.yml\n",
    ofText .gitlab "b.yml" "b:\n script: b\n",
    ofText .gitlab "c.yml" "c:\n script: c\n",
    ofText .gitlab "d.yml" "d:\n script: d\n",
    ofText .gitlab "e.yml" "y:\n script: y\n"]

def siblingFiles : Resolver :=
  resolver siblingParts Source.none

/-- The chain of the child pipelines that a configuration starts, before the files are in order. -/
def startsFiles (resolve : Resolver) (files : List String) (top : Layer) : Bool :=
  top.starts.all fun start =>
    (Gitlab.openedFiles resolve top.chain top.path start.1 start.2).toOption.all fun opened =>
      firsts opened.origins.values = files

theorem chain_of_startsFiles {resolve : Resolver} {files : List String} {top child : Layer}
    (starts : startsFiles resolve files top = true)
    (inOrder : files.Pairwise fun x y => !(y < x)) (triggers : top.Triggers resolve child) :
    child.chain = top.chain ++ files := by
  obtain ⟨start, member, found⟩ := Layer.triggers_iff.mp triggers
  obtain ⟨opened, opens, made⟩ := Option.bind_eq_some_iff.mp found
  have same := List.all_eq_true.mp starts start member
  rw [opens, Option.all_some, decide_eq_true_eq] at same
  obtain ⟨_, _, _, -, rfl⟩ := Gitlab.exists_origin_of_childLayer made
  simp only [Gitlab.originFiles, same, List.mergeSort_of_pairwise inOrder]

theorem returns_of_chain {resolve : Resolver} {path : String} {content : List UInt8} {raw : Entries}
    {chain : List String} (loaded : outcome (Gitlab.configuration path content) = .ok (some raw))
    (none : Value.field raw "include" = .null)
    (chained : ∀ child, (rootLayer path raw).Triggers resolve child → child.chain = chain)
    (shared : (Gitlab.variablesOf (Value.field raw "variables")).toOption.isSome = true)
    (gathers : (outcome (Gitlab.gatherWith resolve (some fun _ => Gitlab.gather resolve
      (maxFiles - 1) chain) [path] path [] raw)).toOption.isSome = true) :
    Returns (outcome (Gitlab.normalize resolve path content)) := by
  obtain ⟨env, shared⟩ := Option.isSome_iff_exists.mp shared
  obtain ⟨gathered, gathers⟩ := Option.isSome_iff_exists.mp gathers
  have alike : Gitlab.gather resolve maxFiles [path] path [] raw = Gitlab.gatherWith resolve
      (some fun _ => Gitlab.gather resolve (maxFiles - 1) chain) [path] path [] raw :=
    @Gitlab.gatherWith_congr resolve resolve _ _ (rootLayer path raw) (fun _ _ _ _ _ _ _ => rfl)
      fun child triggers => ⟨_, _, rfl, rfl, by rw [chained child triggers]; rfl⟩
  refine ⟨_, Gitlab.normalize_eq_ok_iff.mpr (.inr ⟨raw, ⟨raw, []⟩, env, gathered, loaded,
    Gitlab.outcome_merge_of_none none _, toOption_eq_some.mp shared, ?_, rfl⟩)⟩
  rw [alike]
  exact toOption_eq_some.mp gathers

def listsBelow (resolve : Resolver) (top : Layer) : Bool :=
  top.starts.any fun start => (top.child resolve start).any fun child =>
    child.starts.any fun next => (listedTargets next).any fun _ => true

theorem exists_lists_of_listsBelow {resolve : Resolver} {top : Layer}
    (lists : listsBelow resolve top = true) :
    ∃ child, top.Triggers resolve child ∧ ∃ name target, child.Lists name target := by
  obtain ⟨start, member, lists⟩ := List.any_eq_true.mp lists
  cases found : top.child resolve start with
  | none =>
    rw [found] at lists
    cases lists
  | some child =>
    rw [found, Option.any_some] at lists
    obtain ⟨⟨name, includes⟩, starts, some⟩ := List.any_eq_true.mp lists
    obtain ⟨target, inside, -⟩ := List.any_eq_true.mp some
    exact ⟨child, Layer.triggers_iff.mpr ⟨start, member, found⟩, name, target,
      lists_iff.mpr ⟨includes, starts, inside⟩⟩

def siblingChain : List String :=
  ["r.yml", "a.yml", "b.yml", "c.yml", "d.yml"]

/-- The file that one of four files leads to is the third on its chain, and is refused: the other
three stand in the chain as if they led to it. -/
theorem siblings_use_up_the_chain :
    ∃ raw pipeline, IsNested siblingFiles siblingDocument raw ∧
      JobsApart siblingFiles (rootLayer siblingDocument.path raw) ∧
      outcome (Gitlab.normalize siblingFiles siblingDocument.path siblingDocument.content) =
        .ok pipeline ∧
      Refuses (Gitlab.normalize siblingFiles siblingDocument.path siblingDocument.content) := by
  obtain ⟨raw, nested, checked⟩ := exists_isNested siblingParts siblingDocument 3
    (fun top => holdsWithin (listedLayers siblingFiles) (listsApart siblingFiles) 3 top &&
      startsFiles siblingFiles ["a.yml", "b.yml", "c.yml", "d.yml"] top &&
      (Gitlab.variablesOf (Value.field top.entries "variables")).toOption.isSome &&
      (outcome (Gitlab.gatherWith siblingFiles
        (some fun _ => Gitlab.gather siblingFiles (maxFiles - 1) siblingChain) ["r.yml"] "r.yml" []
        top.entries)).toOption.isSome &&
      listsBelow siblingFiles top) (by decide +kernel) (by decide +kernel)
  simp only [Bool.and_eq_true] at checked
  obtain ⟨⟨⟨⟨apart, files⟩, shared⟩, gathers⟩, lists⟩ := checked
  have chained (child : Layer) (triggers : (rootLayer "r.yml" raw).Triggers siblingFiles child) :
      child.chain = siblingChain :=
    chain_of_startsFiles files (by decide) triggers
  obtain ⟨pipeline, read⟩ := returns_of_chain nested.loaded nested.none chained shared gathers
  obtain ⟨child, triggers, name, target, listed⟩ := exists_lists_of_listsBelow lists
  exact ⟨raw, pipeline, nested, jobsApart_of_check apart, read,
    Gitlab.refuses_of_full nested.loaded nested.none ⟨pipeline, read⟩ (.single triggers)
      (by rw [chained child triggers]; decide) listed⟩

end SupplyLint.Document
