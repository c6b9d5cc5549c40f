import SupplyLint.Proofs.Gitlab.Lookups
import SupplyLint.Proofs.Gitlab.Nested
import SupplyLint.Proofs.Gitlab.Refusals

/-! # How deep child pipelines may be nested

Where no file includes others at its top, child pipelines are told by what their files list, with no
regard to the chain of files. `Nests.noneRefused_iff`: none of these files is refused if on no way
down one is listed that is the root or a file of a trigger on the way, and these files are fewer
than a chain may have. All files of a trigger count, not only the one that leads on; so a file may
be refused on a chain of child files that is short enough and holds no file twice, but not if every
trigger lists one file (`Nests.fits_of_listsOne`). -/
set_option autoImplicit false

namespace SupplyLint.Gitlab

open SupplyLint.Text

/-! ## Files without includes -/

/-- No file of the repository includes others at its top. -/
def IncludeNothing (resolve : Resolver) : Prop :=
  ∀ target raw, opened resolve target = .ok (some raw) → Value.field raw "include" = .null

/-- What is included are files of the repository that hold a mapping. -/
def ListsFiles (resolve : Resolver) (includes : Value) : Prop :=
  ∀ item ∈ includes.asList, ∃ written entries,
    Include.ofValue item = .ok (.file written) ∧ ¬ contains (stripped written) "*" = true ∧
    opened resolve (stripped written) = .ok (some entries)

def enterAlone (resolve : Resolver) (target : String) : Normalizing (Option Merged) := do
  match ← opened resolve target with
  | none => return none
  | some raw => return some ⟨raw, []⟩

def listedFiles (resolve : Resolver) (path caller : String) (includes : Value) :
    Except Failure ChildFiles :=
  outcome (childFiles (enterAlone resolve) path (caller ++ ".trigger.include")
    includes.asList {})

section Files
variable {resolve : Resolver} {chain : List String} {path caller : String} {includes : Value}

theorem outcome_merge_of_none {raw : Entries} (none : Value.field raw "include" = .null)
    (room : Nat) : outcome (merge resolve path room chain raw) = .ok ⟨raw, []⟩ := by
  rw [merge_eq, mergeWith, none]
  rfl

theorem includeItems_of_none {raw : Entries} (none : Value.field raw "include" = .null) :
    includeItems raw = [] := by
  rw [includeItems, none]

theorem outcome_enter_of_fits (alone : IncludeNothing resolve) {written : String}
    (plain : ¬ contains (stripped written) "*" = true) (outside : stripped written ∉ chain)
    (short : chain.length < maxFiles) :
    outcome (enter resolve path chain (stripped written)) =
      outcome (enterAlone resolve (stripped written)) := by
  obtain ⟨room, more⟩ := Nat.exists_eq_succ_of_ne_zero (Nat.sub_ne_zero_of_lt short)
  rw [enter_eq, more, enterWith_stripped, mergingWithin, outcome_enterWith_some _ _ plain outside,
    enterAlone, outcome_bind, outcome_failure]
  refine bind_congr_of_ok fun found opens => ?_
  cases found with
  | none => rfl
  | some raw =>
    dsimp only
    rw [outcome_merge_of_none (alone _ raw opens)]
    rfl

theorem openedFiles_eq_listedFiles (alone : IncludeNothing resolve)
    (lists : ListsFiles resolve includes)
    (fits : ∀ target, Includes (triggerFile chain includes).entries target →
      target ∉ chain ∧ chain.length < maxFiles) :
    openedFiles resolve chain path caller includes = listedFiles resolve path caller includes := by
  refine outcome_childFiles_congr _ (fun item member written names => ?_) {}
  obtain ⟨_, _, again, plain, -⟩ := lists item member
  obtain rfl := Include.file.inj (Except.ok.inj (names.symm.trans again))
  obtain ⟨outside, short⟩ := fits _ (includes_of_written member names plain)
  exact outcome_enter_of_fits alone plain outside short

theorem noneRefused_trigger_iff (alone : IncludeNothing resolve) :
    NoneRefused resolve (triggerFile chain includes) ↔
      ∀ target, Includes (triggerFile chain includes).entries target →
        target ∉ chain ∧ chain.length < maxFiles := by
  rw [noneRefused_iff]
  constructor
  · exact fun unrefused target listed => (unrefused.1 target listed).2
  · intro fits
    refine ⟨fun target listed => ⟨listed, fits target listed⟩, ?_⟩
    rintro next ⟨target, -, opens, -⟩ last reached
    -- A file that is opened includes nothing, so there is no way on from it.
    have none := includeItems_of_none (alone target next.entries opens)
    have stays : last = next := by
      rcases Relation.ReflTransGen.cases_head reached with same |
          ⟨_, ⟨_, ⟨⟨_, member, -⟩, -⟩, -⟩, -⟩
      · exact same.symm
      · rw [none] at member
        exact absurd member List.not_mem_nil
    rintro other ⟨item, member, -⟩
    rw [stays, none] at member
    exact absurd member List.not_mem_nil

end Files

/-! ## Nested child pipelines -/

def Layer.ListsAs (resolve : Resolver) (layer : Layer) (caller : String) (child : Layer) : Prop :=
  ∃ raw includes files, layer.HasJob caller raw ∧ Starts raw includes ∧
    listedFiles resolve layer.path caller includes = .ok files ∧
    childLayer layer.chain files = some child

def Layer.Lists (layer : Layer) (name target : String) : Prop :=
  ∃ raw includes, layer.HasJob name raw ∧ Starts raw includes ∧
    Includes (triggerFile layer.chain includes).entries target

def Layer.Fits (layer : Layer) : Prop :=
  ∀ name target, layer.Lists name target → target ∉ layer.chain ∧ layer.chain.length < maxFiles

structure Nests (resolve : Resolver) (top : Layer) : Prop where
  alone : IncludeNothing resolve
  files : ∀ callers layer, Way (Layer.ListsAs resolve) top callers layer →
    ∀ name raw includes, layer.HasJob name raw → Starts raw includes → ListsFiles resolve includes

section Nests
variable {resolve : Resolver} {top layer child last : Layer} {caller : String}
variable {callers : List String}

theorem Nests.listed (nests : Nests resolve layer) (lists : layer.ListsAs resolve caller child) :
    Nests resolve child :=
  ⟨nests.alone, fun _ _ way => nests.files _ _ (.through lists way)⟩

theorem Nests.lists_files (nests : Nests resolve layer) {raw : Entries} {includes : Value}
    (hasJob : layer.HasJob caller raw) (starts : Starts raw includes) :
    ListsFiles resolve includes :=
  nests.files [] layer (.here layer) caller raw includes hasJob starts

theorem Nests.listsAs_iff (nests : Nests resolve layer) (fits : layer.Fits) :
    layer.ListsAs resolve caller child ↔ layer.TriggersAs resolve caller child := by
  refine exists_congr fun raw => exists_congr fun includes => exists_congr fun files => ?_
  refine and_congr_right fun hasJob => and_congr_right fun starts => ?_
  rw [openedFiles_eq_listedFiles nests.alone (nests.lists_files hasJob starts)
    fun target listed => fits caller target ⟨raw, includes, hasJob, starts, listed⟩]

theorem Nests.fits_of_noneRefused (nests : Nests resolve layer)
    (unrefused : layer.NoneRefused resolve) : layer.Fits := by
  rintro name target ⟨raw, includes, hasJob, starts, listed⟩
  exact (noneRefused_trigger_iff nests.alone).mp
    ((noneRefused_layer_iff.mp unrefused).1 name raw includes hasJob starts) target listed

theorem Nests.way_of_noneRefused (way : Way (Layer.ListsAs resolve) layer callers last)
    (nests : Nests resolve layer) (unrefused : layer.NoneRefused resolve) :
    Way (Layer.TriggersAs resolve) layer callers last ∧ last.Fits := by
  induction way with
  | here layer => exact ⟨.here layer, nests.fits_of_noneRefused unrefused⟩
  | @through layer next last caller callers first later ih =>
    have triggers := (nests.listsAs_iff (nests.fits_of_noneRefused unrefused)).mp first
    obtain ⟨way, fits⟩ := ih (nests.listed first)
      ((noneRefused_layer_iff.mp unrefused).2 next triggers.triggers)
    exact ⟨.through triggers way, fits⟩

/-- Nothing is refused below a configuration exactly if nothing is that is listed there. -/
theorem Nests.noneRefused_iff (nests : Nests resolve top) :
    top.NoneRefused resolve ↔
      ∀ callers layer, Way (Layer.ListsAs resolve) top callers layer → layer.Fits := by
  refine ⟨fun unrefused callers layer way => (way_of_noneRefused way nests unrefused).2, ?_⟩
  intro fits last reached
  induction reached using Relation.ReflTransGen.head_induction_on with
  | refl =>
    intro name raw includes hasJob starts
    exact (noneRefused_trigger_iff nests.alone).mpr fun target listed =>
      fits [] last (.here last) name target ⟨raw, includes, hasJob, starts, listed⟩
  | head first _ ih =>
    obtain ⟨name, triggers⟩ : ∃ name, Layer.TriggersAs resolve _ name _ := first
    have lists := (nests.listsAs_iff (fits [] _ (.here _))).mpr triggers
    exact ih (nests.listed lists) fun callers layer way => fits _ layer (.through lists way)

end Nests

/-! ## Chains of child files -/

/-- A chain of child files, with the child pipeline that the last of them is part of. -/
structure Descent where
  files : List String
  layer : Layer

abbrev rootLayer (path : String) (raw : Entries) : Layer :=
  ⟨[path], path, [], raw⟩

/-- A job that is written in the last file of a chain lists a file. -/
def Descent.Lists (descent : Descent) (name target : String) : Prop :=
  descent.files.getLast? = some (descent.layer.jobPath name) ∧ descent.layer.Lists name target

/-- A chain goes on with a child of its last file. -/
def Descent.Leads (resolve : Resolver) (above below : Descent) : Prop :=
  ∃ name target, above.Lists name target ∧ above.layer.ListsAs resolve name below.layer ∧
    below.files = above.files ++ [target]

/-- No chain of child files holds a file twice, and none has more files than a chain may have. -/
def NestsShort (resolve : Resolver) (top : Layer) : Prop :=
  ∀ last, Relation.ReflTransGen (Descent.Leads resolve) ⟨[top.path], top⟩ last →
    ∀ name target, last.Lists name target →
      (last.files ++ [target]).Nodup ∧ (last.files ++ [target]).length ≤ maxFiles

def ListsOne (resolve : Resolver) (top : Layer) : Prop :=
  ∀ callers layer, Way (Layer.ListsAs resolve) top callers layer →
    ∀ name target other, layer.Lists name target → layer.Lists name other → target = other

/-- All jobs of a configuration are written in the last file of its chain. -/
def Layer.EndsChain (layer : Layer) : Prop :=
  ∀ name, layer.chain.getLast? = some (layer.jobPath name)

section Chains
variable {resolve : Resolver} {top layer child last : Layer} {caller target : String}
variable {callers : List String}

theorem lists_of_mem_origins {raw : Entries} {includes : Value} {files : ChildFiles}
    (hasJob : layer.HasJob caller raw) (starts : Starts raw includes)
    (lists : ListsFiles resolve includes)
    (opens : listedFiles resolve layer.path caller includes = .ok files)
    {origin : String × String} (member : origin ∈ files.origins) :
    layer.Lists caller origin.2 := by
  refine ⟨raw, includes, hasJob, starts, ?_⟩
  refine childFiles_holds (fun files => ∀ origin ∈ files.origins,
    Includes (triggerFile layer.chain includes).entries origin.2) _ ?_ (by simp) opens origin member
  intro item here before more takes already
  cases takes with
  | file names _ added =>
    obtain ⟨keys, -, rfl⟩ := add_eq_ok added
    intro origin member
    rcases mem_addOrigins keys member with old | new
    · exact already origin old
    · obtain ⟨_, _, again, plain, -⟩ := lists item here
      obtain rfl := Include.file.inj (Except.ok.inj (names.symm.trans again))
      exact new ▸ includes_of_written here names plain
  | package names => exact already
  | nothing => exact already

theorem Layer.ListsAs.descends (nests : Nests resolve layer)
    (one : ∀ target other, layer.Lists caller target → layer.Lists caller other → target = other)
    (lists : layer.ListsAs resolve caller child) :
    ∃ target, layer.Lists caller target ∧ child.chain = layer.chain ++ [target] ∧
      child.EndsChain := by
  obtain ⟨raw, includes, files, hasJob, starts, opens, made⟩ := lists
  have listed {origin : String × String} (member : origin ∈ files.origins) :=
    lists_of_mem_origins hasJob starts (nests.lists_files hasJob starts) opens member
  have isChild := childLayer_eq_some made
  obtain ⟨key, target, rest, origins, rfl⟩ := exists_origin_of_childLayer made
  have first : (key, target) ∈ files.origins := origins ▸ List.mem_cons_self
  have only (file : String) (member : file ∈ originFiles files.origins) : file = target := by
    obtain ⟨_, inside⟩ := mem_originFiles.mp member
    exact one file target (listed inside) (listed first)
  have single : originFiles files.origins = [target] :=
    List.perm_singleton.mp ((List.perm_ext_iff_of_nodup (nodup_originFiles _)
      (List.nodup_singleton target)).mpr fun file =>
        ⟨fun member => List.mem_singleton.mpr (only file member), fun member =>
          List.mem_singleton.mp member ▸ mem_originFiles.mpr ⟨key, first⟩⟩)
  refine ⟨target, listed first, congrArg (layer.chain ++ ·) single, fun name => ?_⟩
  obtain ⟨_, inside, same⟩ := List.mem_map.mp (isChild.jobPath name)
  rw [← same, only _ (mem_originFiles.mpr ⟨_, inside⟩)]
  dsimp only
  rw [single, List.getLast?_concat]

theorem descends_of_listsOne (way : Way (Layer.ListsAs resolve) layer callers last)
    (nests : Nests resolve layer) (one : ListsOne resolve layer) (ends : layer.EndsChain) :
    Relation.ReflTransGen (Descent.Leads resolve) ⟨layer.chain, layer⟩ ⟨last.chain, last⟩ ∧
      last.EndsChain := by
  induction way with
  | here layer => exact ⟨.refl, ends⟩
  | @through layer next last caller callers first later ih =>
    obtain ⟨target, listed, chain, nextEnds⟩ := first.descends nests
        (one [] layer (.here layer) caller)
    obtain ⟨reached, lastEnds⟩ := ih (nests.listed first)
      (fun _ _ way => one _ _ (.through first way)) nextEnds
    exact ⟨.head ⟨caller, target, ⟨ends caller, listed⟩, first, chain⟩ reached, lastEnds⟩

/-- Nothing is refused on short chains of child files, if every trigger lists one file. -/
theorem Nests.fits_of_listsOne (nests : Nests resolve top) (start : top.chain = [top.path])
    (ends : top.EndsChain) (one : ListsOne resolve top) (short : NestsShort resolve top)
    (way : Way (Layer.ListsAs resolve) top callers layer) : layer.Fits := by
  obtain ⟨reached, layerEnds⟩ := descends_of_listsOne way nests one ends
  rw [start] at reached
  intro name target listed
  obtain ⟨distinct, few⟩ := short _ reached name target ⟨layerEnds name, listed⟩
  rw [List.length_append, List.length_singleton] at few
  exact ⟨fun inside => (List.nodup_append.mp distinct).2.2 target inside target
    (List.mem_singleton_self target) rfl, few⟩

end Chains

/-! ## Whole documents -/

section Documents
variable {resolve : Resolver} {path : String} {content : List UInt8} {raw : Entries}

theorem noneRefused_of_none (none : Value.field raw "include" = .null) (chain : List String) :
    NoneRefused resolve ⟨chain, raw⟩ := by
  have nothing (target : String) : ¬ Includes raw target := by
    rintro ⟨item, member, -⟩
    rw [includeItems_of_none none] at member
    exact absurd member List.not_mem_nil
  rw [noneRefused_iff]
  refine ⟨fun target listed => absurd listed (nothing target), ?_⟩
  rintro next ⟨target, tries, -⟩
  exact absurd tries.1 (nothing target)

theorem topLayer_of_none (loaded : outcome (configuration path content) = .ok (some raw))
    (none : Value.field raw "include" = .null) :
    TopLayer resolve path content (rootLayer path raw) :=
  ⟨raw, ⟨raw, []⟩, loaded, outcome_merge_of_none none _, rfl⟩

theorem quiet_iff_noneRefused (loaded : outcome (configuration path content) = .ok (some raw))
    (none : Value.field raw "include" = .null)
    (returned : Returns (outcome (normalize resolve path content))) :
    Quiet (normalize resolve path content) ↔ (rootLayer path raw).NoneRefused resolve := by
  rw [quiet_normalize loaded (topLayer_of_none loaded none) returned,
    and_iff_right (noneRefused_of_none none _)]

theorem refuses_of_full (loaded : outcome (configuration path content) = .ok (some raw))
    (none : Value.field raw "include" = .null)
    (returned : Returns (outcome (normalize resolve path content))) {layer : Layer}
    (reached : Relation.ReflTransGen (Layer.Triggers resolve) (rootLayer path raw) layer)
    (full : maxFiles ≤ layer.chain.length) {name target : String}
    (listed : layer.Lists name target) :
    Refuses (normalize resolve path content) := by
  by_contra accepts
  have unrefused := (quiet_iff_noneRefused loaded none returned).mp (quiet_iff.mpr accepts)
  obtain ⟨job, includes, hasJob, starts, listed⟩ := listed
  have tries := (noneRefused_iff.mp (unrefused layer reached name job includes hasJob starts)).1
    target listed
  exact absurd tries.2.2 (Nat.not_lt.mpr full)

/-- Of files without includes all child pipelines are inlined, however deep they are nested, if none
of the files that are listed is refused; and none is if every trigger lists one file and chains of
child files are short and hold no file twice. -/
theorem nested_pipelines_are_inlined
    (loaded : outcome (configuration path content) = .ok (some raw))
    (none : Value.field raw "include" = .null) (nests : Nests resolve (rootLayer path raw))
    (readable : EntriesReadable resolve path raw) :
    ∃ pipeline, outcome (normalize resolve path content) = .ok pipeline ∧
      (Quiet (normalize resolve path content) ↔ ∀ callers layer,
        Way (Layer.ListsAs resolve) (rootLayer path raw) callers layer → layer.Fits) ∧
      (Quiet (normalize resolve path content) → ∀ callers layer name job,
        Way (Layer.ListsAs resolve) (rootLayer path raw) callers layer → layer.HasJob name job →
          underCallers callers name ∈ pipeline.jobs.keys) ∧
      (ListsOne resolve (rootLayer path raw) → NestsShort resolve (rootLayer path raw) →
        Quiet (normalize resolve path content)) := by
  have loads : Loads content := (returns_configuration path content).mp ⟨_, loaded⟩
  have returned : Returns (outcome (normalize resolve path content)) :=
    (returns_normalize resolve path content).mpr ⟨loads, fun other again => by
      obtain rfl := Option.some.inj (Except.ok.inj (loaded.symm.trans again))
      exact readable⟩
  have quiet := quiet_iff_noneRefused loaded none returned
  obtain ⟨pipeline, read⟩ := returned
  refine ⟨pipeline, read, quiet.trans nests.noneRefused_iff, ?_, ?_⟩
  · intro accepts callers layer name job way hasJob
    exact mem_keys_normalize (topLayer_of_none loaded none)
      (Nests.way_of_noneRefused way nests (quiet.mp accepts)).1 hasJob read
  · intro one short
    rw [quiet, nests.noneRefused_iff]
    exact fun callers layer way => nests.fits_of_listsOne rfl (fun _ => rfl) one short way

end Documents

end SupplyLint.Gitlab
