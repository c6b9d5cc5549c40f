import SupplyLint.Proofs.Gitlab.Returns

/-! # Configurations that are reached in different ways

A configuration is read in the same way however it is reached, as long as nothing
is refused on the longer one of two ways: the chain of files matters for nothing
but for what is refused. -/
set_option autoImplicit false

namespace SupplyLint.Gitlab

open SupplyLint.Text

/-! ## Included files -/

/-- No include that is met in the files that are reached from a file is refused. -/
def NoneRefused (resolve : Resolver) (file : File) : Prop :=
  ∀ last, Relation.ReflTransGen (Opens Includes (opened resolve)) file last →
    ∀ target, Includes last.entries target → Tries Includes last target

theorem NoneRefused.opens {resolve : Resolver} {file next : File}
    (unrefused : NoneRefused resolve file) (step : Opens Includes (opened resolve) file next) :
    NoneRefused resolve next :=
  fun last reached => unrefused last (.head step reached)

section Lists
variable {first second : String → Normalizing (Option Merged)} {path other : String}

def SameFiles (first second : String → Normalizing (Option Merged)) (items : List Value) : Prop :=
  ∀ item ∈ items, ∀ written, Include.ofValue item = .ok (.file written) →
    outcome (first written) = outcome (second written)

theorem outcome_mergeList_congr (items : List Value) (same : SameFiles first second items)
    (merged : Merged) :
    outcome (mergeList first path items merged) = outcome
      (mergeList second other items merged) := by
  induction items generalizing merged with
  | nil => rfl
  | cons item rest ih =>
    obtain ⟨own, others⟩ := List.forall_mem_cons.mp same
    simp only [mergeList, outcome_bind, outcome_fault]
    refine bind_congr_of_ok fun what found => ?_
    cases what with
    | file written =>
      simp only [outcome_bind]
      rw [own written (uncaught_eq_ok.mp found)]
      refine congrArg _ (funext fun file => ?_)
      cases file with
      | none => exact ih others _
      | some file => exact ih others _
    | package ref => exact ih others _
    | elsewhere what =>
      simp only [outcome_bind, elsewhereInclude, outcome_noted, ok_bind]
      exact ih others _
    | malformed =>
      simp only [outcome_bind, malformedInclude, outcome_noted, ok_bind]
      exact ih others _

theorem outcome_mergeWith_congr {raw : Entries} (same : SameFiles first second (includeItems raw)) :
    outcome (mergeWith first path raw) = outcome (mergeWith second other raw) := by
  unfold includeItems at same
  unfold mergeWith
  cases field : Value.field raw "include" with
  | null => rfl
  | _ =>
    rw [field] at same
    simp only [outcome_bind]
    rw [outcome_mergeList_congr _ same]

theorem outcome_childFiles_congr {location : String} (items : List Value)
    (same : ∀ item ∈ items, ∀ written, Include.ofValue item = .ok (.file written) →
      outcome (first (stripped written)) = outcome (second (stripped written)))
    (files : ChildFiles) :
    outcome (childFiles first path location items files) =
      outcome (childFiles second other location items files) := by
  induction items generalizing files with
  | nil => rfl
  | cons item rest ih =>
    obtain ⟨own, others⟩ := List.forall_mem_cons.mp same
    simp only [childFiles, outcome_bind, outcome_fault]
    refine bind_congr_of_ok fun what found => ?_
    cases what with
    | file written =>
      have opens := own written (uncaught_eq_ok.mp found)
      unfold stripped at opens
      simp only [outcome_bind]
      rw [opens]
      refine congrArg _ (funext fun file => ?_)
      cases file with
      | none => exact ih others _
      | some file =>
        simp only [outcome_bind, outcome_fault]
        exact congrArg _ (funext fun more => ih others more)
    | package ref => exact ih others _
    | elsewhere what =>
      simp only [outcome_bind, elsewhereInclude, outcome_noted, ok_bind]
      exact ih others _
    | malformed =>
      simp only [outcome_bind, malformedInclude, outcome_noted, ok_bind]
      exact ih others _

end Lists

theorem append_subset_append {α : Type} {shorter longer : List α} (inside : shorter ⊆ longer)
    (more : List α) : shorter ++ more ⊆ longer ++ more :=
  List.append_subset.mpr ⟨fun _ member => List.mem_append_left more (inside member),
    List.subset_append_right longer more⟩

theorem length_append_le {α : Type} {shorter longer : List α}
    (less : shorter.length ≤ longer.length) (more : List α) :
    (shorter ++ more).length ≤ (longer ++ more).length := by
  rw [List.length_append, List.length_append]
  exact Nat.add_le_add_right less _

section Merge
variable {resolve : Resolver} {file : File} {shorter : List String}

theorem outcome_enterWith_congr {path other written : String}
    (tries : ¬ contains (stripped written) "*" = true → Tries Includes file (stripped written))
    (inChain : shorter ⊆ file.chain) (less : shorter.length ≤ file.chain.length)
    (below : ∀ raw, Opens Includes (opened resolve) file ⟨file.chain ++ [stripped written], raw⟩ →
      outcome (merge resolve path (maxFiles - (shorter ++ [stripped written]).length)
          (shorter ++ [stripped written]) raw) =
        outcome (merge resolve other (maxFiles - (file.chain ++ [stripped written]).length)
          (file.chain ++ [stripped written]) raw)) :
    outcome (enterWith resolve path (mergingWithin resolve path (maxFiles - shorter.length)) shorter
        written) =
      outcome (enterWith resolve other (mergingWithin resolve other (maxFiles - file.chain.length))
        file.chain written) := by
  by_cases plain : contains (stripped written) "*" = true
  · rw [outcome_enterWith_refused resolve path (Or.inl plain),
      outcome_enterWith_refused resolve other (Or.inl plain)]
  · have tried := tries plain
    have outside := tried.2.1
    have room := tried.2.2
    have longRoom : maxFiles - file.chain.length =
        maxFiles - (file.chain ++ [stripped written]).length + 1 := by
      rw [List.length_append, List.length_singleton]
      omega
    have shortRoom : maxFiles - shorter.length =
        maxFiles - (shorter ++ [stripped written]).length + 1 := by
      rw [List.length_append, List.length_singleton]
      omega
    rw [longRoom, shortRoom, mergingWithin, mergingWithin,
      outcome_enterWith_some resolve path plain fun inside => outside (inChain inside),
      outcome_enterWith_some resolve other plain outside]
    refine bind_congr_of_ok fun found opens => ?_
    cases found with
    | none => rfl
    | some raw => exact congrArg (some <$> ·) (below raw ⟨_, tried, opens, rfl⟩)

theorem outcome_merge_congr (unrefused : NoneRefused resolve file) (inChain : shorter ⊆ file.chain)
    (less : shorter.length ≤ file.chain.length) (path other : String) :
    outcome (merge resolve path (maxFiles - shorter.length) shorter file.entries) =
      outcome (merge resolve other (maxFiles - file.chain.length) file.chain file.entries) := by
  induction room : maxFiles - file.chain.length using Nat.strongRecOn
    generalizing file shorter with
  | ind room ih =>
    subst room
    rw [merge_eq, merge_eq]
    refine outcome_mergeWith_congr fun item member written found => ?_
    have tries (plain : ¬ contains (stripped written) "*" = true) :
        Tries Includes file (stripped written) :=
      unrefused file .refl _ ⟨item, member, written, found, rfl, plain⟩
    refine outcome_enterWith_congr tries inChain less fun raw step => ?_
    have longer : maxFiles - (file.chain ++ [stripped written]).length <
        maxFiles - file.chain.length := by
      obtain ⟨_, ⟨-, -, room⟩, -, -⟩ := step
      rw [List.length_append, List.length_singleton]
      omega
    exact ih _ longer (unrefused.opens step) (append_subset_append inChain _)
      (length_append_le less _) rfl

end Merge

section Files
variable {resolve : Resolver} {chain shorter : List String} {includes : Value}

theorem includes_of_written {item : Value} {written : String}
    (member : item ∈ includes.asList) (found : Include.ofValue item = .ok (.file written))
    (plain : ¬ contains (stripped written) "*" = true) :
    Includes [(.text "include", includes)] (stripped written) := by
  have field : Value.field [(.text "include", includes)] "include" = includes := rfl
  refine ⟨item, ?_, written, found, rfl, plain⟩
  unfold includeItems
  rw [field]
  cases includes with
  | null =>
    rw [List.mem_singleton.mp member] at found
    cases found
  | _ => exact member

theorem openedFiles_congr (unrefused : NoneRefused resolve ⟨chain, [(.text "include", includes)]⟩)
    (inChain : shorter ⊆ chain) (less : shorter.length ≤ chain.length) (path caller : String) :
    openedFiles resolve shorter path caller includes =
      openedFiles resolve chain path caller includes := by
  refine outcome_childFiles_congr _ (fun item member written found => ?_) {}
  rw [enter_eq, enter_eq, enterWith_stripped, enterWith_stripped]
  have tries (plain : ¬ contains (stripped written) "*" = true) :
      Tries Includes ⟨chain, [(.text "include", includes)]⟩ (stripped written) :=
    unrefused _ .refl _ (includes_of_written member found plain)
  have below := @outcome_enterWith_congr resolve ⟨chain, [(.text "include", includes)]⟩ shorter path
    path written tries inChain less
  refine below fun raw step => ?_
  exact outcome_merge_congr (unrefused.opens step) (append_subset_append inChain _)
    (length_append_le less _) path path

end Files

/-! ## Child pipelines -/

/-- Nothing that the child pipelines include that are reached from a configuration is refused. -/
def Layer.NoneRefused (resolve : Resolver) (layer : Layer) : Prop :=
  ∀ last, Relation.ReflTransGen (Layer.Triggers resolve) layer last →
    ∀ name raw includes, last.HasJob name raw → Starts raw includes →
      Gitlab.NoneRefused resolve ⟨last.chain, [(.text "include", includes)]⟩

theorem Layer.NoneRefused.triggers {resolve : Resolver} {layer child : Layer}
    (unrefused : layer.NoneRefused resolve) (step : layer.Triggers resolve child) :
    child.NoneRefused resolve :=
  fun last reached => unrefused last (.head step reached)

/-- One configuration is another one that is reached in a shorter way. -/
structure Layer.Shortens (first second : Layer) : Prop where
  path : first.path = second.path
  entries : first.entries = second.entries
  jobPath : ∀ name, first.jobPath name = second.jobPath name
  inChain : first.chain ⊆ second.chain
  length : first.chain.length ≤ second.chain.length

section Congruence
variable {resolve : Resolver} {parse other : Option Parsing} {first second : Layer}

def SameBelow (resolve : Resolver) (parse other : Option Parsing) (first second : Layer) : Prop :=
  ∀ child, second.Triggers resolve child → ∃ read again, parse = some read ∧ other = some again ∧
    outcome (read (first.chain ++ originFiles child.origins) child.path child.origins
      child.entries) = outcome (again child.chain child.path child.origins child.entries)

theorem outcome_inlineChild_congr (shortens : first.Shortens second)
    (below : SameBelow resolve parse other first second)
    (unrefused : second.NoneRefused resolve) {name : String} {raw : Entries} {includes : Value}
    (hasJob : second.HasJob name raw) (starts : Starts raw includes) (gathered : Gathered) :
    outcome (inlineChild resolve parse first.chain first.path name includes gathered) =
      outcome (inlineChild resolve other second.chain second.path name includes gathered) := by
  have files := openedFiles_congr (unrefused _ .refl name raw includes hasJob starts)
    shortens.inChain shortens.length second.path name
  unfold openedFiles at files
  simp only [inlineChild, outcome_bind, shortens.path, files]
  refine bind_congr_of_ok fun files opens => ?_
  cases origins : files.origins with
  | nil => cases parse <;> cases other <;> rfl
  | cons origin rest =>
    obtain ⟨key, path⟩ := origin
    have made := childLayer_of_origins second.chain origins
    obtain ⟨read, again, rfl, rfl, same⟩ :=
      below _ ⟨name, raw, includes, files, hasJob, starts, opens, made⟩
    dsimp only at same
    rw [origins] at same
    simp only [outcome_bind, same]

theorem outcome_addJob_congr (shortens : first.Shortens second)
    (below : SameBelow resolve parse other first second)
    (unrefused : second.NoneRefused resolve) {jobPath : String} {raw : Entries} {written : Job}
    (hasJob : second.HasJob written.name raw) (gathered : Gathered) :
    outcome (addJob resolve parse first.chain first.path jobPath written raw gathered) =
      outcome (addJob resolve other second.chain second.path jobPath written raw gathered) := by
  unfold addJob
  cases found : Keyed.get? raw (.text "trigger") with
  | none => rfl
  | some trigger =>
    simp only [outcome_bind, outcome_fault]
    refine bind_congr_of_ok fun downstream read => ?_
    cases downstream with
    | project ref => rfl
    | malformed reason => rfl
    | child includes =>
      have starts : Starts raw includes := ⟨trigger, found, uncaught_eq_ok.mp read⟩
      exact outcome_inlineChild_congr shortens below unrefused hasJob starts _

theorem outcome_addJobs_congr (shortens : first.Shortens second)
    (below : SameBelow resolve parse other first second)
    (unrefused : second.NoneRefused resolve) {defaults : Entries} {jobs : RawJobs}
    (named : rawJobsOf second.entries = .ok jobs) (entries : RawJobs) (inside : entries ⊆ jobs)
    (gathered : Gathered) :
    outcome (addJobs resolve parse first.chain first.path first.origins defaults jobs entries
        gathered) =
      outcome (addJobs resolve other second.chain second.path second.origins defaults jobs entries
        gathered) := by
  induction entries generalizing gathered with
  | nil => rfl
  | cons entry rest ih =>
    obtain ⟨name, value⟩ := entry
    obtain ⟨here, others⟩ := List.cons_subset.mp inside
    have jobPath : (first.origins.get? name).getD first.path =
        (second.origins.get? name).getD second.path := shortens.jobPath name
    simp only [addJobs]
    by_cases hidden : isHidden name = true
    · rw [if_pos hidden, if_pos hidden]
      exact ih others gathered
    · rw [if_neg hidden, if_neg hidden, jobPath]
      cases value with
      | map entries =>
        simp only [outcome_bind, outcome_fault]
        refine bind_congr_of_ok fun raw extended => bind_congr_of_ok fun written wrote =>
          bind_congr_of_ok fun kept _ => ?_
        obtain ⟨rfl, -⟩ := job_identity wrote
        have hasJob : second.HasJob written.name raw :=
          ⟨jobs, ⟨named, hidden, entries, here⟩, extended⟩
        rw [outcome_addJob_congr shortens below unrefused hasJob]
        exact bind_congr_of_ok fun reached _ => ih others reached
      | _ =>
        simp only [outcome_bind, outcome_noted, ok_bind]
        exact ih others gathered

theorem outcome_gatherWith_congr (shortens : first.Shortens second)
    (below : SameBelow resolve parse other first second)
    (unrefused : second.NoneRefused resolve) :
    outcome (gatherWith resolve parse first.chain first.path first.origins first.entries) =
      outcome (gatherWith resolve other second.chain second.path
        second.origins second.entries) := by
  simp only [gatherWith, outcome_bind, outcome_fault, shortens.entries]
  refine bind_congr_of_ok fun jobs named => ?_
  exact outcome_addJobs_congr shortens below unrefused (uncaught_eq_ok.mp named) jobs
    (List.Subset.refl jobs) _

end Congruence

theorem Layer.Triggers.chain {resolve : Resolver} {layer child : Layer}
    (triggers : layer.Triggers resolve child) :
    child.chain = layer.chain ++ originFiles child.origins := by
  obtain ⟨name, raw, includes, files, -, -, -, made⟩ := triggers
  obtain ⟨_, _, _, -, rfl⟩ := exists_origin_of_childLayer made
  rfl

theorem Layer.Triggers.shortens {resolve : Resolver} {first second child : Layer}
    (shortens : first.Shortens second) (triggers : second.Triggers resolve child) :
    Layer.Shortens ⟨first.chain ++ originFiles child.origins, child.path,
      child.origins, child.entries⟩
      child where
  path := rfl
  entries := rfl
  jobPath := fun _ => rfl
  inChain := by
    rw [triggers.chain]
    exact append_subset_append shortens.inChain _
  length := by
    rw [triggers.chain]
    exact length_append_le shortens.length _

theorem outcome_gather_congr {resolve : Resolver} (levels fewer : Nat) {first second : Layer}
    (shortens : first.Shortens second) (unrefused : second.NoneRefused resolve)
    (enough : maxFiles < levels + first.chain.length)
    (enoughBelow : maxFiles < fewer + second.chain.length) :
    outcome (gather resolve levels first.chain first.path first.origins first.entries) =
      outcome (gather resolve fewer second.chain second.path second.origins second.entries) := by
  induction fewer generalizing levels first second with
  | zero =>
    have full (child : Layer) (triggers : second.Triggers resolve child) : False := by
      have short := triggers.length.1
      omega
    have none (parse : Option Parsing) : SameBelow resolve parse none first second :=
      fun child triggers => (full child triggers).elim
    cases levels with
    | zero => exact outcome_gatherWith_congr shortens (none _) unrefused
    | succ levels => exact outcome_gatherWith_congr shortens (none _) unrefused
  | succ fewer ih =>
    cases levels with
    | zero =>
      refine outcome_gatherWith_congr shortens (fun child triggers => ?_) unrefused
      have short := triggers.length.1
      have less := shortens.length
      omega
    | succ levels =>
      refine outcome_gatherWith_congr shortens (fun child triggers => ?_) unrefused
      have next := triggers.shortens shortens
      have longer := triggers.length.2
      refine ⟨_, _, rfl, rfl, ih levels next (unrefused.triggers triggers) ?_ (by omega)⟩
      rw [triggers.chain] at longer
      rw [List.length_append] at longer ⊢
      omega

end SupplyLint.Gitlab
