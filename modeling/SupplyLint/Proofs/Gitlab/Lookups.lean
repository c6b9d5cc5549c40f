import SupplyLint.Proofs.Gitlab.Chains
import SupplyLint.Proofs.Gitlab.Lines
import SupplyLint.Proofs.Lookups
import SupplyLint.Proofs.Reading

/-! # What is looked up for configurations

A configuration looks up what it includes, its jobs what they trigger, and each of
the files that are found what it includes and triggers itself.
`normalize_of_agree`: nothing else of a resolver matters for the pipeline of a
document. `gather_congr`: nor does it matter how many levels of child pipelines may
be read, as long as there are enough for the longest chain of files. -/
set_option autoImplicit false

namespace SupplyLint.Gitlab

open SupplyLint.Text

/-! ## Includes -/

def includeTarget (item : Value) : Option String :=
  match Include.ofValue item with
  | .ok (.file written) =>
    if contains (stripped written) "*" then none else some (stripped written)
  | _ => none

def targets (raw : Entries) : List String :=
  (includeItems raw).filterMap includeTarget

theorem includeTarget_eq_some {item : Value} {target : String} :
    includeTarget item = some target ↔
      ∃ written, Include.ofValue item = .ok (.file written) ∧ stripped written = target ∧
        ¬ contains target "*" = true := by
  unfold includeTarget
  constructor
  · intro found
    split at found
    · next written names =>
      split at found
      · cases found
      · next plain =>
        obtain rfl := Option.some.inj found
        exact ⟨written, names, rfl, plain⟩
    · cases found
  · rintro ⟨written, names, rfl, plain⟩
    rw [names]
    exact if_neg plain

theorem refers_targets : Refers targets = Includes := by
  funext raw target
  simp only [Refers, targets, List.mem_filterMap, Includes, includeTarget_eq_some]

section Lists
variable {first second : String → Normalizing (Option Merged)} {path location : String}

theorem mergeList_congr (items : List Value)
    (same : ∀ item ∈ items, ∀ written, Include.ofValue item = .ok (.file written) →
      first written = second written) (merged : Merged) :
    mergeList first path items merged = mergeList second path items merged := by
  induction items generalizing merged with
  | nil => rfl
  | cons item rest ih =>
    obtain ⟨own, others⟩ := List.forall_mem_cons.mp same
    simp only [mergeList]
    refine bind_congr_of_outcome fun what found => ?_
    rw [outcome_fault, uncaught_eq_ok] at found
    cases what with
    | file written =>
      simp only [own written found]
      refine bind_congr_of_outcome fun file _ => ?_
      cases file with
      | none => exact ih others _
      | some file => exact ih others _
    | package ref => exact ih others _
    | elsewhere what => exact bind_congr_of_outcome fun _ _ => ih others _
    | malformed => exact bind_congr_of_outcome fun _ _ => ih others _

theorem mergeWith_congr {raw : Entries}
    (same : ∀ item ∈ includeItems raw, ∀ written, Include.ofValue item = .ok (.file written) →
      first written = second written) :
    mergeWith first path raw = mergeWith second path raw := by
  unfold includeItems at same
  unfold mergeWith
  cases field : Value.field raw "include" with
  | null => rfl
  | _ =>
    rw [field] at same
    simp only [mergeList_congr _ same]

theorem childFiles_congr (items : List Value)
    (same : ∀ item ∈ items, ∀ written, Include.ofValue item = .ok (.file written) →
      first (stripped written) = second (stripped written)) (files : ChildFiles) :
    childFiles first path location items files = childFiles second path location items files := by
  induction items generalizing files with
  | nil => rfl
  | cons item rest ih =>
    obtain ⟨own, others⟩ := List.forall_mem_cons.mp same
    simp only [childFiles]
    refine bind_congr_of_outcome fun what found => ?_
    rw [outcome_fault, uncaught_eq_ok] at found
    cases what with
    | file written =>
      have opens := own written found
      unfold stripped at opens
      simp only [opens]
      refine bind_congr_of_outcome fun file _ => ?_
      cases file with
      | none => exact ih others _
      | some file => exact bind_congr_of_outcome fun more _ => ih others more
    | package ref => exact ih others _
    | elsewhere what => exact bind_congr_of_outcome fun _ _ => ih others _
    | malformed => exact bind_congr_of_outcome fun _ _ => ih others _

end Lists

section Agree
variable {first second : Resolver} {room : Nat} {chain : List String} {raw : Entries}
variable {written : String}

theorem enterWith_congr_of_refused (path : String) (merging other : Option Merging)
    (refused : contains (stripped written) "*" = true ∨ stripped written ∈ chain) :
    enterWith first path merging chain written = enterWith second path other chain written := by
  by_cases wildcard : contains (stripped written) "*" = true
  · rw [enterWith_of_wildcard first path wildcard, enterWith_of_wildcard second path wildcard]
  · have inside := refused.resolve_left wildcard
    rw [enterWith_of_refused first path wildcard (Or.inl inside),
      enterWith_of_refused second path wildcard (Or.inl inside)]

theorem enterWith_congr {path : String} {merging other : Merging}
    (plain : ¬ contains (stripped written) "*" = true) (outside : stripped written ∉ chain)
    (same : first (stripped written) = second (stripped written))
    (below : ∀ called, opened first (stripped written) = .ok (some called) →
      merging (chain ++ [stripped written]) called = other (chain ++ [stripped written]) called) :
    enterWith first path (some merging) chain written =
      enterWith second path (some other) chain written := by
  rw [enterWith_of_some first path plain outside, enterWith_of_some second path plain outside, same]
  refine bind_congr_of_outcome fun found looked => ?_
  rw [outcome_failure] at looked
  cases found with
  | none => rfl
  | some content =>
    refine bind_congr_of_outcome fun called opens => ?_
    cases called with
    | none => rfl
    | some called =>
      refine congrArg (some <$> ·) (below called ?_)
      rw [opened, same, looked, ok_bind]
      exact opens

theorem enterWith_of_agree {path : String}
    (below : ∀ chain called, Agree first second (lookups targets (opened first) room chain called) →
      merge first path room chain called = merge second path room chain called)
    (agree : Agree first second (lookups targets (opened first) (room + 1) chain raw))
    (includes : ¬ contains (stripped written) "*" = true → Includes raw (stripped written)) :
    enterWith first path (some (merge first path room)) chain written =
      enterWith second path (some (merge second path room)) chain written := by
  by_cases refused : contains (stripped written) "*" = true ∨ stripped written ∈ chain
  · exact enterWith_congr_of_refused path _ _ refused
  · obtain ⟨plain, outside⟩ := not_or.mp refused
    have refers : Refers targets raw (stripped written) := by
      rw [refers_targets]
      exact includes plain
    obtain ⟨here, later⟩ := agree.refers refers outside
    exact enterWith_congr plain outside here fun called opens => below _ called (later called opens)

theorem merge_of_agree (path : String)
    (agree : Agree first second (lookups targets (opened first) room chain raw)) :
    merge first path room chain raw = merge second path room chain raw := by
  induction room generalizing chain raw with
  | zero => rfl
  | succ room ih =>
    rw [merge_eq, merge_eq]
    refine mergeWith_congr fun item member written names => ?_
    exact enterWith_of_agree (fun chain called agree => ih agree) agree
      fun plain => ⟨item, member, written, names, rfl, plain⟩

theorem enter_of_agree (path : String)
    (agree : Agree first second
      (lookups targets (opened first) (maxFiles - chain.length) chain raw))
    (includes : ¬ contains (stripped written) "*" = true → Includes raw (stripped written)) :
    enter first path chain written = enter second path chain written := by
  rw [enter_eq, enter_eq]
  cases room : maxFiles - chain.length with
  | zero => rfl
  | succ fewer =>
    rw [room] at agree
    exact enterWith_of_agree (fun chain called agree => merge_of_agree path agree) agree includes

end Agree

/-! ## Child pipelines -/

def startedIncludes (raw : Entries) : Option Value :=
  (Keyed.get? raw (.text "trigger")).bind fun trigger =>
    match Downstream.ofValue trigger with
    | .ok (.child includes) => some includes
    | _ => none

theorem startedIncludes_eq_some {raw : Entries} {includes : Value} :
    startedIncludes raw = some includes ↔ Starts raw includes := by
  rw [startedIncludes, Option.bind_eq_some_iff, Starts]
  refine exists_congr fun trigger => and_congr_right fun _ => ?_
  cases Downstream.ofValue trigger with
  | error fault => simp
  | ok downstream => cases downstream <;> simp

def fileLookups (resolve : Resolver) (chain : List String) (includes : Value) : List Lookup :=
  lookups targets (opened resolve) (maxFiles - chain.length) chain [(.text "include", includes)]

namespace Layer

/-- The child pipelines that the jobs of a configuration start, by the names of the jobs. -/
def starts (layer : Layer) : List (String × Value) :=
  ((rawJobsOf layer.entries).toOption.getD []).filterMap fun entry =>
    match isHidden entry.1, entry.2 with
    | false, .map _ =>
      ((outcome (resolveExtends ((rawJobsOf layer.entries).toOption.getD []) (layer.jobPath entry.1)
        entry.1)).toOption.bind startedIncludes).map (entry.1, ·)
    | _, _ => none

theorem mem_starts {layer : Layer} {name : String} {includes : Value} :
    (name, includes) ∈ layer.starts ↔ ∃ raw, layer.HasJob name raw ∧ Starts raw includes := by
  unfold starts
  constructor
  · intro member
    obtain ⟨⟨key, value⟩, inside, found⟩ := List.mem_filterMap.mp member
    dsimp only at found
    split at found
    · next entries visible =>
      simp only [Option.map_eq_some_iff, Option.bind_eq_some_iff, Prod.mk.injEq,
        toOption_eq_some] at found
      obtain ⟨_, ⟨raw, extended, started⟩, rfl, rfl⟩ := found
      cases named : rawJobsOf layer.entries with
      | error fault =>
        rw [named] at inside
        cases inside
      | ok jobs =>
        rw [named] at inside extended
        exact ⟨raw, ⟨jobs, ⟨named, by simp [visible], entries, inside⟩, extended⟩,
          startedIncludes_eq_some.mp started⟩
    · cases found
  · rintro ⟨raw, ⟨jobs, ⟨named, visible, entries, inside⟩, extended⟩, started⟩
    have hidden : isHidden name = false := by simpa using visible
    rw [named]
    refine List.mem_filterMap.mpr ⟨(name, .map entries), inside, ?_⟩
    simp only [hidden, Except.toOption, Option.getD_some, extended, Option.bind_some,
      startedIncludes_eq_some.mpr started, Option.map_some]

def child (resolve : Resolver) (layer : Layer) (start : String × Value) : Option Layer :=
  (openedFiles resolve layer.chain layer.path start.1 start.2).toOption.bind
  (childLayer layer.chain)

theorem triggers_iff {resolve : Resolver} {layer child : Layer} :
    layer.Triggers resolve child ↔
      ∃ start ∈ layer.starts, layer.child resolve start = some child := by
  constructor
  · rintro ⟨name, raw, includes, files, hasJob, started, opens, made⟩
    refine ⟨(name, includes), mem_starts.mpr ⟨raw, hasJob, started⟩, ?_⟩
    rw [Layer.child, opens]
    exact made
  · rintro ⟨⟨name, includes⟩, member, found⟩
    obtain ⟨raw, hasJob, started⟩ := mem_starts.mp member
    obtain ⟨files, opens, made⟩ := Option.bind_eq_some_iff.mp found
    exact ⟨name, raw, includes, files, hasJob, started, toOption_eq_some.mp opens, made⟩

/-- What is looked up for the child pipelines of a configuration, down to a number of levels. -/
def lookups (resolve : Resolver) : Nat → Layer → List Lookup
  | 0, _ => []
  | levels + 1, layer => layer.starts.flatMap fun start =>
    fileLookups resolve layer.chain start.2 ++
      (layer.child resolve start).elim [] (lookups resolve levels)

def ForAllFiles (resolve : Resolver) (holds : Lookup → Prop) (layer : Layer) : Prop :=
  ∀ name raw includes, layer.HasJob name raw → Starts raw includes →
    ∀ lookup ∈ fileLookups resolve layer.chain includes, holds lookup

variable {resolve : Resolver} {holds : Lookup → Prop} {layer : Layer}

theorem forAllFiles_of_full (full : maxFiles ≤ layer.chain.length) :
    layer.ForAllFiles resolve holds := by
  intro name raw includes _ _ lookup member
  rw [fileLookups, Nat.sub_eq_zero_of_le full] at member
  cases member

theorem forall_lookups_iff {levels : Nat} (enough : maxFiles < levels + layer.chain.length) :
    (∀ lookup ∈ lookups resolve levels layer, holds lookup) ↔
      ∀ last, Relation.ReflTransGen (Layer.Triggers resolve) layer last →
        last.ForAllFiles resolve holds := by
  induction levels generalizing layer with
  | zero =>
    -- No level is left, but then the chain is full and nothing can be triggered.
    rw [forall_reached_iff]
    refine iff_of_true (fun lookup member => by cases member)
      ⟨forAllFiles_of_full (by omega), fun child triggers => ?_⟩
    have short := triggers.length.1
    omega
  | succ levels ih =>
    have below (child : Layer) (triggers : layer.Triggers resolve child) :
        (∀ lookup ∈ lookups resolve levels child, holds lookup) ↔
          ∀ last, Relation.ReflTransGen (Layer.Triggers resolve) child last →
            last.ForAllFiles resolve holds := by
      have longer := triggers.length.2
      exact ih (by omega)
    rw [forall_reached_iff, lookups]
    constructor
    · intro all
      refine ⟨fun name raw includes hasJob started lookup member => ?_, fun child triggers => ?_⟩
      · have start := mem_starts.mpr ⟨raw, hasJob, started⟩
        exact all lookup (List.mem_flatMap.mpr ⟨_, start, List.mem_append_left _ member⟩)
      · obtain ⟨start, member, found⟩ := triggers_iff.mp triggers
        refine (below child triggers).mp fun lookup inside => ?_
        refine all lookup (List.mem_flatMap.mpr ⟨start, member, List.mem_append_right _ ?_⟩)
        rw [found]
        exact inside
    · rintro ⟨own, later⟩ lookup member
      obtain ⟨⟨name, includes⟩, started, member⟩ := List.mem_flatMap.mp member
      rcases List.mem_append.mp member with here | inside
      · obtain ⟨raw, hasJob, starts⟩ := mem_starts.mp started
        exact own name raw includes hasJob starts lookup here
      · cases found : layer.child resolve (name, includes) with
        | none =>
          rw [found] at inside
          cases inside
        | some child =>
          rw [found] at inside
          have triggers := triggers_iff.mpr ⟨_, started, found⟩
          exact (below child triggers).mpr (later child triggers) lookup inside

end Layer

/-! ## Configurations with their child pipelines -/

section Congruence
variable {first second : Resolver} {parse other : Option Parsing} {layer : Layer}

def ReadAlike (resolve : Resolver) (parse other : Option Parsing) (layer : Layer) : Prop :=
  ∀ child, layer.Triggers resolve child → ∃ read again, parse = some read ∧ other = some again ∧
    read child.chain child.path child.origins child.entries =
      again child.chain child.path child.origins child.entries

def AgreeBelow (first second : Resolver) (layer : Layer) : Prop :=
  layer.ForAllFiles first fun lookup => first lookup.target = second lookup.target

theorem inlineChild_congr (agree : AgreeBelow first second layer)
    (below : ReadAlike first parse other layer) {name : String} {raw : Entries} {includes : Value}
    (hasJob : layer.HasJob name raw) (starts : Starts raw includes) (gathered : Gathered) :
    inlineChild first parse layer.chain layer.path name includes gathered =
      inlineChild second other layer.chain layer.path name includes gathered := by
  have agreed := agree name raw includes hasJob starts
  have same : childFiles (enter first layer.path layer.chain) layer.path
        (name ++ ".trigger.include") includes.asList {} =
      childFiles (enter second layer.path layer.chain) layer.path
        (name ++ ".trigger.include") includes.asList {} := by
    refine childFiles_congr _ (fun item member written names => ?_) {}
    refine enter_of_agree layer.path agreed fun plain => ?_
    rw [stripped_stripped] at plain ⊢
    exact includes_of_written member names plain
  unfold inlineChild
  rw [← same]
  refine bind_congr_of_outcome fun files opens => ?_
  cases origins : files.origins with
  | nil => cases parse <;> cases other <;> rfl
  | cons origin rest =>
    obtain ⟨key, path⟩ := origin
    have made := childLayer_of_origins layer.chain origins
    obtain ⟨read, again, rfl, rfl, alike⟩ :=
      below _ ⟨name, raw, includes, files, hasJob, starts, opens, made⟩
    dsimp only at alike
    rw [origins] at alike
    simp only [alike]

theorem addJob_congr (agree : AgreeBelow first second layer)
    (below : ReadAlike first parse other layer) {written : Job} {raw : Entries}
    (hasJob : layer.HasJob written.name raw) (jobPath : String) (gathered : Gathered) :
    addJob first parse layer.chain layer.path jobPath written raw gathered =
      addJob second other layer.chain layer.path jobPath written raw gathered := by
  unfold addJob
  cases found : Keyed.get? raw (.text "trigger") with
  | none => rfl
  | some trigger =>
    refine bind_congr_of_outcome fun downstream read => ?_
    rw [outcome_fault, uncaught_eq_ok] at read
    cases downstream with
    | project ref => rfl
    | malformed reason => rfl
    | child includes => exact inlineChild_congr agree below hasJob ⟨trigger, found, read⟩ _

theorem addJobs_congr (agree : AgreeBelow first second layer)
    (below : ReadAlike first parse other layer) {jobs : RawJobs}
    (named : rawJobsOf layer.entries = .ok jobs) (entries : RawJobs) (inside : entries ⊆ jobs)
    (defaults : Entries) (gathered : Gathered) :
    addJobs first parse layer.chain layer.path layer.origins defaults jobs entries gathered =
      addJobs second other layer.chain layer.path layer.origins defaults jobs entries gathered := by
  induction entries generalizing gathered with
  | nil => rfl
  | cons entry rest ih =>
    obtain ⟨name, value⟩ := entry
    obtain ⟨here, others⟩ := List.cons_subset.mp inside
    simp only [addJobs]
    by_cases hidden : isHidden name = true
    · rw [if_pos hidden, if_pos hidden]
      exact ih others gathered
    · rw [if_neg hidden, if_neg hidden]
      cases value with
      | map entries =>
        refine bind_congr_of_outcome fun raw extended => bind_congr_of_outcome fun written wrote =>
          bind_congr_of_outcome fun kept _ => ?_
        obtain ⟨rfl, -⟩ := job_identity wrote
        have hasJob : layer.HasJob written.name raw :=
          ⟨jobs, ⟨named, hidden, entries, here⟩, extended⟩
        rw [addJob_congr agree below hasJob]
        exact bind_congr_of_outcome fun reached _ => ih others reached
      | _ => exact bind_congr_of_outcome fun _ _ => ih others gathered

theorem gatherWith_congr (agree : AgreeBelow first second layer)
    (below : ReadAlike first parse other layer) :
    gatherWith first parse layer.chain layer.path layer.origins layer.entries =
      gatherWith second other layer.chain layer.path layer.origins layer.entries := by
  unfold gatherWith
  refine bind_congr_of_outcome fun jobs named => ?_
  rw [outcome_fault, uncaught_eq_ok] at named
  exact addJobs_congr agree below named jobs (List.Subset.refl jobs) _ _

/-- Resolvers that agree on what is triggered gather alike, and more levels than there are files in
a chain change nothing. -/
theorem gather_congr {levels fewer : Nat} (enough : maxFiles < levels + layer.chain.length)
    (enoughBelow : maxFiles < fewer + layer.chain.length)
    (agree : ∀ last, Relation.ReflTransGen (Layer.Triggers first) layer last →
      AgreeBelow first second last) :
    gather first levels layer.chain layer.path layer.origins layer.entries =
      gather second fewer layer.chain layer.path layer.origins layer.entries := by
  -- Without levels the chain is longer than it may be, and so nothing is triggered.
  have full {child : Layer} (triggers : layer.Triggers first child)
      (long : maxFiles < layer.chain.length) : False := by
    have short := triggers.length.1
    omega
  induction fewer generalizing levels layer with
  | zero =>
    have none (parse other : Option Parsing) : ReadAlike first parse other layer :=
      fun child triggers => (full triggers (by omega)).elim
    cases levels with
    | zero => exact gatherWith_congr (agree _ .refl) (none _ _)
    | succ levels => exact gatherWith_congr (agree _ .refl) (none _ _)
  | succ fewer ih =>
    cases levels with
    | zero =>
      exact gatherWith_congr (agree _ .refl) fun child triggers => (full triggers (by omega)).elim
    | succ levels =>
      refine gatherWith_congr (agree _ .refl) fun child triggers => ?_
      have longer := triggers.length.2
      refine ⟨_, _, rfl, rfl, ih (by omega) (by omega)
        (fun last reached => agree last (.head triggers reached)) fun triggers long => ?_⟩
      have short := triggers.length.1
      omega

end Congruence

/-- What is looked up for a document: what it includes, and for the child pipelines below it. -/
def documentLookups (resolve : Resolver) (path : String) (content : List UInt8) : List Lookup :=
  match outcome (configuration path content) with
  | .ok (some raw) =>
    lookups targets (opened resolve) (maxFiles - 1) [path] raw ++
      (outcome (merge resolve path (maxFiles - 1) [path] raw)).toOption.elim []
        fun merged => Layer.lookups resolve maxFiles ⟨[path], path, [], merged.entries⟩
  | _ => []

section Documents
variable {resolve first second : Resolver} {path : String} {content : List UInt8}

theorem forall_documentLookups_iff {holds : Lookup → Prop} :
    (∀ lookup ∈ documentLookups resolve path content, holds lookup) ↔
      (∀ raw, outcome (configuration path content) = .ok (some raw) →
        ∀ lookup ∈ lookups targets (opened resolve) (maxFiles - 1) [path] raw, holds lookup) ∧
      ∀ top, TopLayer resolve path content top →
        ∀ layer, Relation.ReflTransGen (Layer.Triggers resolve) top layer →
          layer.ForAllFiles resolve holds := by
  have levels (merged : Merged) :=
    @Layer.forall_lookups_iff resolve holds ⟨[path], path, [], merged.entries⟩ maxFiles
      (Nat.lt_succ_self maxFiles)
  unfold documentLookups
  cases loaded : outcome (configuration path content) with
  | error failure =>
    have noTop (top : Layer) : ¬ TopLayer resolve path content top := by
      rintro ⟨raw, merged, same, -, -⟩
      cases loaded.symm.trans same
    simp [noTop]
  | ok found =>
    cases found with
    | none =>
      have noTop (top : Layer) : ¬ TopLayer resolve path content top := by
        rintro ⟨raw, merged, same, -, -⟩
        cases loaded.symm.trans same
      simp [noTop]
    | some raw =>
      simp only [Except.ok.injEq, Option.some.injEq, forall_eq', List.forall_mem_append]
      refine and_congr_right fun _ => ?_
      cases included : outcome (merge resolve path (maxFiles - 1) [path] raw) with
      | error failure =>
        refine iff_of_true (fun lookup none => by cases none) ?_
        rintro top ⟨other, merged, same, merges, -⟩
        obtain rfl := Option.some.inj (Except.ok.inj (loaded.symm.trans same))
        cases included.symm.trans merges
      | ok merged =>
        refine (levels merged).trans ⟨fun all => ?_, fun all => ?_⟩
        · rintro top ⟨other, again, same, merges, rfl⟩
          obtain rfl := Option.some.inj (Except.ok.inj (loaded.symm.trans same))
          obtain rfl := Except.ok.inj (included.symm.trans merges)
          exact all
        · exact all _ ⟨raw, merged, loaded, included, rfl⟩

/-- A document is read alike with resolvers that agree on what is looked up for it. -/
theorem normalize_of_agree (agree : Agree first second (documentLookups first path content)) :
    normalize first path content = normalize second path content := by
  obtain ⟨includes, triggers⟩ := forall_documentLookups_iff.mp agree
  unfold normalize
  refine bind_congr_of_outcome fun found loaded => ?_
  cases found with
  | none => rfl
  | some raw =>
    simp only [← merge_of_agree path (includes raw loaded)]
    refine bind_congr_of_outcome fun merged included => bind_congr_of_outcome fun env _ => ?_
    have gathers := @gather_congr first second ⟨[path], path, [], merged.entries⟩ maxFiles maxFiles
      (Nat.lt_succ_self maxFiles) (Nat.lt_succ_self maxFiles)
      (triggers _ ⟨raw, merged, loaded, included, rfl⟩)
    dsimp only at gathers
    rw [gathers]

theorem fileLoads_of_returns (returned : Returns (outcome (normalize resolve path content))) :
    ∀ lookup ∈ documentLookups resolve path content, FileLoads resolve lookup.target := by
  have readable := ((returns_normalize resolve path content).mp returned).2
  rw [forall_documentLookups_iff]
  constructor
  · intro raw loaded
    refine (forall_lookups_iff (fun lookup => FileLoads resolve lookup.target) ⟨[path], raw⟩).mpr ?_
    rw [refers_targets]
    exact fun next reached => ((readable raw loaded).1 next reached).loads
  · rintro top ⟨raw, merged, loaded, included, rfl⟩ layer reached name job includes hasJob starts
    have below := ((readable raw loaded).2 merged included).2 layer reached
    have files := (below.files name job includes hasJob starts).1
    refine (forall_lookups_iff (fun lookup => FileLoads resolve lookup.target)
      ⟨layer.chain, [(.text "include", includes)]⟩).mpr ?_
    rw [refers_targets]
    exact fun next opens => (files next opens).loads

end Documents

end SupplyLint.Gitlab
