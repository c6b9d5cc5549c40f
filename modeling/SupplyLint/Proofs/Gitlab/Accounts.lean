import SupplyLint.Proofs.Document.Jobs
import SupplyLint.Proofs.Gitlab.ChildFiles
import SupplyLint.Proofs.Gitlab.Fates
import SupplyLint.Proofs.Gitlab.Problems

/-! # What becomes of every include

No include is lost: the packages of a pipeline are those of the account of its
includes, and the problems that are noted for includes are those of the account, both
in its order (`every_include_is_accounted`). -/
set_option autoImplicit false

namespace SupplyLint.Gitlab

open SupplyLint.Text

/-! ## Opening a file -/

def IsUnparsable (path : String) (problems : List Problem) : Prop :=
  ∃ message, problems = [⟨.unparsable, path, message, ""⟩]

theorem noted_documents {path : String} {content : List UInt8} {found : Option (List Value)}
    (read : outcome (Source.documents path content) = .ok found) :
    if found.isSome then noted (Source.documents path content) = []
    else IsUnparsable path (noted (Source.documents path content)) := by
  unfold Source.documents at read ⊢
  cases loaded : Yaml.load content with
  | ok values =>
    rw [loaded] at read
    obtain rfl := Except.ok.inj read
    rfl
  | error failure =>
    rw [loaded] at read
    cases failure with
    | malformed =>
      obtain rfl := Except.ok.inj read
      exact ⟨_, rfl⟩
    | fault fault => cases read

theorem problems_mapping (path : String) (values : List Value) :
    if (Source.mapping path values).value.isSome then (Source.mapping path values).problems = []
    else IsUnparsable path (Source.mapping path values).problems := by
  unfold Source.mapping
  split
  · rfl
  · exact ⟨_, rfl⟩

theorem noted_configuration {path : String} {content : List UInt8} {found : Option Entries}
    (read : outcome (configuration path content) = .ok found) :
    if found.isSome then noted (configuration path content) = []
    else IsUnparsable path (noted (configuration path content)) := by
  unfold configuration at read ⊢
  simp only [outcome_bind, bind_eq_ok] at read
  obtain ⟨values, loaded, read⟩ := read
  have first := noted_documents loaded
  rw [noted_bind_of_ok loaded]
  cases values with
  | none =>
    obtain rfl := Except.ok.inj read
    simpa using first
  | some values =>
    obtain rfl := Except.ok.inj read
    have second := problems_mapping path
    simp only [Option.isSome_some, if_true] at first
    rw [first, List.nil_append, noted_lift]
    exact second _

/-- What comes of opening the file that an include names: it is passed over, or it is merged with
what it includes, of which there is an account. -/
inductive Entered (resolve : Resolver) (path : String) (chain : List String) (item : Value) :
    Option Merged → List Problem → Prop
  | passed {problem : Problem}
      (passes : ∀ location, PassedOver resolve path location chain item problem) :
      Entered resolve path chain item none [problem]
  | merged {target : String} {raw below : Entries} {nested : Account}
      (opens : MayOpen chain item target) (found : opened resolve target = .ok (some raw))
      (inner : Accounted resolve path "include" (chain ++ [target])
        (includeItems raw) [] below nested) :
      Entered resolve path chain item (some ⟨withIncluded raw below, nested.references⟩)
        nested.problems

def Enters (resolve : Resolver) (path : String) (chain : List String)
    (enter : String → Normalizing (Option Merged)) : Prop :=
  ∀ item written file, Include.ofValue item = .ok (.file written) →
    outcome (enter written) = .ok file → Entered resolve path chain item file
      (noted (enter written))

def HasAccount (resolve : Resolver) (path location : String) (chain : List String)
    (items : List Value) (before after : Merged) (problems : List Problem) : Prop :=
  ∃ account, Accounted resolve path location chain items before.entries after.entries account ∧
    after.references = before.references ++ account.references ∧ problems = account.problems

section Steps
variable {resolve : Resolver} {path location : String} {chain : List String}
variable {item : Value} {rest : List Value} {before after : Merged} {problems : List Problem}

theorem hasAccount_nil : HasAccount resolve path location chain [] before before [] :=
  ⟨[], .nil, by simp, rfl⟩

theorem HasAccount.passed {problem : Problem}
    (passes : PassedOver resolve path location chain item problem)
    (later : HasAccount resolve path location chain rest before after problems) :
    HasAccount resolve path location chain (item :: rest) before after (problem :: problems) := by
  obtain ⟨account, accounted, references, rfl⟩ := later
  refine ⟨_, .noted passes accounted, ?_, ?_⟩
  · simpa [Account.reference?] using references
  · simp [Account.problem?]

theorem HasAccount.package {ref : Option PackageRef}
    (read : Include.ofValue item = .ok (.package ref))
    (later : HasAccount resolve path location chain rest
      ⟨before.entries, before.references ++ ref.toList⟩ after problems) :
    HasAccount resolve path location chain (item :: rest) before after problems := by
  obtain ⟨account, accounted, references, rfl⟩ := later
  obtain ⟨name, names⟩ := exists_namesPackage read
  cases ref with
  | none =>
    obtain rfl := names.eq_none_iff.mp rfl
    refine ⟨_, .nameless names accounted, ?_, ?_⟩
    · simpa [Account.reference?] using references
    · simp [Account.problem?]
  | some ref =>
    refine ⟨_, .referenced names accounted, ?_, ?_⟩
    · simpa [Account.reference?] using references
    · simp [Account.problem?]

theorem HasAccount.merged {target : String} {raw below : Entries} {nested : Account}
    (opens : MayOpen chain item target) (found : opened resolve target = .ok (some raw))
    (inner : Accounted resolve path "include" (chain ++ [target])
      (includeItems raw) [] below nested)
    (later : HasAccount resolve path location chain rest
      ⟨Field.merge before.entries (withIncluded raw below), before.references ++ nested.references⟩
      after problems) :
    HasAccount resolve path location chain (item :: rest) before after
      (nested.problems ++ problems) := by
  obtain ⟨account, accounted, references, rfl⟩ := later
  refine ⟨_, .merged opens found inner accounted, ?_, ?_⟩
  · simpa [Account.reference?] using references
  · simp [Account.problem?]

end Steps

section Lists
variable {resolve : Resolver} {path location : String} {chain : List String}
variable {enter : String → Normalizing (Option Merged)}

theorem mergeList_accounts (enters : Enters resolve path chain enter) (items : List Value)
    {merged result : Merged} (read : outcome (mergeList enter path items merged) = .ok result) :
    HasAccount resolve path "include" chain items merged result
      (noted (mergeList enter path items merged)) := by
  induction items generalizing merged with
  | nil =>
    obtain rfl := Except.ok.inj read
    exact hasAccount_nil
  | cons item rest ih =>
    unfold mergeList at read ⊢
    simp only [outcome_bind, bind_eq_ok, outcome_fault, uncaught_eq_ok] at read
    obtain ⟨what, found, read⟩ := read
    rw [noted_bind_of_ok (outcome_fault_of_ok found), noted_fault, List.nil_append]
    cases what with
    | file written =>
      simp only [outcome_bind, bind_eq_ok] at read
      obtain ⟨file, opens, read⟩ := read
      have entered := enters item written file found opens
      rw [noted_bind_of_ok opens]
      generalize noted (enter written) = problems at entered
      cases entered with
      | passed passes => exact .passed (passes _) (ih read)
      | merged mayOpen loads inner => exact .merged mayOpen loads inner (ih read)
    | package ref => exact .package found (ih read)
    | elsewhere what =>
      simp only [outcome_bind, outcome_noted, ok_bind] at read
      rw [noted_bind_of_ok (outcome_noted _), noted_lift]
      exact .passed (.elsewhere found) (ih read)
    | malformed =>
      simp only [outcome_bind, outcome_noted, ok_bind] at read
      rw [noted_bind_of_ok (outcome_noted _), noted_lift]
      exact .passed (.malformed found) (ih read)

def ChildFiles.merged (files : ChildFiles) : Merged :=
  ⟨files.entries, files.references⟩

theorem childFiles_accounts
    (enters : Enters resolve path chain fun written => enter (stripped written))
    (items : List Value) {files result : ChildFiles}
    (read : outcome (childFiles enter path location items files) = .ok result) :
    HasAccount resolve path location chain items files.merged result.merged
      (noted (childFiles enter path location items files)) := by
  induction items generalizing files with
  | nil =>
    obtain rfl := Except.ok.inj read
    exact hasAccount_nil
  | cons item rest ih =>
    unfold childFiles at read ⊢
    simp only [outcome_bind, bind_eq_ok, outcome_fault, uncaught_eq_ok] at read
    obtain ⟨what, found, read⟩ := read
    rw [noted_bind_of_ok (outcome_fault_of_ok found), noted_fault, List.nil_append]
    cases what with
    | file written =>
      simp only [outcome_bind, bind_eq_ok] at read
      obtain ⟨file, opens, read⟩ := read
      have entered := enters item written file found opens
      refine (noted_bind_of_ok opens).symm ▸ ?_
      unfold stripped at entered
      generalize noted (enter (String.ofList (written.toList.dropWhile (· = '/')))) = problems
        at entered ⊢
      cases entered with
      | passed passes => exact .passed (passes _) (ih read)
      | merged mayOpen loads inner =>
        simp only [outcome_bind, bind_eq_ok, outcome_fault, uncaught_eq_ok] at read
        obtain ⟨more, added, read⟩ := read
        obtain ⟨keys, -, rfl⟩ := add_eq_ok added
        dsimp only
        rw [noted_bind_of_ok (outcome_fault_of_ok added), noted_fault, List.nil_append]
        exact .merged mayOpen loads inner (ih read)
    | package ref => exact .package found (ih read)
    | elsewhere what =>
      simp only [outcome_bind, outcome_noted, ok_bind] at read
      rw [noted_bind_of_ok (outcome_noted _), noted_lift]
      exact .passed (.elsewhere found) (ih read)
    | malformed =>
      simp only [outcome_bind, outcome_noted, ok_bind] at read
      rw [noted_bind_of_ok (outcome_noted _), noted_lift]
      exact .passed (.malformed found) (ih read)

end Lists

def MergesWithAccount (resolve : Resolver) (path : String) (chain : List String) (raw : Entries)
    (merged : Merged) (problems : List Problem) : Prop :=
  ∃ below account, Accounted resolve path "include" chain (includeItems raw) [] below account ∧
    merged = ⟨withIncluded raw below, account.references⟩ ∧ problems = account.problems

section Files
variable {resolve : Resolver} {path : String} {chain : List String}

theorem mergeWith_accounts {enter : String → Normalizing (Option Merged)}
    (enters : Enters resolve path chain enter) {raw : Entries} {merged : Merged}
    (read : outcome (mergeWith enter path raw) = .ok merged) :
    MergesWithAccount resolve path chain raw merged (noted (mergeWith enter path raw)) := by
  unfold mergeWith MergesWithAccount withIncluded includeItems at *
  cases field : Value.field raw "include" with
  | null =>
    rw [field] at read
    obtain rfl := Except.ok.inj read
    exact ⟨[], [], .nil, rfl, rfl⟩
  | _ =>
    rw [field] at read
    simp only [outcome_bind, bind_eq_ok, outcome_pure, Except.ok.injEq] at read
    obtain ⟨included, listed, rfl⟩ := read
    obtain ⟨account, accounted, references, problems⟩ := mergeList_accounts enters _ listed
    refine ⟨included.entries, account, accounted, ?_, ?_⟩
    · rw [references]
      rfl
    · dsimp only
      rw [noted_bind_of_ok listed, noted_pure, List.append_nil, problems]

theorem entered_of_mayOpen {item : Value} {written : String} {merging : Merging}
    {file : Option Merged} (mayOpen : MayOpen chain item (stripped written))
    (merges : ∀ raw merged, outcome (merging (chain ++ [stripped written]) raw) = .ok merged →
      MergesWithAccount resolve path (chain ++ [stripped written]) raw merged
        (noted (merging (chain ++ [stripped written]) raw)))
    (read : outcome (enterWith resolve path (some merging) chain written) = .ok file) :
    Entered resolve path chain item file
      (noted (enterWith resolve path (some merging) chain written)) := by
  rw [enterWith_of_some resolve path mayOpen.plain mayOpen.outside] at read ⊢
  simp only [outcome_bind, bind_eq_ok, outcome_failure] at read
  obtain ⟨content, found, read⟩ := read
  rw [noted_bind_of_ok (outcome_failure _ |>.trans found), noted_failure, List.nil_append]
  cases content with
  | none =>
    obtain rfl := Except.ok.inj read
    exact .passed fun location => .missing mayOpen found
  | some content =>
    simp only [outcome_bind, bind_eq_ok] at read
    obtain ⟨raw, loaded, read⟩ := read
    dsimp only
    rw [noted_bind_of_ok loaded]
    have notes := noted_configuration loaded
    cases raw with
    | none =>
      obtain rfl := Except.ok.inj read
      obtain ⟨message, notes⟩ := notes
      rw [notes]
      exact .passed fun location => .unparsable mayOpen found loaded notes
    | some raw =>
      simp only [outcome_map, map_eq_ok] at read
      obtain ⟨merged, included, rfl⟩ := read
      have opens : opened resolve (stripped written) = .ok (some raw) := by
        rw [opened, found, ok_bind]
        exact loaded
      obtain ⟨below, account, accounted, rfl, problems⟩ := merges raw merged included
      simp only [Option.isSome_some, if_true] at notes
      rw [notes, List.nil_append, noted_map, problems]
      exact .merged mayOpen opens accounted

theorem enters_of_merges (merges : ∀ target raw merged, chain.length < maxFiles →
      outcome (merge resolve path (maxFiles - (chain.length + 1)) (chain ++ [target]) raw) =
        .ok merged →
      MergesWithAccount resolve path (chain ++ [target]) raw merged
        (noted (merge resolve path (maxFiles - (chain.length + 1)) (chain ++ [target]) raw))) :
    Enters resolve path chain
      (enterWith resolve path (mergingWithin resolve path (maxFiles - chain.length)) chain) := by
  intro item written file names read
  have named : NamesFile item (stripped written) := ⟨written, names, rfl⟩
  by_cases wildcard : contains (stripped written) "*" = true
  · rw [enterWith_of_wildcard resolve path wildcard] at read ⊢
    obtain rfl := Except.ok.inj read
    exact .passed fun location => .wildcard named wildcard
  · by_cases refused : stripped written ∈ chain ∨ maxFiles ≤ chain.length
    · have noWay : stripped written ∈ chain ∨
          mergingWithin resolve path (maxFiles - chain.length) = none := by
        refine refused.imp_right fun full => ?_
        rw [Nat.sub_eq_zero_of_le full, mergingWithin]
      rw [enterWith_of_refused resolve path wildcard noWay] at read ⊢
      obtain rfl := Except.ok.inj read
      exact .passed fun location => .refused named wildcard refused
    · obtain ⟨outside, room⟩ := not_or.mp refused
      rw [Nat.not_le] at room
      have more : maxFiles - chain.length = maxFiles - (chain.length + 1) + 1 := by omega
      rw [more, mergingWithin] at read ⊢
      exact entered_of_mayOpen ⟨named, wildcard, outside, room⟩
        (fun raw merged included => merges _ raw merged room included) read

theorem merge_accounts (chain : List String) {raw : Entries} {merged : Merged}
    (read : outcome (merge resolve path (maxFiles - chain.length) chain raw) = .ok merged) :
    MergesWithAccount resolve path chain raw merged
      (noted (merge resolve path (maxFiles - chain.length) chain raw)) := by
  induction room : maxFiles - chain.length using Nat.strongRecOn generalizing chain raw merged with
  | ind room ih =>
    subst room
    rw [merge_eq] at read ⊢
    refine mergeWith_accounts (enters_of_merges fun target raw merged short included => ?_) read
    have longer : (chain ++ [target]).length = chain.length + 1 := by simp
    rw [← longer] at included ⊢
    exact ih _ (by omega) _ included rfl

theorem enter_accounts (chain : List String) :
    Enters resolve path chain fun written => enter resolve path chain (stripped written) := by
  have same : (fun written => enter resolve path chain (stripped written)) =
      enterWith resolve path (mergingWithin resolve path (maxFiles - chain.length)) chain := by
    funext written
    rw [enter_eq, enterWith_stripped]
  rw [same]
  refine enters_of_merges fun target raw merged short included => ?_
  have longer : (chain ++ [target]).length = chain.length + 1 := by simp
  rw [← longer] at included ⊢
  exact merge_accounts _ included

end Files

def GathersWithAccount (resolve : Resolver) (layer : Layer) (gathered : Gathered)
    (problems : List Problem) : Prop :=
  ∃ jobs account, rawJobsOf layer.entries = .ok jobs ∧ JobsAccounted resolve layer jobs account ∧
    gathered.references = account.references ∧ problems.filter isOfInclude = account.problems

theorem filter_of_ofJob {α : Type} {reading : Normalizing α}
    (notes : NotesOnly OfJob reading) : (noted reading).filter isOfInclude = [] :=
  (notes.mono fun _ ofJob => ofJob.1).filter_eq_nil

theorem filter_of_ofInclude {α : Type} {reading : Normalizing α}
    (notes : NotesOnly OfInclude reading) : (noted reading).filter isOfInclude = noted reading :=
  List.filter_eq_self.mpr fun problem member => (notes problem member).1

theorem filter_validate (jobs : Jobs) (path : String) :
    (Needs.validate jobs path).problems.filter isOfInclude = [] :=
  ((ofJob_validate jobs path).mono fun _ ofJob => ofJob.1).filter_eq_nil

theorem filter_triggers (path : String) (named : List String) :
    (triggers path named).problems.filter isOfInclude = [] :=
  ((ofSource_triggers path named).mono fun _ ofSource => ofSource.2).filter_eq_nil

section Jobs
variable {resolve : Resolver} {parse : Option Parsing} {layer : Layer}
variable {gathered result : Gathered}

def BelowWithAccount (resolve : Resolver) (parse : Option Parsing) (layer : Layer) : Prop :=
  ∀ child, layer.Triggers resolve child → ∃ read, parse = some read ∧ ∀ gathered,
    outcome (read child.chain child.path child.origins child.entries) = .ok gathered →
    GathersWithAccount resolve child gathered
      (noted (read child.chain child.path child.origins child.entries))

theorem openedFiles_accounts {chain : List String} {path caller : String} {includes : Value}
    {files : ChildFiles} (opens : openedFiles resolve chain path caller includes = .ok files) :
    ∃ account, Accounted resolve path (caller ++ ".trigger.include") chain includes.asList []
        files.entries account ∧
      files.references = account.references ∧
      (noted (childFiles (enter resolve path chain) path (caller ++ ".trigger.include")
        includes.asList {})).filter isOfInclude = account.problems := by
  obtain ⟨account, accounted, references, problems⟩ :=
    childFiles_accounts (enter_accounts chain) _ opens
  refine ⟨account, accounted, references, ?_⟩
  rw [← problems]
  exact filter_of_ofInclude (ofInclude_childFiles (ofInclude_enter chain) _ _)

/-- What a job adds to an account for the includes of its trigger, before the jobs behind it. -/
def AddsAccount (resolve : Resolver) (layer : Layer) (name : String) (gathered result : Gathered)
    (problems : List Problem) : Prop :=
  ∃ account, (∀ value rest later, JobsAccounted resolve layer rest later →
      JobsAccounted resolve layer ((name, value) :: rest) (account ++ later)) ∧
    result.references = gathered.references ++ account.references ∧
    problems.filter isOfInclude = account.problems

theorem inlineChild_accounts (below : BelowWithAccount resolve parse layer) {name : String}
    {raw : Entries} {includes : Value} (hasJob : layer.HasJob name raw)
    (starts : Starts raw includes)
    (read : outcome (inlineChild resolve parse layer.chain layer.path name includes gathered) =
      .ok result) :
    AddsAccount resolve layer name gathered result
      (noted (inlineChild resolve parse layer.chain layer.path name includes gathered)) := by
  obtain ⟨files, opens, reads⟩ := inlineChild_eq_ok read
  obtain ⟨own, accounted, references, problems⟩ := openedFiles_accounts opens
  unfold AddsAccount inlineChild
  rw [noted_bind_of_ok (show outcome (childFiles ..) = .ok files from opens), List.filter_append,
    problems]
  rcases reads with ⟨nothing, rfl⟩ |
    ⟨childOf, key, first, others, shared, child, rfl, origins, childRead, sharedRead, rfl⟩
  · have noChild : childLayer layer.chain files = none := by
      cases made : childLayer layer.chain files with
      | none => rfl
      | some child =>
        obtain ⟨_, rfl, -⟩ := below child ⟨name, raw, includes, files, hasJob, starts, opens, made⟩
        obtain ⟨_, _, _, origins, -⟩ := exists_origin_of_childLayer made
        simp [origins] at nothing
    refine ⟨own, fun value rest later others => .empty hasJob starts opens accounted noChild others,
      by rw [references], ?_⟩
    rcases nothing with rfl | none
    · simp
    · rw [none]
      cases parse <;> simp
  · have made := childLayer_of_origins layer.chain origins
    obtain ⟨_, same, accounts⟩ := below _ ⟨name, raw, includes, files, hasJob, starts, opens, made⟩
    obtain rfl := Option.some.inj same
    obtain ⟨jobs, account, named, triggered, childReferences, childProblems⟩ :=
      accounts child childRead
    refine ⟨own ++ account, fun value rest later others => ?_, ?_, ?_⟩
    · rw [List.append_assoc]
      exact .child hasJob starts opens accounted made named triggered others
    · rw [withChild, references, childReferences]
      simp
    · rw [origins] at childRead childProblems ⊢
      dsimp only at childRead childProblems ⊢
      rw [noted_bind_of_ok (outcome_fault_of_ok sharedRead), noted_fault, List.nil_append,
        noted_bind_of_ok childRead, List.filter_append, childProblems,
        filter_of_ofJob ((notesOnly_lift (ofJob_validate _ _)).bind fun _ => notesOnly_pure _)]
      simp

theorem addJob_accounts (below : BelowWithAccount resolve parse layer) {written : Job}
    {jobPath : String} {raw : Entries} (hasJob : layer.HasJob written.name raw)
    (read : outcome (addJob resolve parse layer.chain layer.path jobPath written raw gathered) =
      .ok result) :
    AddsAccount resolve layer written.name gathered result
      (noted (addJob resolve parse layer.chain layer.path jobPath written raw gathered)) := by
  by_cases child : ∃ includes, Starts raw includes
  · obtain ⟨includes, starts⟩ := child
    rw [addJob_of_starts starts] at read ⊢
    obtain ⟨account, adds, references, problems⟩ := inlineChild_accounts below hasJob starts read
    exact ⟨account, adds, references, problems⟩
  · rw [not_exists] at child
    have others : ∀ again includes, layer.HasJob written.name again → ¬ Starts again includes :=
      fun again includes hasJobToo => hasJob.unique hasJobToo ▸ child includes
    obtain ⟨job, rfl⟩ := addJob_of_childless child read
    exact ⟨[], fun value rest later => .other others, by simp [withJob],
      filter_of_ofJob (ofJob_addJob child)⟩

theorem filter_addJobs_skip {chain : List String} {path name : String}
    {origins : Keyed String String} {defaults : Entries} {all rest : RawJobs} {value : Value}
    (noJob : isHidden name = true ∨ ¬ ∃ entries, value = .map entries) :
    (noted (addJobs resolve parse chain path origins defaults all ((name, value) :: rest)
        gathered)).filter isOfInclude =
      (noted (addJobs resolve parse chain path origins defaults all rest gathered)).filter
        isOfInclude := by
  by_cases hidden : isHidden name = true
  · rw [addJobs, if_pos hidden]
  · rw [addJobs, if_neg hidden]
    cases value with
    | map entries => exact absurd ⟨entries, rfl⟩ (noJob.resolve_left hidden)
    | _ =>
      rw [noted_bind_of_ok (outcome_noted _), List.filter_append,
        filter_of_ofJob (notesOnly_lift (Noted.only_note (ofJob_unknownKey _ _ _))),
        List.nil_append]

theorem addJobs_accounts (below : BelowWithAccount resolve parse layer) {defaults : Entries}
    {jobs : RawJobs} (named : rawJobsOf layer.entries = .ok jobs) (entries : RawJobs)
    (inside : entries ⊆ jobs)
    (read : outcome (addJobs resolve parse layer.chain layer.path
      layer.origins defaults jobs entries
      gathered) = .ok result) :
    ∃ account, JobsAccounted resolve layer entries account ∧
      result.references = gathered.references ++ account.references ∧
      (noted (addJobs resolve parse layer.chain layer.path layer.origins defaults jobs entries
        gathered)).filter isOfInclude = account.problems := by
  induction entries generalizing gathered with
  | nil =>
    obtain rfl := addJobs_nil read
    exact ⟨[], .nil, by simp, rfl⟩
  | cons entry rest ih =>
    obtain ⟨name, value⟩ := entry
    obtain ⟨here, others⟩ := List.cons_subset.mp inside
    -- Only an entry that is a job can trigger; the others are passed over.
    by_cases noJob : isHidden name = true ∨ ¬ ∃ entries, value = .map entries
    · obtain ⟨account, triggered, references, problems⟩ := ih others (addJobs_skip noJob read)
      refine ⟨account, .other (fun raw includes hasJob => ?_) triggered, references, ?_⟩
      · obtain ⟨_, ⟨same, visible, entries, member⟩, -⟩ := hasJob
        obtain rfl := Except.ok.inj (named.symm.trans same)
        have distinct := nodup_rawJobsOf named
        have first := (Keyed.get?_eq_some_iff distinct).mpr member
        have second := (Keyed.get?_eq_some_iff distinct).mpr here
        exact absurd ⟨entries, Option.some.inj (second.symm.trans first)⟩
          (noJob.resolve_left visible)
      · rw [filter_addJobs_skip noJob, problems]
    · rw [not_or, not_not] at noJob
      obtain ⟨visible, own, rfl⟩ := noJob
      obtain ⟨raw, written, kept, reached, extended, wrote, only, added, later⟩ :=
        addJobs_cons_eq_ok visible read
      obtain ⟨rfl, -⟩ := job_identity wrote
      have hasJob : layer.HasJob written.name raw := ⟨jobs, ⟨named, visible, own, here⟩, extended⟩
      obtain ⟨first, adds, ownReferences, ownProblems⟩ := addJob_accounts below hasJob added
      obtain ⟨account, triggered, references, problems⟩ := ih others later
      refine ⟨first ++ account, adds _ _ _ triggered, ?_, ?_⟩
      · rw [references, ownReferences, withSources]
        simp
      · rw [noted_addJobs_cons visible extended wrote only added]
        simp only [List.filter_append, filter_of_ofJob (ofJob_resolveExtends _ _ _),
          filter_of_ofJob (ofJob_job _ _ _ _ _), problems, List.nil_append]
        rw [Account.problems_append]
        exact congrArg (· ++ _) ownProblems

theorem gatherWith_accounts (below : BelowWithAccount resolve parse layer)
    (read : outcome (gatherWith resolve parse layer.chain layer.path layer.origins layer.entries) =
      .ok gathered) :
    GathersWithAccount resolve layer gathered
      (noted (gatherWith resolve parse layer.chain layer.path layer.origins layer.entries)) := by
  unfold gatherWith at read ⊢
  simp only [outcome_bind, bind_eq_ok, outcome_fault, uncaught_eq_ok] at read
  obtain ⟨jobs, named, added⟩ := read
  obtain ⟨account, triggered, references, problems⟩ :=
    addJobs_accounts below named jobs (List.Subset.refl _) added
  refine ⟨jobs, account, named, triggered, by simpa using references, ?_⟩
  rw [noted_bind_of_ok (outcome_fault_of_ok named), noted_fault, List.nil_append, problems]

theorem gather_accounts (levels : Nat) (layer : Layer)
    (enough : maxFiles < levels + layer.chain.length) {gathered : Gathered}
    (read : outcome (gather resolve levels layer.chain layer.path layer.origins layer.entries) =
      .ok gathered) :
    GathersWithAccount resolve layer gathered
      (noted (gather resolve levels layer.chain layer.path layer.origins layer.entries)) := by
  induction levels generalizing layer gathered with
  | zero =>
    refine gatherWith_accounts (fun child triggers => ?_) read
    have short := triggers.length.1
    omega
  | succ levels ih =>
    refine gatherWith_accounts (fun child triggers => ?_) read
    have longer := triggers.length.2
    exact ⟨gather resolve levels, rfl, fun gathered childRead => ih child (by omega) childRead⟩

end Jobs

/-- Every include that is met has one end, and none is lost: a configuration has one account of its
includes, the packages of its pipeline are those of the account, and the problems that are noted for
includes are those of the account, both in its order. -/
theorem every_include_is_accounted {resolve : Resolver} {path : String} {content : List UInt8}
    {pipeline : Pipeline} (read : outcome (normalize resolve path content) = .ok pipeline) :
    outcome (configuration path content) = .ok none ∧ pipeline.includes = [] ∨
      ∃ raw account, outcome (configuration path content) = .ok (some raw) ∧
        IsAccountOf resolve path raw account ∧
        (∀ other, IsAccountOf resolve path raw other → other = account) ∧
        pipeline.includes = account.references ∧
        (noted (normalize resolve path content)).filter isOfInclude = account.problems := by
  obtain ⟨loaded, rfl⟩ | ⟨raw, merged, env, gathered, loaded, included, shared, gathers, rfl⟩ :=
    normalize_eq_ok_iff.mp read
  · exact Or.inl ⟨loaded, rfl⟩
  · obtain ⟨entries, own, accounted, rfl, problems⟩ := merge_accounts [path] included
    obtain ⟨jobs, triggered, named, triggers, references, later⟩ :=
      gather_accounts maxFiles ⟨[path], path, [], withIncluded raw entries⟩
        (Nat.lt_succ_self maxFiles) gathers
    have isAccount : IsAccountOf resolve path raw (own ++ triggered) :=
      ⟨own, entries, jobs, triggered, accounted, named, triggers, rfl⟩
    refine Or.inr ⟨raw, own ++ triggered, loaded, isAccount, fun other alsoAccount =>
      alsoAccount.unique isAccount, ?_, ?_⟩
    · rw [pipelineFrom, references, Account.references_append]
    · have notes := noted_configuration loaded
      simp only [Option.isSome_some, if_true] at notes
      rw [noted_normalize loaded included shared gathers, notes, List.nil_append]
      simp only [List.filter_append, later, filter_of_ofInclude (ofInclude_merge _ _ _),
        filter_triggers, filter_validate, List.append_nil, Account.problems_append]
      exact congrArg (· ++ _) problems

/-- A configuration whose includes come to every end. One of its files includes others, and a job
triggers another one. -/
def mixedIncludes : Document :=
  Document.ofText .gitlab "r.yml"
    ("include: [a.yml, {project: g/p}, {project: /}, {template: t.yml}]\n" ++
      "t:\n trigger:\n  include: [c.yml, a*.yml]\n")

def mixedFiles : Resolver :=
  Document.resolver
    [Document.ofText .gitlab "a.yml" "include: [r.yml, {component: h.io/q/n@1}]\n",
      Document.ofText .gitlab "c.yml" "include: {project: k}\nstages: []\n"] Source.none

theorem mixed_includes_are_accounted :
    ∃ pipeline raw account,
      outcome (normalize mixedFiles mixedIncludes.path mixedIncludes.content) = .ok pipeline ∧
      outcome (configuration mixedIncludes.path mixedIncludes.content) = .ok (some raw) ∧
      IsAccountOf mixedFiles mixedIncludes.path raw account ∧
      pipeline.includes = account.references ∧
      account.references.map (·.name) = ["q/n", "g/p", "k"] ∧
      account.problems.map (·.message) =
        ["include 'r.yml' is recursive or nested too deeply",
          "template include 't.yml' is not part of the repository and was not scanned",
          "wildcard include 'a*.yml' is not supported"] := by
  have packages :
      (outcome (normalize mixedFiles mixedIncludes.path mixedIncludes.content)).toOption.map
        (fun pipeline => pipeline.includes.map (·.name)) = some ["q/n", "g/p", "k"] := by
    decide +kernel
  have messages : ((noted (normalize mixedFiles mixedIncludes.path mixedIncludes.content)).filter
      isOfInclude).map (·.message) =
        ["include 'r.yml' is recursive or nested too deeply",
          "template include 't.yml' is not part of the repository and was not scanned",
          "wildcard include 'a*.yml' is not supported"] := by decide +kernel
  obtain ⟨pipeline, read, names⟩ := toOption_map_eq_some.mp packages
  obtain ⟨-, none⟩ | ⟨raw, account, loaded, isAccount, -, references, problems⟩ :=
    every_include_is_accounted read
  · rw [none] at names
    cases names
  · exact ⟨pipeline, raw, account, read, loaded, isAccount, references, references ▸ names,
      problems ▸ messages⟩

end SupplyLint.Gitlab
