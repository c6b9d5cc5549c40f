import SupplyLint.Proofs.Gitlab.Returns
import SupplyLint.Proofs.Needs.Validate
import SupplyLint.Proofs.Text.Split

/-! # What the problems of a configuration are about

A problem is of an include, of the source of a pipeline, or of a job. Which one it
is can be told from its kind and from how its message begins, and so it is known
which part of a reading a problem comes from. -/
set_option autoImplicit false

namespace SupplyLint.Gitlab

open SupplyLint.Text

/-! ## Three kinds of problems -/

def includeHeads : List String :=
  ["include ", "included file ", "wildcard include ", "remote include ", "template include ",
    "artifact include "]

def sourceHead : String :=
  "unknown pipeline source '"

/-- A problem is of an include, or of a file that was opened for one. -/
def isOfInclude (problem : Problem) : Bool :=
  problem.kind == .unparsable || includeHeads.any (hasPrefix problem.message)

/-- A problem is of a source that pipelines do not have. -/
def isOfSource (problem : Problem) : Bool :=
  hasPrefix problem.message sourceHead

def OfInclude (problem : Problem) : Prop :=
  isOfInclude problem = true ∧ isOfSource problem = false

def OfSource (problem : Problem) : Prop :=
  isOfSource problem = true ∧ isOfInclude problem = false

def OfJob (problem : Problem) : Prop :=
  isOfInclude problem = false ∧ isOfSource problem = false

section Kinds
variable {kind : ProblemKind} {path message location : String}

theorem ofInclude_of_head (head : String) (listed : head ∈ includeHeads)
    (begins : hasPrefix message head = true) : OfInclude ⟨kind, path, message, location⟩ := by
  have apart : ∀ head ∈ includeHeads, Apart head sourceHead := by decide
  refine ⟨?_, (apart head listed).hasPrefix_of_hasPrefix begins⟩
  rw [isOfInclude, Bool.or_eq_true, List.any_eq_true]
  exact Or.inr ⟨head, listed, begins⟩

/-- A message begins like none of those for includes and sources. -/
def OwnHead (message : String) : Prop :=
  ∀ head ∈ sourceHead :: includeHeads, Apart message head

instance (message : String) : Decidable (OwnHead message) :=
  inferInstanceAs (Decidable (∀ head ∈ _, _))

theorem OwnHead.append (own : OwnHead message) (more : String) : OwnHead (message ++ more) :=
  fun head listed => (own head listed).append more

theorem OwnHead.ofJob (own : OwnHead message) (parsed : kind ≠ .unparsable) :
    OfJob ⟨kind, path, message, location⟩ := by
  obtain ⟨source, others⟩ := List.forall_mem_cons.mp own
  refine ⟨?_, source.hasPrefix_eq_false⟩
  rw [isOfInclude, Bool.or_eq_false_iff, beq_eq_false_iff_ne, List.any_eq_false]
  exact ⟨parsed, fun head listed => Bool.eq_false_iff.mp (others head listed).hasPrefix_eq_false⟩

theorem ofSource_of_head (begins : hasPrefix message sourceHead = true)
    (parsed : kind ≠ .unparsable) :
    OfSource ⟨kind, path, message, location⟩ := by
  have apart : ∀ head ∈ includeHeads, Apart sourceHead head := by decide
  refine ⟨begins, ?_⟩
  rw [isOfInclude, Bool.or_eq_false_iff, beq_eq_false_iff_ne, List.any_eq_false]
  refine ⟨parsed, fun head listed => Bool.eq_false_iff.mp ?_⟩
  exact (apart head listed).hasPrefix_of_hasPrefix begins

end Kinds

/-! ## Problems of jobs -/

section Jobs

theorem ofJob_noteExtends (path name base reason ending : String) :
    (noteExtends path name base reason ending).Only OfJob := by
  have quote : OwnHead "'" := by decide
  exact Noted.only_note ((quote.append name |>.append _ |>.append reason |>.append _ |>.append base
    |>.append _ |>.append ending).ofJob (by simp))

theorem ofJob_mergeBases {resolveBase : String → Normalizing Entries}
    (each : ∀ base, NotesOnly OfJob (resolveBase base)) (jobs : RawJobs) (path name : String)
    (way bases : List String) (merged : Entries) :
    NotesOnly OfJob (mergeBases resolveBase jobs path name way bases merged) := by
  induction bases generalizing merged with
  | nil => exact notesOnly_pure _
  | cons base rest ih =>
    unfold mergeBases
    split
    · exact (notesOnly_lift (ofJob_noteExtends _ _ _ _ _)).bind fun _ => ih _
    · split
      · exact (notesOnly_lift (ofJob_noteExtends _ _ _ _ _)).bind fun _ => ih _
      · exact (each base).bind fun _ => ih _

theorem ofJob_resolveWithin (jobs : RawJobs) (path : String) (budget : Nat) (above : List String)
    (name : String) : NotesOnly OfJob (resolveWithin jobs path budget above name) := by
  induction budget generalizing above name with
  | zero => exact notesOnly_pure _
  | succ budget ih =>
    refine (notesOnly_fault _).bind fun bases => ?_
    exact (ofJob_mergeBases (fun base => ih _ base) _ _ _ _ _ _).bind fun merged => notesOnly_pure _

theorem ofJob_resolveExtends (jobs : RawJobs) (path name : String) :
    NotesOnly OfJob (resolveExtends jobs path name) :=
  ofJob_resolveWithin _ _ _ _ _

theorem ofJob_needs (path name : String) (raw : Value) : NotesOnly OfJob (needs path name raw) := by
  have head : OwnHead "'needs' of job '" := by decide
  have all := (head.append name).append "' is not a list"
  unfold needs
  split
  · exact notesOnly_pure _
  · split
    · exact notesOnly_fault _
    · exact (notesOnly_lift (Noted.only_note (all.ofJob (by simp)))).bind fun _ => notesOnly_fault _

theorem ofJob_job (path name : String) (index : Nat) (raw defaults : Entries) :
    NotesOnly OfJob (job path name index raw defaults) := by
  have head : OwnHead "job '" := by decide
  have all := (head.append name).append "' has no script or trigger"
  refine notesOnly_unless (Noted.only_note (all.ofJob (by simp))) ?_
  refine (notesOnly_fault _).bind fun steps => (ofJob_needs _ _ _).bind fun waited => ?_
  exact (notesOnly_fault _).bind fun labels => (notesOnly_fault _).bind fun env => notesOnly_pure _

theorem ofJob_of_ofNeed {path : String} {problem : Problem} (ofNeed : Needs.OfNeed path problem) :
    OfJob problem := by
  cases ofNeed with
  | unknown name need =>
    have head : OwnHead "job '" := by decide
    exact (head.append name |>.append _ |>.append need |>.append "'").ofJob (by simp)
  | cycle name need =>
    have head : OwnHead "dependency cycle: '" := by decide
    exact (head.append name |>.append _ |>.append need |>.append "'").ofJob (by simp)

theorem ofJob_validate (jobs : Jobs) (path : String) : (Needs.validate jobs path).Only OfJob :=
  fun problem member => ofJob_of_ofNeed (Needs.ofNeed_validate jobs path problem member)

theorem ofJob_trigger (path name reason location : String) :
    OfJob ⟨.unknownField, path, "trigger of job '" ++ name ++ "' " ++ reason, location⟩ := by
  have head : OwnHead "trigger of job '" := by decide
  exact (head.append name |>.append _ |>.append reason).ofJob (by simp)

theorem ofJob_addJob {resolve : Resolver} {parse : Option Parsing} {chain : List String}
    {path jobPath : String} {written : Job} {raw : Entries} {gathered : Gathered}
    (childless : ∀ includes, ¬ Starts raw includes) :
    NotesOnly OfJob (addJob resolve parse chain path jobPath written raw gathered) := by
  unfold addJob
  cases found : Keyed.get? raw (.text "trigger") with
  | none => exact notesOnly_pure _
  | some trigger =>
    refine (notesOnly_fault _).bind_of_ok fun downstream starts => ?_
    rw [outcome_fault, uncaught_eq_ok] at starts
    cases downstream with
    | project ref => exact notesOnly_pure _
    | child includes => exact absurd ⟨trigger, found, starts⟩ (childless includes)
    | malformed reason =>
      exact (notesOnly_lift (Noted.only_note (ofJob_trigger _ _ _ _))).bind fun _ =>
        notesOnly_pure _

theorem ofJob_unknownKey (path name location : String) :
    OfJob ⟨.unknownField, path, "unknown top-level key '" ++ name ++ "'", location⟩ := by
  have head : OwnHead "unknown top-level key '" := by decide
  exact ((head.append name).append "'").ofJob (by simp)

end Jobs

/-! ## Problems of includes -/

theorem ofInclude_malformed (path location : String) :
    (malformedInclude path location).Only OfInclude :=
  Noted.only_note (ofInclude_of_head "include " (by decide) (by decide))

theorem ofEntries_eq_elsewhere {entries : Entries} {what : String}
    (read : Include.ofEntries entries = .ok (.elsewhere what)) :
    Include.elsewhereText entries = .ok what := by
  unfold Include.ofEntries at read
  split at read
  · obtain ⟨_, -, other⟩ := map_eq_ok.mp read
    cases other
  · split at read
    · obtain ⟨_, -, other⟩ := bind_eq_ok.mp read
      cases Except.ok.inj other
    · split at read
      · obtain ⟨_, -, other⟩ := map_eq_ok.mp read
        cases other
      · obtain ⟨_, found, same⟩ := map_eq_ok.mp read
        exact Include.elsewhere.inj same ▸ found

theorem exists_head_of_elsewhereText {entries : Entries} {what : String}
    (read : Include.elsewhereText entries = .ok what) :
    ∃ head ∈ includeHeads, hasPrefix what head = true := by
  unfold Include.elsewhereText at read
  cases found : ["remote", "template", "artifact"].find? (Value.hasField entries) with
  | none =>
    rw [found] at read
    obtain ⟨text, -, same⟩ := bind_eq_ok.mp read
    obtain rfl := pure_eq_ok.mp same
    exact ⟨"include ", by decide, hasPrefix_append (by decide) _⟩
  | some kind =>
    rw [found] at read
    obtain ⟨text, -, same⟩ := bind_eq_ok.mp read
    obtain rfl := pure_eq_ok.mp same
    have heads : ∀ kind ∈ ["remote", "template", "artifact"],
        ∃ head ∈ includeHeads, hasPrefix (kind ++ " include '") head = true := by decide
    obtain ⟨head, listed, begins⟩ := heads kind (List.mem_of_find?_eq_some found)
    exact ⟨head, listed, hasPrefix_append (hasPrefix_append begins _) _⟩

theorem exists_head_of_elsewhere {item : Value} {what : String}
    (read : Include.ofValue item = .ok (.elsewhere what)) :
    ∃ head ∈ includeHeads, hasPrefix what head = true := by
  cases item with
  | text target =>
    simp only [Include.ofValue] at read
    split at read
    · obtain rfl := Include.elsewhere.inj (Except.ok.inj read)
      exact ⟨"remote include ", by decide, hasPrefix_append (hasPrefix_append (by decide) _) _⟩
    · cases Except.ok.inj read
  | map entries => exact exists_head_of_elsewhereText (ofEntries_eq_elsewhere read)
  | _ => cases Except.ok.inj read

theorem ofInclude_elsewhere {item : Value} {what : String}
    (read : Include.ofValue item = .ok (.elsewhere what)) (path location : String) :
    (elsewhereInclude path location what).Only OfInclude := by
  obtain ⟨head, listed, begins⟩ := exists_head_of_elsewhere read
  exact Noted.only_note (ofInclude_of_head head listed (hasPrefix_append begins _))

/-- What is noted of a configuration that is not loaded. -/
def Unparsable (problem : Problem) : Prop :=
  problem.kind = .unparsable ∧ isOfSource problem = false

theorem unparsable_configuration (path : String) (content : List UInt8) :
    NotesOnly Unparsable (configuration path content) := by
  have unparsable {message : String} (own : Apart message sourceHead) :
      Unparsable ⟨.unparsable, path, message, ""⟩ := ⟨rfl, own.hasPrefix_eq_false⟩
  have detail : Apart "invalid YAML: " sourceHead := by decide
  have documents : NotesOnly Unparsable (Source.documents path content) := by
    unfold Source.documents
    split
    · exact notesOnly_pure _
    · refine (notesOnly_lift (Noted.only_note (unparsable (detail.append _)))).bind fun _ => ?_
      exact notesOnly_pure _
    · exact notesOnly_failure (.error _)
  refine documents.bind fun found => ?_
  cases found with
  | none => exact notesOnly_pure _
  | some values =>
    refine notesOnly_lift ?_
    unfold Source.mapping
    split
    · exact Noted.only_pure _
    · exact (Noted.only_note (unparsable (by decide))).bind (Noted.only_pure _)

theorem ofInclude_configuration (path : String) (content : List UInt8) :
    NotesOnly OfInclude (configuration path content) :=
  (unparsable_configuration path content).mono fun _ ⟨unparsable, own⟩ =>
    ⟨by rw [isOfInclude, unparsable]; rfl, own⟩

section Lists
variable {enter : String → Normalizing (Option Merged)} {path location : String}

theorem ofInclude_mergeList (each : ∀ written, NotesOnly OfInclude (enter written))
    (items : List Value) (merged : Merged) :
    NotesOnly OfInclude (mergeList enter path items merged) := by
  induction items generalizing merged with
  | nil => exact notesOnly_pure _
  | cons item rest ih =>
    unfold mergeList
    refine (notesOnly_fault _).bind_of_ok fun what read => ?_
    rw [outcome_fault, uncaught_eq_ok] at read
    cases what with
    | file written =>
      refine (each written).bind fun file => ?_
      cases file with
      | none => exact ih _
      | some file => exact ih _
    | package ref => exact ih _
    | elsewhere what => exact (notesOnly_lift (ofInclude_elsewhere read _ _)).bind fun _ => ih _
    | malformed => exact (notesOnly_lift (ofInclude_malformed _ _)).bind fun _ => ih _

theorem ofInclude_childFiles (each : ∀ written, NotesOnly OfInclude (enter written))
    (items : List Value) (files : ChildFiles) :
    NotesOnly OfInclude (childFiles enter path location items files) := by
  induction items generalizing files with
  | nil => exact notesOnly_pure _
  | cons item rest ih =>
    unfold childFiles
    refine (notesOnly_fault _).bind_of_ok fun what read => ?_
    rw [outcome_fault, uncaught_eq_ok] at read
    cases what with
    | file written =>
      refine (each _).bind fun file => ?_
      cases file with
      | none => exact ih _
      | some file => exact (notesOnly_fault _).bind fun more => ih _
    | package ref => exact ih _
    | elsewhere what => exact (notesOnly_lift (ofInclude_elsewhere read _ _)).bind fun _ => ih _
    | malformed => exact (notesOnly_lift (ofInclude_malformed _ _)).bind fun _ => ih _

theorem ofInclude_mergeWith (each : ∀ written, NotesOnly OfInclude (enter written))
    (raw : Entries) : NotesOnly OfInclude (mergeWith enter path raw) := by
  unfold mergeWith
  split
  · exact notesOnly_pure _
  · exact (ofInclude_mergeList each _ _).bind fun merged => notesOnly_pure _

end Lists

section Files
variable {resolve : Resolver} {path : String}

theorem ofInclude_enterWith {merging : Option Merging}
    (each : ∀ merge, merging = some merge → ∀ chain raw, NotesOnly OfInclude (merge chain raw))
    (chain : List String) (written : String) :
    NotesOnly OfInclude (enterWith resolve path merging chain written) := by
  have passedOver (head : String) {message : String} (listed : head ∈ includeHeads)
      (begins : hasPrefix message head = true) :
      NotesOnly OfInclude (do
        noteInclude path "include" message
        return none : Normalizing (Option Merged)) :=
    (notesOnly_lift (Noted.only_note (ofInclude_of_head head listed begins))).bind
      fun _ => notesOnly_pure _
  have begins {lit head : String} (start : hasPrefix lit head = true) (target ending : String) :
      hasPrefix (lit ++ target ++ ending) head = true :=
    hasPrefix_append (hasPrefix_append start _) _
  unfold enterWith
  dsimp only
  split
  · exact passedOver "wildcard include " (by decide) (begins (by decide) _ _)
  · split
    · next merge _ =>
      refine (notesOnly_failure _).bind fun found => ?_
      cases found with
      | none =>
        exact passedOver "included file " (by decide) (begins (by decide) _ _)
      | some content =>
        refine (ofInclude_configuration _ _).bind fun raw => ?_
        cases raw with
        | none => exact notesOnly_pure _
        | some raw => exact (each merge rfl _ _).map _
    · exact passedOver "include " (by decide) (begins (by decide) _ _)

theorem ofInclude_merge (room : Nat) (chain : List String) (raw : Entries) :
    NotesOnly OfInclude (merge resolve path room chain raw) := by
  induction room generalizing chain raw with
  | zero => exact ofInclude_mergeWith (ofInclude_enterWith (by simp) chain) raw
  | succ room ih =>
    refine ofInclude_mergeWith (ofInclude_enterWith ?_ chain) raw
    rintro merge ⟨⟩
    exact ih

theorem ofInclude_enter (chain : List String) (written : String) :
    NotesOnly OfInclude (enter resolve path chain written) := by
  unfold enter
  split
  · exact ofInclude_enterWith (by simp) chain written
  · refine ofInclude_enterWith ?_ chain written
    rintro merge ⟨⟩
    exact ofInclude_merge _

end Files

/-! ## Sources are noted once all jobs are read -/

section Sources
variable {resolve : Resolver} {parse : Option Parsing}

def NotOfSource (problem : Problem) : Prop :=
  isOfSource problem = false

def NotesNoSource (parse : Parsing) : Prop :=
  ∀ chain path origins raw, NotesOnly NotOfSource (parse chain path origins raw)

theorem notOfSource_of_ofInclude {α : Type} {reading : Normalizing α}
    (notes : NotesOnly OfInclude reading) :
    NotesOnly NotOfSource reading :=
  notes.mono fun _ ofInclude => ofInclude.2

theorem notOfSource_of_ofJob {α : Type} {reading : Normalizing α}
    (notes : NotesOnly OfJob reading) :
    NotesOnly NotOfSource reading :=
  notes.mono fun _ ofJob => ofJob.2

theorem notOfSource_inlineChild (below : ∀ read, parse = some read → NotesNoSource read)
    (chain : List String) (path caller : String) (includes : Value) (gathered : Gathered) :
    NotesOnly NotOfSource (inlineChild resolve parse chain path caller includes gathered) := by
  refine (notOfSource_of_ofInclude (ofInclude_childFiles (ofInclude_enter chain) _ _)).bind
    fun files => ?_
  dsimp only
  split
  · next read key first rest _ =>
    refine (notesOnly_fault _).bind fun shared => (below read rfl _ _ _ _).bind fun child => ?_
    exact (notOfSource_of_ofJob (notesOnly_lift (ofJob_validate _ _))).bind fun jobs =>
      notesOnly_pure _
  · exact notesOnly_pure _

theorem notOfSource_addJob (below : ∀ read, parse = some read → NotesNoSource read)
    (chain : List String) (path jobPath : String) (written : Job) (raw : Entries)
    (gathered : Gathered) :
    NotesOnly NotOfSource (addJob resolve parse chain path jobPath written raw gathered) := by
  unfold addJob
  dsimp only
  split
  · exact notesOnly_pure _
  · refine (notesOnly_fault _).bind fun downstream => ?_
    cases downstream with
    | project ref => exact notesOnly_pure _
    | child includes => exact notOfSource_inlineChild below _ _ _ _ _
    | malformed reason =>
      exact (notesOnly_lift (Noted.only_note (ofJob_trigger _ _ _ _).2)).bind
        fun _ => notesOnly_pure _

theorem notOfSource_addJobs (below : ∀ read, parse = some read → NotesNoSource read)
    (chain : List String) (path : String) (origins : Keyed String String) (defaults : Entries)
    (all entries : RawJobs) (gathered : Gathered) :
    NotesOnly NotOfSource
      (addJobs resolve parse chain path origins defaults all entries gathered) := by
  induction entries generalizing gathered with
  | nil => exact notesOnly_pure _
  | cons entry rest ih =>
    obtain ⟨name, value⟩ := entry
    unfold addJobs
    split
    · exact ih _
    · cases value with
      | map entries =>
        refine (notOfSource_of_ofJob (ofJob_resolveExtends _ _ _)).bind fun raw => ?_
        refine (notOfSource_of_ofJob (ofJob_job _ _ _ _ _)).bind fun written => ?_
        refine (notesOnly_fault _).bind fun kept => ?_
        exact (notOfSource_addJob below _ _ _ _ _ _).bind fun reached => ih _
      | _ =>
        exact (notesOnly_lift (Noted.only_note (ofJob_unknownKey _ _ _).2)).bind fun _ => ih _

theorem notOfSource_gather (levels : Nat) : NotesNoSource (gather resolve levels) := by
  have step {parse : Option Parsing} (below : ∀ read, parse = some read → NotesNoSource read) :
      NotesNoSource (gatherWith resolve parse) :=
    fun chain path origins raw => (notesOnly_fault _).bind
      fun jobs => notOfSource_addJobs below _ _ _ _ _ _ _
  induction levels with
  | zero => exact step (by simp)
  | succ levels ih =>
    refine step ?_
    rintro read ⟨⟩
    exact ih

end Sources

def unknownSource (path source : String) : Problem :=
  ⟨.unknownField, path, "unknown pipeline source '" ++ source ++ "'", "rules"⟩

theorem ofSource_unknownSource (path source : String) : OfSource (unknownSource path source) := by
  have begins : hasPrefix "unknown pipeline source '" sourceHead = true := by decide
  exact ofSource_of_head (hasPrefix_append (hasPrefix_append begins _) _) (by simp)

/-- The sources that start a pipeline: those that are named, or pushes if there is none. -/
def startSources (named : List String) : List String :=
  if (firsts named).isEmpty then ["push"] else firsts named

theorem triggers_value (path : String) (named : List String) :
    (triggers path named).value = (startSources named).map fun source => { event := source } := rfl

theorem problems_unknownSources (path : String) (sources : List String) :
    (sources.forM fun source =>
      if events.contains source then pure ()
      else Noted.note .unknownField path ("unknown pipeline source '" ++ source ++ "'") "rules" :
        Noted Unit).problems =
      (sources.filter fun source => !events.contains source).map (unknownSource path) := by
  induction sources with
  | nil => rfl
  | cons source rest ih =>
    rw [List.forM, Noted.problems_bind, ih, List.filter_cons]
    cases events.contains source <;> rfl

theorem triggers_problems (path : String) (named : List String) :
    (triggers path named).problems =
      ((startSources named).filter fun source => !events.contains source).map
        (unknownSource path) := by
  rw [← problems_unknownSources]
  exact List.append_nil _

theorem ofSource_triggers (path : String) (named : List String) :
    (triggers path named).Only OfSource := by
  intro problem member
  rw [triggers_problems] at member
  obtain ⟨source, -, rfl⟩ := List.mem_map.mp member
  exact ofSource_unknownSource path source

theorem noted_addJobs_cons {resolve : Resolver} {parse : Option Parsing} {chain : List String}
    {path name : String} {origins : Keyed String String} {defaults entries raw : Entries}
    {all rest : RawJobs} {written : Job} {kept : List String} {gathered reached : Gathered}
    (visible : ¬ isHidden name = true)
    (extended : outcome (resolveExtends all ((origins.get? name).getD path) name) = .ok raw)
    (wrote : outcome (job ((origins.get? name).getD path) name gathered.jobs.length raw defaults) =
      .ok written)
    (only : onlySources (Value.field raw "only") = .ok kept)
    (added : outcome (addJob resolve parse chain path ((origins.get? name).getD path) written raw
      (withSources raw kept gathered)) = .ok reached) :
    noted (addJobs resolve parse chain path origins defaults all ((name, .map entries) :: rest)
        gathered) =
      noted (resolveExtends all ((origins.get? name).getD path) name) ++
        (noted (job ((origins.get? name).getD path) name gathered.jobs.length raw defaults) ++
          (noted (addJob resolve parse chain path ((origins.get? name).getD path) written raw
              (withSources raw kept gathered)) ++
            noted (addJobs resolve parse chain path origins defaults all rest reached))) := by
  rw [addJobs, if_neg visible]
  dsimp only
  rw [noted_bind_of_ok extended, noted_bind_of_ok wrote,
    noted_bind_of_ok (outcome_fault_of_ok only), noted_fault, List.nil_append]
  refine congrArg₂ (· ++ ·) rfl (congrArg₂ (· ++ ·) rfl ?_)
  exact noted_bind_of_ok added

theorem noted_normalize {resolve : Resolver} {path : String} {content : List UInt8} {raw : Entries}
    {merged : Merged} {env : Keyed String Value} {gathered : Gathered}
    (loaded : outcome (configuration path content) = .ok (some raw))
    (included : outcome (merge resolve path (maxFiles - 1) [path] raw) = .ok merged)
    (shared : variablesOf (Value.field merged.entries "variables") = .ok env)
    (gathers : outcome (gather resolve maxFiles [path] path [] merged.entries) = .ok gathered) :
    noted (normalize resolve path content) =
      noted (configuration path content) ++ (noted (merge resolve path (maxFiles - 1) [path] raw) ++
        (noted (gather resolve maxFiles [path] path [] merged.entries) ++
          ((triggers path gathered.sources).problems ++
            (Needs.validate gathered.jobs path).problems))) := by
  unfold normalize
  rw [noted_bind_of_ok loaded]
  dsimp only
  rw [noted_bind_of_ok included, noted_bind_of_ok (outcome_fault_of_ok shared),
    noted_bind_of_ok gathers, noted_bind_of_ok (outcome_noted _),
    noted_bind_of_ok (outcome_noted _)]
  simp

end SupplyLint.Gitlab
