import SupplyLint.Proofs.Gitlab.Chains
import SupplyLint.Proofs.Gitlab.Origins
import SupplyLint.Proofs.Gitlab.Problems

/-! # Includes that are refused

A file is refused when it is in the chain of files through which it is reached, or
when the chain is as long as a chain may be. `quiet_normalize`: a reading that gives a
pipeline notes no refusal exactly when no file that is reached includes one that cannot
be opened from there. -/
set_option autoImplicit false

namespace SupplyLint.Gitlab

open SupplyLint.Text

def refusal (target : String) : String :=
  "include '" ++ target ++ "' is recursive or nested too deeply"

def IsRefusal (problem : Problem) : Prop :=
  problem.kind = .unresolved ∧ ∃ target, problem.message = refusal target

/-- A reading notes that an include is refused. -/
def Refuses {α : Type} (reading : Normalizing α) : Prop :=
  ∃ problem ∈ noted reading, IsRefusal problem

/-- A reading notes no refusal. -/
def Quiet {α : Type} (reading : Normalizing α) : Prop :=
  ∀ problem ∈ noted reading, ¬ IsRefusal problem

/-- No problem is a refusal. -/
def Accepts {α : Type} (noted : Noted α) : Prop :=
  ∀ problem ∈ noted.problems, ¬ IsRefusal problem

/-! ## Messages -/

theorem refusal_head (target : String) : hasPrefix (refusal target) "include " = true := by
  have head : hasPrefix "include '" "include " = true := by decide
  exact hasPrefix_append (hasPrefix_append head target) _

theorem refusal_last (target : String) : (refusal target).toList.getLast? = some 'y' := by
  simp only [refusal, String.toList_append, List.getLast?_append]
  rfl

theorem ofInclude_of_isRefusal {problem : Problem} (refused : IsRefusal problem) :
    OfInclude problem := by
  obtain ⟨-, target, message⟩ := refused
  refine ofInclude_of_head "include " (by decide) ?_
  rw [message]
  exact refusal_head target

section Messages
variable {kind : ProblemKind} {path message location : String}

theorem accepts_note_of_kind (other : kind ≠ .unresolved) :
    Accepts (Noted.note kind path message location) :=
  Noted.only_note fun refused => other refused.1

theorem accepts_note_of_message (other : ∀ target, message ≠ refusal target) :
    Accepts (Noted.note kind path message location) :=
  Noted.only_note fun ⟨_, target, same⟩ => other target same

theorem ne_refusal_of_apart (other : Apart message "include ") (target : String) :
    message ≠ refusal target := by
  rintro rfl
  exact Bool.eq_false_iff.mp other.hasPrefix_eq_false (refusal_head target)

theorem ne_refusal_of_last (other : message.toList.getLast? ≠ some 'y') (target : String) :
    message ≠ refusal target := by
  rintro rfl
  exact other (refusal_last target)

end Messages

/-! ## Steps -/

section Steps
variable {α β : Type}

variable {reading : Normalizing α} {next : α → Normalizing β} {a : α}

theorem quiet_iff : Quiet reading ↔ ¬ Refuses reading := by
  simp [Quiet, Refuses]

theorem refuses_bind (found : outcome reading = .ok a) :
    Refuses (reading >>= next) ↔ Refuses reading ∨ Refuses (next a) := by
  unfold Refuses
  rw [noted_bind_of_ok found]
  simp only [List.mem_append, or_and_right, exists_or]

theorem Quiet.refuses_bind (quiet : Quiet reading) (found : outcome reading = .ok a) :
    Refuses (reading >>= next) ↔ Refuses (next a) := by
  rw [Gitlab.refuses_bind found, or_iff_right (quiet_iff.mp quiet)]

theorem Quiet.bind (quiet : Quiet reading) (later : ∀ a, Quiet (next a)) :
    Quiet (reading >>= next) :=
  NotesOnly.bind quiet later

@[simp] theorem refuses_map (f : α → β) (reading : Normalizing α) :
    Refuses (f <$> reading) ↔ Refuses reading := by
  rw [Refuses, noted_map, Refuses]

theorem quiet_pure (a : α) : Quiet (pure a : Normalizing α) :=
  notesOnly_pure a

theorem quiet_fault (x : Except Fault α) : Quiet (liftM x : Normalizing α) :=
  notesOnly_fault x

theorem quiet_failure (x : Except Failure α) : Quiet (liftM x : Normalizing α) :=
  notesOnly_failure x

theorem quiet_noted {found : Noted α} (accepts : Accepts found) :
    Quiet (liftM found : Normalizing α) :=
  notesOnly_lift accepts

end Steps

theorem quiet_of_ofJob {α : Type} {reading : Normalizing α} (notes : NotesOnly OfJob reading) :
    Quiet reading :=
  notes.mono fun _ ofJob refused =>
    Bool.eq_false_iff.mp ofJob.1 (ofInclude_of_isRefusal refused).1

theorem accepts_triggers (path : String) (sources : List String) :
    Accepts (triggers path sources) :=
  (ofSource_triggers path sources).mono fun _ ofSource refused =>
    Bool.eq_false_iff.mp ofSource.2 (ofInclude_of_isRefusal refused).1

theorem accepts_validate (jobs : Jobs) (path : String) : Accepts (Needs.validate jobs path) :=
  (ofJob_validate jobs path).mono fun _ ofJob refused =>
    Bool.eq_false_iff.mp ofJob.1 (ofInclude_of_isRefusal refused).1

theorem quiet_configuration (path : String) (content : List UInt8) :
    Quiet (configuration path content) := by
  refine (unparsable_configuration path content).mono fun problem unparsable refused => ?_
  cases unparsable.1.symm.trans refused.1

/-! ## Lists of includes -/

/-- One of the includes of a list is refused when its file is opened. -/
def ListRefuses (enter : String → Normalizing (Option Merged)) (items : List Value) : Prop :=
  ∃ item ∈ items, ∃ written, Include.ofValue item = .ok (.file written) ∧ Refuses (enter written)

theorem accepts_elsewhereInclude (path location what : String) :
    Accepts (elsewhereInclude path location what) := by
  refine accepts_note_of_message (ne_refusal_of_last ?_)
  simp only [String.toList_append, List.getLast?_append]
  simp

theorem accepts_malformedInclude (path location : String) :
    Accepts (malformedInclude path location) :=
  accepts_note_of_kind (by simp)

section Lists
variable {enter : String → Normalizing (Option Merged)} {item : Value} {rest : List Value}

theorem listRefuses_nil : ¬ ListRefuses enter [] := by
  rintro ⟨item, member, -⟩
  exact List.not_mem_nil member

theorem listRefuses_cons_of_file {written : String}
    (names : Include.ofValue item = .ok (.file written)) :
    ListRefuses enter (item :: rest) ↔ Refuses (enter written) ∨ ListRefuses enter rest := by
  simp [ListRefuses, names]

theorem listRefuses_cons_of_other (other : ∀ written, Include.ofValue item ≠ .ok (.file written)) :
    ListRefuses enter (item :: rest) ↔ ListRefuses enter rest := by
  simp [ListRefuses, other]

theorem refuses_mergeList {path : String} (items : List Value)
    (reads : ∀ item ∈ items, ItemReads enter item) (merged : Merged) :
    Refuses (mergeList enter path items merged) ↔ ListRefuses enter items := by
  induction items generalizing merged with
  | nil => exact iff_of_false (quiet_iff.mp (quiet_pure _)) listRefuses_nil
  | cons item rest ih =>
    rw [List.forall_mem_cons] at reads
    obtain ⟨⟨values, enters⟩, others⟩ := reads
    obtain ⟨what, found⟩ := (returns_ofValue item).mpr values
    unfold mergeList
    rw [(quiet_fault _).refuses_bind (outcome_fault_of_ok found)]
    cases what with
    | file written =>
      obtain ⟨file, opens⟩ := enters written found
      rw [refuses_bind opens, listRefuses_cons_of_file found]
      cases file <;> rw [ih others]
    | package ref => rw [listRefuses_cons_of_other (by simp [found]), ih others]
    | elsewhere what =>
      rw [listRefuses_cons_of_other (by simp [found]),
        (quiet_noted (accepts_elsewhereInclude _ _ _)).refuses_bind (outcome_noted _), ih others]
    | malformed =>
      rw [listRefuses_cons_of_other (by simp [found]),
        (quiet_noted (accepts_malformedInclude _ _)).refuses_bind (outcome_noted _), ih others]

theorem refuses_mergeWith {path : String} {raw : Entries}
    (reads : ∀ item ∈ includeItems raw, ItemReads enter item) :
    Refuses (mergeWith enter path raw) ↔ ListRefuses enter (includeItems raw) := by
  have listed (field : Value) (reads : ∀ item ∈ field.asList, ItemReads enter item) :
      Refuses (do
        let merged ← mergeList enter path field.asList ⟨[], []⟩
        let body := Keyed.erase raw (.text "include")
        return { merged with entries := Field.merge merged.entries body }) ↔
          ListRefuses enter field.asList := by
    obtain ⟨merged, found⟩ := (returns_mergeList enter path _ ⟨[], []⟩).mpr reads
    rw [refuses_bind found, or_iff_left (quiet_iff.mp (quiet_pure _)), refuses_mergeList _ reads]
  unfold includeItems at reads ⊢
  unfold mergeWith
  revert reads
  cases Value.field raw "include" with
  | null => exact fun _ => iff_of_false (quiet_iff.mp (quiet_pure _)) listRefuses_nil
  | _ => exact listed _

theorem refuses_childFiles {path location : String} (items : List Value) (files : ChildFiles)
    (returned : Returns (outcome (childFiles enter path location items files))) :
    Refuses (childFiles enter path location items files) ↔
      ListRefuses (fun written => enter (stripped written)) items := by
  induction items generalizing files with
  | nil => exact iff_of_false (quiet_iff.mp (quiet_pure _)) listRefuses_nil
  | cons item rest ih =>
    have reads := (returns_childFiles enter path location _ files).mp returned
    rw [List.forall_mem_cons] at reads
    obtain ⟨⟨values, enters⟩, others⟩ := reads
    have later (files : ChildFiles) := ih files ((returns_childFiles ..).mpr others)
    obtain ⟨what, found⟩ := (returns_ofValue item).mpr values
    unfold childFiles
    rw [(quiet_fault _).refuses_bind (outcome_fault_of_ok found)]
    cases what with
    | file written =>
      obtain ⟨⟨file, opens⟩, keyed⟩ := enters written found
      rw [listRefuses_cons_of_file found]
      refine (refuses_bind opens).trans (or_congr Iff.rfl ?_)
      cases file with
      | none => exact later files
      | some file =>
        obtain ⟨more, added⟩ := (returns_add files (stripped written) file).mpr (keyed file opens)
        exact ((quiet_fault _).refuses_bind (outcome_fault_of_ok added)).trans (later more)
    | package ref => rw [listRefuses_cons_of_other (by simp [found]), later]
    | elsewhere what =>
      rw [listRefuses_cons_of_other (by simp [found]),
        (quiet_noted (accepts_elsewhereInclude _ _ _)).refuses_bind (outcome_noted _), later]
    | malformed =>
      rw [listRefuses_cons_of_other (by simp [found]),
        (quiet_noted (accepts_malformedInclude _ _)).refuses_bind (outcome_noted _), later]

end Lists

/-! ## Files -/

section Files
variable {resolve : Resolver} {path : String}

theorem noneRefused_iff {file : File} :
    NoneRefused resolve file ↔
      (∀ target, Includes file.entries target → Tries Includes file target) ∧
        ∀ next, Opens Includes (opened resolve) file next → NoneRefused resolve next :=
  forall_reached_iff

theorem quiet_enterWith_of_wildcard {merging : Option Merging} {chain : List String}
    {written : String} (wildcard : contains (stripped written) "*" = true) :
    Quiet (enterWith resolve path merging chain written) := by
  have head : Apart "wildcard include '" "include " := by decide
  rw [enterWith_of_wildcard resolve path wildcard]
  exact (quiet_noted (accepts_note_of_message (ne_refusal_of_apart
    ((head.append _).append _)))).bind fun _ => quiet_pure _

theorem refuses_enterWith_of_refused {merging : Option Merging} {chain : List String}
    {written : String} (plain : ¬ contains (stripped written) "*" = true)
    (refused : stripped written ∈ chain ∨ merging = none) :
    Refuses (enterWith resolve path merging chain written) := by
  rw [enterWith_of_refused resolve path plain refused]
  exact ⟨_, List.mem_singleton_self _, rfl, _, rfl⟩

theorem refuses_enterWith_of_opened {merge : Merging} {chain : List String} {written : String}
    (plain : ¬ contains (stripped written) "*" = true) (outside : stripped written ∉ chain)
    (loads : FileLoads resolve (stripped written)) :
    Refuses (enterWith resolve path (some merge) chain written) ↔
      ∃ raw, opened resolve (stripped written) = .ok (some raw) ∧
        Refuses (merge (chain ++ [stripped written]) raw) := by
  obtain ⟨found, resolved, loads⟩ := loads
  have same : opened resolve (stripped written) = found.elim (.ok none) fun content =>
      outcome (configuration (stripped written) content) := by
    rw [opened, resolved]
    cases found <;> rfl
  have head : Apart "included file '" "include " := by decide
  rw [same, enterWith_of_some resolve path plain outside,
    (quiet_failure _).refuses_bind (by rw [outcome_failure, resolved])]
  cases found with
  | none =>
    refine iff_of_false (quiet_iff.mp ?_) (by simp)
    exact (quiet_noted (accepts_note_of_message (ne_refusal_of_apart
      ((head.append _).append _)))).bind fun _ => quiet_pure _
  | some content =>
    obtain ⟨raw, configured⟩ := (returns_configuration _ content).mpr (loads content rfl)
    rw [(quiet_configuration _ _).refuses_bind configured, Option.elim_some, configured]
    cases raw with
    | none => exact iff_of_false (quiet_iff.mp (quiet_pure _)) (by simp)
    | some raw => simp

theorem refuses_enterWith {room : Nat} {chain : List String} {written : String}
    (returned : Returns (outcome
      (enterWith resolve path (mergingWithin resolve path room) chain written))) :
    Refuses (enterWith resolve path (mergingWithin resolve path room) chain written) ↔
      ¬ contains (stripped written) "*" = true ∧
        (stripped written ∈ chain ∨ room = 0 ∨
          ∃ raw, opened resolve (stripped written) = .ok (some raw) ∧
            Refuses (merge resolve path (room - 1) (chain ++ [stripped written]) raw)) := by
  by_cases wildcard : contains (stripped written) "*" = true
  · exact iff_of_false (quiet_iff.mp (quiet_enterWith_of_wildcard wildcard))
      fun both => both.1 wildcard
  · rw [and_iff_right wildcard]
    by_cases inside : stripped written ∈ chain
    · exact iff_of_true (refuses_enterWith_of_refused wildcard (Or.inl inside)) (Or.inl inside)
    · rw [or_iff_right inside]
      cases room with
      | zero => exact iff_of_true (refuses_enterWith_of_refused wildcard (Or.inr rfl)) (Or.inl rfl)
      | succ room =>
        have reads := (returns_enterWith resolve path _ _ _).mp returned wildcard inside
          (Nat.zero_lt_succ room)
        rw [or_iff_right (Nat.succ_ne_zero room)]
        exact refuses_enterWith_of_opened wildcard inside reads.1

abbrev entering (resolve : Resolver) (path : String) (file : File) :
    String → Normalizing (Option Merged) :=
  enterWith resolve path (mergingWithin resolve path (maxFiles - file.chain.length)) file.chain

/-- A file is refused for an include, or an include is that of a file that is opened, with a
refusal. -/
theorem listRefuses_step {file : File}
    (reads : ∀ item ∈ includeItems file.entries, ItemReads (entering resolve path file) item)
    (below : ∀ next, Opens Includes (opened resolve) file next →
      (Refuses (merge resolve path (maxFiles - next.chain.length) next.chain next.entries) ↔
        ¬ NoneRefused resolve next)) :
    ListRefuses (entering resolve path file) (includeItems file.entries) ↔
      ¬ NoneRefused resolve file := by
  -- An include that is taken up leaves one level less, as the chain is one file longer.
  have next (target : String) (raw : Entries) (tries : Tries Includes file target)
      (opens : opened resolve target = .ok (some raw)) :
      Refuses (merge resolve path (maxFiles - file.chain.length - 1) (file.chain ++ [target]) raw) ↔
        ¬ NoneRefused resolve ⟨file.chain ++ [target], raw⟩ := by
    have reached := below ⟨file.chain ++ [target], raw⟩ ⟨target, tries, opens, rfl⟩
    rwa [List.length_append, List.length_singleton, Nat.sub_add_eq] at reached
  rw [noneRefused_iff]
  constructor
  · rintro ⟨item, member, written, names, refuses⟩ ⟨tries, unrefused⟩
    obtain ⟨plain, cases⟩ := (refuses_enterWith ((reads item member).2 written names)).mp refuses
    have tried := tries _ ⟨item, member, written, names, rfl, plain⟩
    rcases cases with inside | full | ⟨raw, opens, refuses⟩
    · exact tried.2.1 inside
    · exact absurd tried.2.2 (by omega)
    · exact (next _ raw tried opens).mp refuses (unrefused _ ⟨_, tried, opens, rfl⟩)
  · intro refused
    by_contra none
    have accepted (item : Value) (member : item ∈ includeItems file.entries) (written : String)
        (names : Include.ofValue item = .ok (.file written)) :=
      fun holds => none ⟨item, member, written, names,
        (refuses_enterWith ((reads item member).2 written names)).mpr holds⟩
    refine refused ⟨?_, ?_⟩
    · rintro target ⟨item, member, written, names, rfl, plain⟩
      have fits := accepted item member written names
      refine ⟨⟨item, member, written, names, rfl, plain⟩, fun inside => ?_, ?_⟩
      · exact fits ⟨plain, Or.inl inside⟩
      · exact Nat.lt_of_sub_ne_zero fun full => fits ⟨plain, Or.inr (Or.inl full)⟩
    · rintro ⟨chain, raw⟩ ⟨target, tries, opens, rfl⟩
      obtain ⟨item, member, written, names, rfl, plain⟩ := tries.1
      by_contra refuses
      exact accepted item member written names
        ⟨plain, Or.inr (Or.inr ⟨raw, opens, (next _ raw tries opens).mpr refuses⟩)⟩

theorem listRefuses_iff {file : File}
    (reads : ∀ item ∈ includeItems file.entries, ItemReads (entering resolve path file) item) :
    ListRefuses (entering resolve path file) (includeItems file.entries) ↔
      ¬ NoneRefused resolve file := by
  induction room : maxFiles - file.chain.length generalizing file with
  | zero =>
    refine listRefuses_step reads ?_
    rintro next ⟨target, tries, -⟩
    exact absurd tries.2.2 (by omega)
  | succ fewer ih =>
    refine listRefuses_step reads ?_
    rintro ⟨chain, raw⟩ ⟨target, tries, opens, rfl⟩
    obtain ⟨⟨item, member, written, names, rfl, plain⟩, outside, short⟩ := tries
    have returned :=
        ((returns_enterWith resolve path _ _ _).mp ((reads item member).2 written names)
      plain outside (by omega)).2 raw opens
    have shorter : maxFiles - (file.chain ++ [stripped written]).length = fewer := by
      rw [List.length_append, List.length_singleton]
      omega
    rw [room, Nat.add_sub_cancel, ← shorter, merge_eq, returns_mergeWith] at returned
    rw [merge_eq, refuses_mergeWith returned]
    exact @ih ⟨file.chain ++ [stripped written], raw⟩ returned shorter

theorem refuses_merge {file : File} (returned : Returns (outcome
      (merge resolve path (maxFiles - file.chain.length) file.chain file.entries))) :
    Refuses (merge resolve path (maxFiles - file.chain.length) file.chain file.entries) ↔
      ¬ NoneRefused resolve file := by
  rw [merge_eq, returns_mergeWith] at returned
  rw [merge_eq, refuses_mergeWith returned]
  exact listRefuses_iff returned

/-- The files that a trigger includes, as a file that includes them. -/
abbrev triggerFile (chain : List String) (includes : Value) : File :=
  ⟨chain, [(.text "include", includes)]⟩

theorem includeItems_trigger (chain : List String) (includes : Value) :
    includeItems (triggerFile chain includes).entries =
      match includes with
      | .null => []
      | field => field.asList := rfl

/-- The files of a child pipeline are opened with a refusal exactly when a file is refused among
them or further on. -/
theorem refuses_openedFiles {chain : List String} {caller : String} {includes : Value}
    (returned : Returns (openedFiles resolve chain path caller includes)) :
    Refuses (childFiles (enter resolve path chain) path (caller ++ ".trigger.include")
        includes.asList {}) ↔ ¬ NoneRefused resolve (triggerFile chain includes) := by
  have entered : (fun written => enter resolve path chain (stripped written)) =
      entering resolve path (triggerFile chain includes) := by
    funext written
    rw [enter_eq, enterWith_stripped]
  have inside : includeItems (triggerFile chain includes).entries ⊆ includes.asList := by
    rw [includeItems_trigger]
    split
    · exact List.nil_subset _
    · exact List.Subset.refl _
  have items : ListRefuses (entering resolve path (triggerFile chain includes))
      includes.asList ↔ ListRefuses (entering resolve path (triggerFile chain includes))
        (includeItems (triggerFile chain includes).entries) := by
    rw [includeItems_trigger]
    split
    · exact iff_of_false (by simp [ListRefuses, Value.asList, Include.ofValue]) listRefuses_nil
    · exact Iff.rfl
  rw [refuses_childFiles _ _ returned, entered, items]
  refine listRefuses_iff fun item member => ?_
  obtain ⟨values, enters⟩ := (returns_childFiles ..).mp returned item (inside member)
  refine ⟨values, fun written names => ?_⟩
  rw [← entered]
  exact (enters written names).1

end Files

/-! ## Child pipelines -/

section Jobs
variable {resolve : Resolver} {parse : Option Parsing} {chain : List String}
variable {path jobPath caller : String} {gathered result : Gathered}

/-- A file is refused among those of a child pipeline, or in the child pipeline itself. -/
def ChildRefuses (resolve : Resolver) (parse : Option Parsing) (chain : List String)
    (path caller : String) (includes : Value) : Prop :=
  ¬ NoneRefused resolve (triggerFile chain includes) ∨
    ∃ files child read, openedFiles resolve chain path caller includes = .ok files ∧
      childLayer chain files = some child ∧ parse = some read ∧
      Refuses (read child.chain child.path child.origins child.entries)

theorem refuses_inlineChild {includes : Value}
    (read : outcome (inlineChild resolve parse chain path caller includes gathered) = .ok result) :
    Refuses (inlineChild resolve parse chain path caller includes gathered) ↔
      ChildRefuses resolve parse chain path caller includes := by
  obtain ⟨files, opens, rest⟩ := inlineChild_eq_ok read
  unfold inlineChild ChildRefuses
  rw [refuses_bind (show outcome (childFiles ..) = .ok files from opens),
    refuses_openedFiles ⟨files, opens⟩]
  refine or_congr Iff.rfl ?_
  rcases rest with ⟨nothing, -⟩ |
    ⟨childOf, key, first, others, shared, child, rfl, origins, childRead, sharedRead, -⟩
  · refine iff_of_false ?_ ?_
    · rcases nothing with rfl | none
      · exact quiet_iff.mp (quiet_pure _)
      · rw [none]
        cases parse <;> exact quiet_iff.mp (quiet_pure _)
    · rintro ⟨again, child, childOf, same, made, parses, -⟩
      obtain rfl := Except.ok.inj (opens.symm.trans same)
      obtain ⟨key, first, others, origins, -⟩ := exists_origin_of_childLayer made
      rcases nothing with rfl | none
      · cases parses
      · cases origins.symm.trans none
  · have made := childLayer_of_origins chain origins
    rw [origins] at made childRead ⊢
    dsimp only
    rw [(quiet_fault _).refuses_bind (outcome_fault_of_ok sharedRead), refuses_bind childRead,
      or_iff_left (quiet_iff.mp ?_)]
    · simp [opens, made]
    · exact (quiet_noted (accepts_validate _ _)).bind fun _ => quiet_pure _

theorem refuses_addJob {written : Job} {raw : Entries}
    (read : outcome (addJob resolve parse chain path jobPath written raw gathered) = .ok result) :
    Refuses (addJob resolve parse chain path jobPath written raw gathered) ↔
      ∃ includes, Starts raw includes ∧
        ChildRefuses resolve parse chain path written.name includes := by
  by_cases child : ∃ includes, Starts raw includes
  · obtain ⟨includes, starts⟩ := child
    rw [addJob_of_starts starts] at read ⊢
    refine (refuses_inlineChild read).trans ⟨fun refuses => ⟨includes, starts, refuses⟩, ?_⟩
    rintro ⟨others, startsToo, refuses⟩
    exact starts.unique startsToo ▸ refuses
  · rw [not_exists] at child
    refine iff_of_false (quiet_iff.mp (quiet_of_ofJob (ofJob_addJob child))) ?_
    rintro ⟨includes, starts, -⟩
    exact child includes starts

variable {origins : Keyed String String} {defaults : Entries} {all : RawJobs}

def JobRefuses (resolve : Resolver) (parse : Option Parsing) (chain : List String)
    (path jobPath : String) (all : RawJobs) (name : String) : Prop :=
  ∃ raw includes, outcome (resolveExtends all jobPath name) = .ok raw ∧ Starts raw includes ∧
    ChildRefuses resolve parse chain path name includes

theorem quiet_addJobs (entries : RawJobs)
    (read : outcome (addJobs resolve parse chain path origins defaults all entries gathered) =
      .ok result) :
    Quiet (addJobs resolve parse chain path origins defaults all entries gathered) ↔
      ∀ name, ¬ isHidden name = true → (∃ raw, (name, .map raw) ∈ entries) →
        ¬ JobRefuses resolve parse chain path ((origins.get? name).getD path) all name := by
  induction entries generalizing gathered with
  | nil => exact iff_of_true (quiet_pure _) (by simp)
  | cons entry rest ih =>
    obtain ⟨name, value⟩ := entry
    rw [forall_isJob_cons]
    by_cases noJob : isHidden name = true ∨ ¬ ∃ entries, value = .map entries
    · rw [and_iff_right fun visible isMap => absurd isMap (noJob.resolve_left visible),
        ← ih (addJobs_skip noJob read)]
      by_cases hidden : isHidden name = true
      · rw [addJobs, if_pos hidden]
      · rw [addJobs, if_neg hidden]
        cases value with
        | map entries => exact absurd ⟨entries, rfl⟩ (noJob.resolve_left hidden)
        | _ =>
          rw [quiet_iff, (quiet_noted (accepts_note_of_kind (by simp))).refuses_bind
            (outcome_noted _), ← quiet_iff]
    · rw [not_or, not_not] at noJob
      obtain ⟨visible, entries, rfl⟩ := noJob
      rw [addJobs, if_neg visible] at read ⊢
      simp only [outcome_bind, bind_eq_ok, outcome_fault, uncaught_eq_ok] at read
      obtain ⟨raw, extended, written, wrote, kept, only, reached, added, others⟩ := read
      obtain ⟨named, -⟩ := job_identity wrote
      dsimp only
      rw [quiet_iff, (quiet_of_ofJob (ofJob_resolveExtends _ _ _)).refuses_bind extended,
        (quiet_of_ofJob (ofJob_job _ _ _ _ _)).refuses_bind wrote,
        (quiet_fault _).refuses_bind (outcome_fault_of_ok only), refuses_bind added,
        refuses_addJob added, not_or, ← quiet_iff, ih others]
      refine and_congr ⟨fun accepts _ _ => ?_, fun accepts => ?_⟩ Iff.rfl
      · rintro ⟨again, includes, same, starts, refuses⟩
        obtain rfl := Except.ok.inj (extended.symm.trans same)
        exact accepts ⟨includes, starts, named ▸ refuses⟩
      · rintro ⟨includes, starts, refuses⟩
        exact accepts visible ⟨entries, rfl⟩ ⟨raw, includes, extended, starts, named ▸ refuses⟩

end Jobs

section Layers
variable {resolve : Resolver} {parse : Option Parsing} {layer : Layer} {gathered : Gathered}

/-- The child pipelines of a configuration are read with no refusal exactly if they accept all
files. -/
def QuietBelow (resolve : Resolver) (parse : Option Parsing) (layer : Layer) : Prop :=
  ∀ child, layer.Triggers resolve child → ∃ read, parse = some read ∧
    (Quiet (read child.chain child.path child.origins child.entries) ↔ child.NoneRefused resolve)

theorem noneRefused_layer_iff :
    layer.NoneRefused resolve ↔
      (∀ name raw includes, layer.HasJob name raw → Starts raw includes →
        NoneRefused resolve (triggerFile layer.chain includes)) ∧
      ∀ child, layer.Triggers resolve child → child.NoneRefused resolve :=
  forall_reached_iff

theorem quiet_gatherWith (below : QuietBelow resolve parse layer)
    (read : outcome (gatherWith resolve parse layer.chain layer.path layer.origins layer.entries) =
      .ok gathered) :
    Quiet (gatherWith resolve parse layer.chain layer.path layer.origins layer.entries) ↔
      layer.NoneRefused resolve := by
  unfold gatherWith at read ⊢
  simp only [outcome_bind, bind_eq_ok, outcome_fault, uncaught_eq_ok] at read
  obtain ⟨jobs, named, added⟩ := read
  rw [quiet_iff, (quiet_fault _).refuses_bind (outcome_fault_of_ok named), ← quiet_iff,
    quiet_addJobs jobs added, noneRefused_layer_iff]
  constructor
  · intro quiet
    have accepts (name : String) (raw : Entries) (includes : Value) (hasJob : layer.HasJob name raw)
        (starts : Starts raw includes) :
        ¬ ChildRefuses resolve parse layer.chain layer.path name includes := by
      obtain ⟨again, ⟨same, visible, isMap⟩, extended⟩ := hasJob
      obtain rfl := Except.ok.inj (named.symm.trans same)
      exact fun refuses => quiet name visible isMap ⟨raw, includes, extended, starts, refuses⟩
    refine ⟨fun name raw includes hasJob starts => ?_, ?_⟩
    · by_contra refused
      exact accepts name raw includes hasJob starts (Or.inl refused)
    · rintro child ⟨name, raw, includes, files, hasJob, starts, opens, made⟩
      obtain ⟨read, parses, quietly⟩ :=
        below child ⟨name, raw, includes, files, hasJob, starts, opens, made⟩
      rw [← quietly, quiet_iff]
      exact fun refuses => accepts name raw includes hasJob starts
        (Or.inr ⟨files, child, read, opens, made, parses, refuses⟩)
  · rintro ⟨here, later⟩ name visible isMap ⟨raw, includes, extended, starts, refuses⟩
    have hasJob : layer.HasJob name raw := ⟨jobs, ⟨named, visible, isMap⟩, extended⟩
    rcases refuses with refused | ⟨files, child, read, opens, made, parses, refuses⟩
    · exact refused (here name raw includes hasJob starts)
    · have triggers : layer.Triggers resolve child :=
        ⟨name, raw, includes, files, hasJob, starts, opens, made⟩
      obtain ⟨again, same, quietly⟩ := below child triggers
      obtain rfl := Option.some.inj (parses.symm.trans same)
      exact quiet_iff.mp (quietly.mpr (later child triggers)) refuses

theorem quiet_gather (levels : Nat) (layer : Layer)
    (enough : maxFiles < levels + layer.chain.length)
    (returned : Returns (outcome
      (gather resolve levels layer.chain layer.path layer.origins layer.entries))) :
    Quiet (gather resolve levels layer.chain layer.path layer.origins layer.entries) ↔
      layer.NoneRefused resolve := by
  have readable := (returns_gather resolve levels layer enough).mp returned
  obtain ⟨gathered, read⟩ := returned
  induction levels generalizing layer gathered with
  | zero =>
    refine quiet_gatherWith (fun child triggers => ?_) read
    have short := triggers.length.1
    omega
  | succ levels ih =>
    refine quiet_gatherWith (fun child triggers => ?_) read
    have longer := triggers.length.2
    have enoughBelow : maxFiles < levels + child.chain.length := by omega
    have later := (forall_reached_iff.mp readable).2 child triggers
    obtain ⟨childGathered, childRead⟩ := (returns_gather resolve levels child enoughBelow).mpr later
    exact ⟨gather resolve levels, rfl, ih child enoughBelow later childGathered childRead⟩

end Layers

/-- A pipeline is read with no refusal exactly if no file that is reached includes one that cannot
be opened from there. -/
theorem quiet_normalize {resolve : Resolver} {path : String} {content : List UInt8}
    {raw : Entries} (loaded : outcome (configuration path content) = .ok (some raw)) {top : Layer}
    (holds : TopLayer resolve path content top)
    (returned : Returns (outcome (normalize resolve path content))) :
    Quiet (normalize resolve path content) ↔
      NoneRefused resolve ⟨[path], raw⟩ ∧ top.NoneRefused resolve := by
  obtain ⟨pipeline, read⟩ := returned
  obtain ⟨again, merged, same, included, rfl⟩ := holds
  obtain rfl := Option.some.inj (Except.ok.inj (loaded.symm.trans same))
  obtain ⟨none, -⟩ | ⟨_, _, env, gathered, again, alsoIncluded, shared, gathers, -⟩ :=
    normalize_eq_ok_iff.mp read
  · cases loaded.symm.trans none
  · obtain rfl := Option.some.inj (Except.ok.inj (loaded.symm.trans again))
    obtain rfl := Except.ok.inj (included.symm.trans alsoIncluded)
    have merges := @refuses_merge resolve path ⟨[path], raw⟩ ⟨merged, included⟩
    have below := quiet_gather maxFiles ⟨[path], path, [], merged.entries⟩
      (Nat.lt_succ_self maxFiles) ⟨gathered, gathers⟩
    unfold normalize
    rw [quiet_iff, (quiet_configuration _ _).refuses_bind loaded]
    dsimp only
    rw [refuses_bind included, (quiet_fault _).refuses_bind (outcome_fault_of_ok shared),
      refuses_bind gathers, or_iff_left (quiet_iff.mp ?_), not_or, ← quiet_iff, ← quiet_iff, below]
    · exact and_congr (quiet_iff.trans (not_congr merges) |>.trans not_not) Iff.rfl
    · refine (quiet_noted (accepts_triggers _ _)).bind fun _ => ?_
      exact (quiet_noted (accepts_validate _ _)).bind fun _ => quiet_pure _

end SupplyLint.Gitlab
