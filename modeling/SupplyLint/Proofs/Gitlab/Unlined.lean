import SupplyLint.Proofs.Gitlab.Lookups
import SupplyLint.Proofs.Unlined

/-! # Configurations without their lines

The jobs of a configuration and what it includes are read alike with any lines, if there are none in
values whose text is taken, nor in those that are kept as a ref. -/
set_option autoImplicit false

namespace SupplyLint.Gitlab

open SupplyLint.Text
open SupplyLint.Value (AllLineless allLineless_cons allLineless_append allLineless_flatMap
  field_unlinedEntries toText_unlined toTexts_unlined unlined unlinedEntries)
open SupplyLint.Yaml (lineKey)

/-! ## Parts of a job -/

def variableValue : Value → Value
  | .map long => Value.field long "value"
  | value => value

theorem variableValue_unlined (raw : Value) :
    variableValue raw.unlined = (variableValue raw).unlined := by
  cases raw with
  | map long =>
    rw [Value.unlined_map, variableValue, field_unlinedEntries (by decide), variableValue]
  | _ => rfl

def namedVariable (entry : Value × Value) : Except Fault (String × Value) := do
  return (← entry.1.toText, variableValue entry.2)

theorem variablesOf_eq (raw : Value) :
    variablesOf raw = Keyed.ofPairs <$> (Field.entries raw).mapM namedVariable := by
  rw [map_eq_pure_bind]
  rfl

theorem variablesOf_unlined (raw : Value) :
    variablesOf raw.unlined = Keyed.mapValues unlined <$> variablesOf raw := by
  have comm (entry : Value × Value) : namedVariable (entry.1, entry.2.unlined) =
      (fun named => (named.1, named.2.unlined)) <$> namedVariable entry := by
    simp only [namedVariable, variableValue_unlined, map_bind, map_pure]
  rw [variablesOf_eq, Field.entries_unlined, Keyed.mapValues,
    mapM_map_of_comm (Field.entries raw) fun entry _ => comm entry, variablesOf_eq, Functor.map_map,
    Functor.map_map]
  exact congrArg (· <$> _) (funext fun pairs => Keyed.ofPairs_mapValues unlined pairs)

theorem filter_isNull_unlined (items : List Value) :
    (items.map unlined).filter (!·.isNull) = (items.filter (!·.isNull)).map unlined := by
  rw [List.filter_map]
  exact congrArg (List.map unlined) (congrArg (List.filter · items)
    (funext fun item => congrArg (!·) (Value.isNull_unlined item)))

theorem imageName_unlined (raw : Value) : imageName raw.unlined = imageName raw := by
  cases raw with
  | map entries =>
    rw [Value.unlined_map, imageName, field_unlinedEntries (by decide), imageName]
    cases Value.field entries "name" <;> rfl
  | _ => rfl

theorem imageNames_unlined (raw : Value) : imageNames raw.unlined = imageNames raw := by
  rw [imageNames, Value.asList_unlined, List.filterMap_map, imageNames]
  exact congrArg (List.filterMap · _) (funext imageName_unlined)

theorem sectionValues_unlined (raw : Value) :
    sectionValues raw.unlined = (sectionValues raw).map unlined := by
  rw [sectionValues, writtenLines, Value.asList_unlined, List.flatMap_map,
    sectionValues, writtenLines, ← filter_isNull_unlined, List.map_flatMap]
  exact congrArg (List.filter _ <| List.flatMap · _) (funext Value.asList_unlined)

theorem scriptLines_unlined {raw : Value} (lineless : AllLineless (sectionValues raw)) :
    scriptLines raw.unlined = scriptLines raw := by
  have same := sectionValues_unlined raw
  unfold sectionValues at same
  rw [scriptLines, same]
  exact toTexts_unlined lineless

theorem setting_unlined (raw defaults : Entries) {key : String} (other : key ≠ lineKey) :
    setting (unlinedEntries raw) (unlinedEntries defaults) key =
      (setting raw defaults key).unlined := by
  rw [setting, Value.get?_unlinedEntries_text other, field_unlinedEntries other, setting]
  cases Keyed.get? raw (.text key) <;> rfl

theorem steps_unlined {raw defaults : Entries} (lineless : AllLineless (stepsValues raw defaults)) :
    steps (unlinedEntries raw) (unlinedEntries defaults) =
      List.map Step.unlined <$> steps raw defaults := by
  simp only [stepsValues, allLineless_append] at lineless
  obtain ⟨⟨before, script⟩, after⟩ := lineless
  let sections : Keyed String Value :=
    [("before_script", setting raw defaults "before_script"), ("script", Value.field raw "script"),
     ("after_script", setting raw defaults "after_script")]
  have values : ∀ entry ∈ sections, AllLineless (sectionValues entry.2) := by
    simp only [sections, List.forall_mem_cons]
    exact ⟨before, script, after, List.forall_mem_nil _⟩
  have named : namedLines (unlinedEntries raw) (unlinedEntries defaults) =
      namedLines raw defaults := by
    unfold namedLines
    simp (disch := decide) only [setting_unlined, field_unlinedEntries]
    refine congrArg (· >>= _) (Keyed.mapM_mapValues unlined sections fun entry member => ?_)
    rw [scriptLines_unlined (values entry member)]
  rw [steps, named, steps]
  simp only [map_bind, map_pure, List.map_map]
  rfl

theorem needName_unlined (raw : Value) : needName raw.unlined = (needName raw).unlined := by
  cases raw with
  | map entries =>
    simp (disch := decide) only [Value.unlined_map, needName, Value.hasField_unlinedEntries,
      field_unlinedEntries]
    split <;> rfl
  | _ => rfl

theorem needs_unlined (path name : String) {raw : Value}
    (lineless : AllLineless (needsValues raw)) :
    needs path name raw.unlined = needs path name raw := by
  unfold needsValues at lineless
  unfold needs
  rw [Value.present_unlined]
  split
  · rfl
  · next present =>
    rw [if_neg present] at lineless
    cases raw with
    | list items =>
      have named : (items.map unlined).map needName = (items.map needName).map unlined := by
        rw [List.map_map, List.map_map]
        exact List.map_congr_left fun item _ => needName_unlined item
      rw [Value.unlined_list]
      dsimp only
      rw [named, filter_isNull_unlined, toTexts_unlined lineless]
    | _ => exact congrArg (fun texts => _ >>= fun _ => liftM texts) (Field.texts_unlined lineless)

theorem job_unlined (path name : String) (index : Nat) {raw defaults : Entries}
    (lineless : AllLineless (jobValues raw defaults)) :
    job path name index (unlinedEntries raw) (unlinedEntries defaults) =
      Job.unlined <$> job path name index raw defaults := by
  simp only [jobValues, allLineless_append] at lineless
  obtain ⟨⟨⟨steps, waited⟩, labels⟩, -⟩ := lineless
  unfold job
  simp (disch := decide) only [Value.hasField_unlinedEntries,
    field_unlinedEntries, steps_unlined steps,
    needs_unlined _ _ waited, setting_unlined, imageNames_unlined, Field.texts_unlined labels,
    variablesOf_unlined, Field.line_unlined, liftM_map_fault, bind_map_left]
  split
  · simp only [map_bind, map_pure]
    rfl
  · simp only [map_bind, map_pure]
    rfl

/-! ## Sources and triggers -/

theorem onlySources_unlined {only : Value} (lineless : AllLineless (onlyValues only)) :
    onlySources only.unlined = onlySources only := by
  cases only with
  | map entries =>
    rw [Value.unlined_map, onlySources, field_unlinedEntries (by decide),
      Field.texts_unlined lineless]
    rfl
  | _ => exact congrArg (· >>= _) (Field.texts_unlined lineless)

theorem ruleSources_unlined (rule : Value) : ruleSources rule.unlined = ruleSources rule := by
  cases rule with
  | map entries =>
    rw [Value.unlined_map, ruleSources, field_unlinedEntries (by decide), ruleSources]
    cases Value.field entries "if" <;> rfl
  | _ => rfl

theorem rulesSources_unlined (section' : Value) :
    rulesSources section'.unlined = rulesSources section' := by
  cases section' with
  | map entries =>
    rw [Value.unlined_map, rulesSources, field_unlinedEntries (by decide), rulesSources]
    cases Value.field entries "rules" with
    | list rules =>
      rw [Value.unlined_list]
      dsimp only
      rw [List.flatMap_map]
      exact congrArg (List.flatMap · rules) (funext ruleSources_unlined)
    | _ => rfl
  | _ => rfl

/-- The branch of another project, which is kept as its ref. -/
def triggerKept (raw : Entries) : List Value :=
  match Keyed.get? raw (.text "trigger") with
  | some (.map entries) => [Value.field entries "branch"]
  | _ => []

def Downstream.unlined : Downstream → Downstream
  | .child includes => .child includes.unlined
  | other => other

theorem downstream_unlined {raw : Entries} {trigger : Value}
    (found : Keyed.get? raw (.text "trigger") = some trigger)
    (lineless : AllLineless (triggerValues raw)) (kept : AllLineless (triggerKept raw)) :
    Downstream.ofValue trigger.unlined = Downstream.unlined <$> Downstream.ofValue trigger := by
  rw [triggerValues, found] at lineless
  rw [triggerKept, found] at kept
  cases trigger with
  | map entries =>
    dsimp only at lineless
    have branch := (allLineless_cons.mp kept).1
    simp (disch := decide) only [Value.unlined_map, Downstream.ofValue,
      Value.hasField_unlinedEntries, field_unlinedEntries, Value.unlined_of_isLineless _ branch]
    split
    · next project =>
      rw [if_pos project] at lineless
      rw [toText_unlined (allLineless_cons.mp lineless).1]
      simp only [map_bind, map_pure]
      rfl
    · split <;> rfl
  | _ => rfl

/-! ## What a job extends -/

theorem rawJob_unlined (jobs : RawJobs) (name : String) :
    rawJob (Keyed.mapValues unlined jobs) name = (rawJob jobs name).map unlinedEntries := by
  rw [rawJob, Keyed.mapValues, Keyed.get?_mapValues, rawJob]
  cases jobs.get? name with
  | none => rfl
  | some value => cases value <;> simp [unlined]

section Extends
variable {jobs : RawJobs} {path name : String}

theorem mergeBases_unlined {resolveBase other : String → Normalizing Entries} {way : List String}
    (bases : List String)
    (same : ∀ base ∈ bases, (rawJob jobs base).isSome →
      other base = unlinedEntries <$> resolveBase base) (merged : Entries) :
    mergeBases other (Keyed.mapValues unlined jobs) path name way bases (unlinedEntries merged) =
      unlinedEntries <$> mergeBases resolveBase jobs path name way bases merged := by
  induction bases generalizing merged with
  | nil => rfl
  | cons base rest ih =>
    obtain ⟨own, others⟩ := List.forall_mem_cons.mp same
    have later := ih others
    simp only [mergeBases, rawJob_unlined, Option.isNone_map]
    split
    · rw [later, map_bind]
    · split
      · rw [later, map_bind]
      · next isJob =>
        rw [Bool.not_eq_true, Option.isNone_eq_false_iff] at isJob
        rw [own isJob, bind_map_left, map_bind]
        exact congrArg _ (funext fun resolved => by rw [← Field.merge_unlined, later])

/-- There are no lines in the names of what a job extends, however far up. -/
def BasesLineless (jobs : RawJobs) (name : String) : Prop :=
  ∀ base, Relation.ReflTransGen (Extends jobs) name base →
    AllLineless (Field.written (extendsField jobs base))

theorem resolveWithin_unlined (budget : Nat) (above : List String)
    (lineless : BasesLineless jobs name) :
    resolveWithin (Keyed.mapValues unlined jobs) path budget above name =
      unlinedEntries <$> resolveWithin jobs path budget above name := by
  induction budget generalizing above name with
  | zero => rfl
  | succ budget ih =>
    have own : (rawJob (Keyed.mapValues unlined jobs) name).getD [] =
        unlinedEntries ((rawJob jobs name).getD []) := by
      rw [rawJob_unlined]
      cases rawJob jobs name <;> rfl
    have named := Field.texts_unlined (lineless name .refl)
    unfold extendsField at named
    simp only [resolveWithin, own, map_bind]
    rw [field_unlinedEntries (by decide), named]
    refine bind_congr_of_outcome fun bases named => ?_
    rw [outcome_fault, uncaught_eq_ok] at named
    -- What a base extends is extended by the job too, so the hypothesis goes down to the bases.
    have merges := @mergeBases_unlined jobs path name _ _ (above ++ [name]) bases
      (fun base member isJob => ih (above ++ [name]) fun last reached =>
        lineless last (.head ⟨bases, named, member, isJob⟩ reached)) []
    rw [show ([] : Entries) = unlinedEntries [] from rfl, merges]
    simp only [bind_map_left, map_pure, Field.merge_unlined, Value.erase_unlinedEntries]
    rfl

theorem resolveExtends_unlined (lineless : BasesLineless jobs name) :
    resolveExtends (Keyed.mapValues unlined jobs) path name =
      unlinedEntries <$> resolveExtends jobs path name := by
  rw [resolveExtends, Keyed.length_mapValues, resolveWithin_unlined _ _ lineless, resolveExtends]

end Extends

/-! ## Includes -/

/-- The ref of a project that is included, which is kept as it is written. -/
def includeKept : Value → List Value
  | .map entries => [Value.field entries "ref"]
  | _ => []

theorem entries_unlinedEntries (all : Entries) :
    Field.entries (.map (unlinedEntries all)) = unlinedEntries (Field.entries (.map all)) :=
  Value.filter_unlinedEntries (fun key => !(key == .text lineKey)) all

theorem elsewhereText_unlined {entries : Entries}
    (lineless : (elsewhereValue entries).isLineless = true) :
    Include.elsewhereText (unlinedEntries entries) = Include.elsewhereText entries := by
  have fields : Value.hasField (unlinedEntries entries) = Value.hasField entries :=
    funext (Value.hasField_unlinedEntries entries)
  unfold elsewhereValue at lineless
  unfold Include.elsewhereText
  rw [fields]
  cases found : ["remote", "template", "artifact"].find? (Value.hasField entries) with
  | some kind =>
    have other : kind ≠ lineKey := by
      rintro rfl
      exact absurd (List.mem_of_find?_eq_some found) (by decide)
    rw [found] at lineless
    dsimp only
    rw [field_unlinedEntries other, toText_unlined lineless]
  | none =>
    rw [found] at lineless
    dsimp only
    rw [entries_unlinedEntries, ← Value.unlined_map, toText_unlined lineless]

theorem ofValue_unlined {item : Value} (lineless : AllLineless (includeValues item))
    (kept : AllLineless (includeKept item)) :
      Include.ofValue item.unlined = Include.ofValue item := by
  cases item with
  | map entries =>
    have ref := (allLineless_cons.mp kept).1
    unfold includeValues at lineless
    dsimp only at lineless
    simp (disch := decide) only [Value.unlined_map, Include.ofValue, Include.ofEntries,
      Value.hasField_unlinedEntries, field_unlinedEntries, Value.unlined_of_isLineless _ ref]
    split
    · next written =>
      rw [if_pos written, allLineless_cons] at lineless
      rw [toText_unlined lineless.1]
    · next notLocal =>
      rw [if_neg notLocal] at lineless
      split
      · next written =>
        rw [if_pos written, allLineless_cons] at lineless
        rw [toText_unlined lineless.1]
      · next noProject =>
        rw [if_neg noProject] at lineless
        split
        · next written =>
          rw [if_pos written, allLineless_cons] at lineless
          rw [toText_unlined lineless.1]
        · next noComponent =>
          rw [if_neg noComponent, allLineless_cons] at lineless
          rw [elsewhereText_unlined lineless.1]
  | _ => rfl

theorem includeItems_unlined (raw : Entries) :
    includeItems (unlinedEntries raw) = (includeItems raw).map unlined := by
  rw [includeItems, field_unlinedEntries (by decide), includeItems]
  cases Value.field raw "include" with
  | null => rfl
  | list items => exact Value.asList_unlined (.list items)
  | _ => rfl

def Merged.unlined (merged : Merged) : Merged :=
  { merged with entries := unlinedEntries merged.entries }

def ItemsLineless (items : List Value) : Prop :=
  ∀ item ∈ items, AllLineless (includeValues item) ∧ AllLineless (includeKept item)

def EntersUnlined (enter other : String → Normalizing (Option Merged))
    (items : List Value) : Prop :=
  ∀ item ∈ items, ∀ written, Include.ofValue item = .ok (.file written) →
    other written = Option.map Merged.unlined <$> enter written

section Lists
variable {enter other : String → Normalizing (Option Merged)} {path location : String}

theorem mergeList_unlined {items : List Value} (lineless : ItemsLineless items)
    (enters : EntersUnlined enter other items) (merged : Merged) :
    mergeList other path (items.map unlined) merged.unlined =
      Merged.unlined <$> mergeList enter path items merged := by
  induction items generalizing merged with
  | nil => rfl
  | cons item rest ih =>
    obtain ⟨⟨values, kept⟩, linelessRest⟩ := List.forall_mem_cons.mp lineless
    obtain ⟨own, others⟩ := List.forall_mem_cons.mp enters
    have later := ih linelessRest others
    simp only [List.map_cons, mergeList, ofValue_unlined values kept, map_bind]
    refine bind_congr_of_outcome fun what found => ?_
    rw [outcome_fault, uncaught_eq_ok] at found
    cases what with
    | file written =>
      simp only [own written found, bind_map_left, map_bind]
      refine congrArg _ (funext fun file => ?_)
      cases file with
      | none => exact later merged
      | some file =>
        rw [← later]
        simp only [Option.map_some, Merged.unlined, Field.merge_unlined]
    | package ref => exact later { merged with references := merged.references ++ ref.toList }
    | elsewhere what =>
      simp only [map_bind]
      exact bind_congr_of_outcome fun _ _ => later merged
    | malformed =>
      simp only [map_bind]
      exact bind_congr_of_outcome fun _ _ => later merged

theorem mergeWith_unlined {raw : Entries} (lineless : ItemsLineless (includeItems raw))
    (enters : EntersUnlined enter other (includeItems raw)) :
    mergeWith other path (unlinedEntries raw) = Merged.unlined <$> mergeWith enter path raw := by
  have listed (field : Value) (lineless : ItemsLineless field.asList)
      (enters : EntersUnlined enter other field.asList) :
      (do
        let merged ← mergeList other path field.unlined.asList ⟨[], []⟩
        let body := Keyed.erase (unlinedEntries raw) (.text "include")
        return { merged with entries := Field.merge merged.entries body }) =
      Merged.unlined <$> (do
        let merged ← mergeList enter path field.asList ⟨[], []⟩
        let body := Keyed.erase raw (.text "include")
        return { merged with entries := Field.merge merged.entries body }) := by
    have merges := @mergeList_unlined enter other path _ lineless enters ⟨[], []⟩
    rw [Value.asList_unlined, show (⟨[], []⟩ : Merged) = Merged.unlined ⟨[], []⟩ from rfl, merges]
    simp only [bind_map_left, map_bind, map_pure, Merged.unlined, Field.merge_unlined,
      Value.erase_unlinedEntries]
    rfl
  unfold includeItems at lineless enters
  unfold mergeWith
  rw [field_unlinedEntries (by decide)]
  cases field : Value.field raw "include" with
  | null => rfl
  | _ =>
    rw [field] at lineless enters
    exact listed _ lineless enters

def ChildFiles.unlined (files : ChildFiles) : ChildFiles :=
  { files with entries := unlinedEntries files.entries }

theorem add_unlined (files : ChildFiles) (target : String) (file : Merged) :
    files.unlined.add target file.unlined = ChildFiles.unlined <$> files.add target file := by
  rw [ChildFiles.add, Merged.unlined, ← Value.unlined_map, ← Field.names, Field.names_unlined,
    ChildFiles.add, Field.names]
  simp only [map_bind, map_pure, ChildFiles.unlined, Field.merge_unlined]

theorem childFiles_unlined {items : List Value} (lineless : ItemsLineless items)
    (enters : EntersUnlined (fun written => enter (stripped written))
      (fun written => other (stripped written)) items) (files : ChildFiles) :
    childFiles other path location (items.map unlined) files.unlined =
      ChildFiles.unlined <$> childFiles enter path location items files := by
  induction items generalizing files with
  | nil => rfl
  | cons item rest ih =>
    obtain ⟨⟨values, kept⟩, linelessRest⟩ := List.forall_mem_cons.mp lineless
    obtain ⟨own, others⟩ := List.forall_mem_cons.mp enters
    have later := ih linelessRest others
    simp only [List.map_cons, childFiles, ofValue_unlined values kept, map_bind]
    refine bind_congr_of_outcome fun what found => ?_
    rw [outcome_fault, uncaught_eq_ok] at found
    cases what with
    | file written =>
      have opens := own written found
      unfold stripped at opens
      simp only [opens, bind_map_left, map_bind]
      refine congrArg _ (funext fun file => ?_)
      cases file with
      | none => exact later files
      | some file =>
        simp only [Option.map_some, add_unlined, liftM_map_fault, bind_map_left, map_bind, later]
    | package ref => exact later { files with references := files.references ++ ref.toList }
    | elsewhere what =>
      simp only [map_bind]
      exact bind_congr_of_outcome fun _ _ => later files
    | malformed =>
      simp only [map_bind]
      exact bind_congr_of_outcome fun _ _ => later files

end Lists

theorem rawJobsOf_unlined (raw : Entries) :
    rawJobsOf (unlinedEntries raw) = Keyed.mapValues unlined <$> rawJobsOf raw := by
  rw [rawJobsOf, ← Value.unlined_map, Field.byText_unlined, rawJobsOf]
  simp only [bind_map_left, map_bind, map_pure, Keyed.mapValues, List.filter_map]
  rfl

theorem defaultsOf_unlined (raw : Entries) :
    defaultsOf (unlinedEntries raw) = unlinedEntries (defaultsOf raw) := by
  have step (keys : List String) (others : lineKey ∉ keys) (defaults : Entries) :
      keys.foldl (fun defaults key =>
        if Value.hasField (unlinedEntries raw) key && !Value.hasField defaults key then
          Keyed.put defaults (.text key) (Value.field (unlinedEntries raw) key)
        else defaults) (unlinedEntries defaults) =
      unlinedEntries (keys.foldl (fun defaults key =>
        if Value.hasField raw key && !Value.hasField defaults key then
          Keyed.put defaults (.text key) (Value.field raw key)
        else defaults) defaults) := by
    induction keys generalizing defaults with
    | nil => rfl
    | cons key rest ih =>
      obtain ⟨other, others⟩ := List.ne_and_not_mem_of_not_mem_cons others
      rw [List.foldl_cons, List.foldl_cons, ← ih others, Value.hasField_unlinedEntries,
        Value.hasField_unlinedEntries, field_unlinedEntries other.symm]
      split
      · have own : Value.text key ≠ .text lineKey := fun same => other (Value.text.inj same).symm
        rw [Value.put_unlinedEntries, Value.unlinedUnder_of_ne own]
      · rfl
  unfold defaultsOf
  rw [field_unlinedEntries (by decide)]
  cases Value.field raw "default" with
  | map entries => exact step globalKeys (by decide) entries
  | _ => exact step globalKeys (by decide) []

theorem adoptAll_unlined (caller : String) (shared : Keyed String Value) (more : List Job)
    (jobs : Jobs) :
    Jobs.unlined (more.foldl (adopt caller shared) jobs) =
      (more.map Job.unlined).foldl (adopt caller (Keyed.mapValues unlined shared))
        jobs.unlined := by
  induction more generalizing jobs with
  | nil => rfl
  | cons job rest ih =>
    have own : Jobs.unlined (adopt caller shared jobs job) =
        adopt caller (Keyed.mapValues unlined shared) jobs.unlined job.unlined := by
      rw [adopt, Jobs.unlined, Keyed.put_mapValues, adopt, Keyed.length_mapValues]
      refine congrArg (Keyed.put _ _) ?_
      simp only [Job.unlined, Keyed.putAll_mapValues]
    rw [List.foldl_cons, ih, own]
    rfl

end SupplyLint.Gitlab
