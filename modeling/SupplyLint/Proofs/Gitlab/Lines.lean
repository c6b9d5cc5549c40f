import SupplyLint.Proofs.Gitlab.Chains
import SupplyLint.Proofs.Gitlab.ChildFiles
import SupplyLint.Proofs.Gitlab.Includes
import SupplyLint.Proofs.Gitlab.Origins
import SupplyLint.Proofs.Source

/-! # The lines of the jobs of configurations

A configuration is put together from files, and what two of them have under one
key is merged. The line that is left is that of the file that is merged last.
`PutTogether.lines`: a job has the line of a mapping that one of the files has
for it, though not always the one that the job is reported in. -/
set_option autoImplicit false

namespace SupplyLint.Gitlab

open SupplyLint.Yaml (lineKey)

/-! ## Mappings that are merged -/

/-- A key is merged into another one: it is the same, or equal to one that is merged into it. -/
def MergesInto (key other : Value) : Prop :=
  Relation.ReflTransGen (fun first second => (first == second) = true) key other

/-- A mapping under a key has the line of a mapping that one of some files has under that key. -/
structure LineFrom (parts : File → Prop) (key : Value) (mapping : Entries) : Prop where
  distinct : Keyed.Distinct mapping
  own : ∃ file, parts file ∧ ∃ other own, MergesInto key other ∧ (other, .map own) ∈ file.entries ∧
    ∃ line, Keyed.get? own (.text lineKey) = some (.int line) ∧
      Keyed.get? mapping (.text lineKey) = some (.int line)

/-- All mappings among some entries have their lines from some files. -/
def HasLines (parts : File → Prop) (entries : Entries) : Prop :=
  ∀ key mapping, (key, .map mapping) ∈ entries → LineFrom parts key mapping

section Merge
variable {parts : File → Prop} {key other : Value} {mapping : Entries}

theorem LineFrom.into (line : LineFrom parts other mapping) (into : MergesInto key other) :
    LineFrom parts key mapping := by
  obtain ⟨distinct, file, part, written, own, merges, member, same⟩ := line
  exact ⟨distinct, file, part, written, own, .trans into merges, member, same⟩

theorem LineFrom.over (line : LineFrom parts key mapping) {lower : Entries}
    (distinct : Keyed.Distinct lower) : LineFrom parts key (Field.merge lower mapping) := by
  obtain ⟨upper, file, part, written, own, merges, member, number, here, there⟩ := line
  refine ⟨Field.distinct_merge mapping distinct, file, part, written, own, merges, member, number,
    here, ?_⟩
  rw [Field.get?_merge mapping upper there]
  rfl

theorem LineFrom.of_mapping {file : File} {content : List UInt8} (part : parts file)
    (holds : Yaml.Holds content (.map mapping)) (member : (key, .map mapping) ∈ file.entries) :
    LineFrom parts key mapping := by
  obtain ⟨line, -, marker⟩ := holds.starts
  exact ⟨holds.distinct, file, part, key, mapping, .refl, member, line, marker, marker⟩

theorem hasLines_nil : HasLines parts [] :=
  fun _ _ member => absurd member List.not_mem_nil

theorem hasLines_of_part {file : File} {content : List UInt8} (part : parts file)
    (mapping : IsMappingOf content file.entries) : HasLines parts file.entries :=
  fun _ _ member => .of_mapping part (mapping.holds.entry member id) member

theorem HasLines.imp {entries : Entries} {more : File → Prop} (lines : HasLines parts entries)
    (implies : ∀ file, parts file → more file) : HasLines more entries := by
  intro key mapping member
  obtain ⟨distinct, file, part, rest⟩ := lines key mapping member
  exact ⟨distinct, file, implies file part, rest⟩

theorem HasLines.erase {entries : Entries} (lines : HasLines parts entries) (key : Value) :
    HasLines parts (Keyed.erase entries key) :=
  fun key mapping member => lines key mapping (List.mem_filter.mp member).1

theorem HasLines.mergeEntry {base : Entries} (lines : HasLines parts base) {value : Value}
    (own : ∀ mapping, value = .map mapping → LineFrom parts key mapping) :
    HasLines parts (Field.mergeEntry base (key, value)) := by
  intro place mapping member
  rw [Field.mergeEntry] at member
  rcases Keyed.new_or_mem_of_mem_put member with ⟨merged, same⟩ | old
  · have into : MergesInto place key := by
      rcases same with rfl | equal
      · exact .refl
      · exact .single equal
    obtain ⟨upper, rfl, rfl | ⟨lower, found, rfl⟩⟩ := Field.mergeValue_eq_map merged.symm
    · exact (own mapping rfl).into into
    · obtain ⟨under, inBase⟩ := Keyed.exists_mem_of_get? found
      exact ((own upper rfl).into into).over (lines under lower inBase).distinct
  · exact lines place mapping old

theorem HasLines.merge (upper : Entries) {base : Entries} (below : HasLines parts base)
    (above : HasLines parts upper) : HasLines parts (Field.merge base upper) := by
  induction upper generalizing base with
  | nil => exact below
  | cons entry rest ih =>
    obtain ⟨key, value⟩ := entry
    rw [Field.merge]
    refine ih (below.mergeEntry ?_) fun key mapping member =>
      above key mapping (List.mem_cons_of_mem _ member)
    rintro mapping rfl
    exact above key mapping List.mem_cons_self

end Merge

section Includes
variable {resolve : Resolver} {path : String}

theorem enterWith_opens {file : File} {written : String} {found : Merged}
    (includes : ¬ Text.contains (stripped written) "*" = true →
      Includes file.entries (stripped written))
    (entered : outcome (enterWith resolve path
      (mergingWithin resolve path (maxFiles - file.chain.length)) file.chain written) =
        .ok (some found)) :
    ∃ next, Opens Includes (opened resolve) file next ∧
      next.chain = file.chain ++ [stripped written] ∧
      outcome (merge resolve path (maxFiles - next.chain.length) next.chain next.entries) =
        .ok found := by
  by_cases refused : Text.contains (stripped written) "*" = true ∨ stripped written ∈ file.chain
  · rw [outcome_enterWith_refused resolve path refused] at entered
    cases entered
  · obtain ⟨plain, outside⟩ := not_or.mp refused
    cases room : maxFiles - file.chain.length with
    | zero =>
      rw [room, mergingWithin, outcome_enterWith_none] at entered
      cases entered
    | succ fewer =>
      rw [room, mergingWithin, outcome_enterWith_some resolve path plain outside,
        bind_eq_ok] at entered
      obtain ⟨raw, opens, entered⟩ := entered
      cases raw with
      | none => cases entered
      | some raw =>
        simp only [map_eq_ok, Option.some.injEq, exists_eq_right] at entered
        have below : maxFiles - (file.chain ++ [stripped written]).length = fewer := by
          rw [List.length_append, List.length_singleton]
          omega
        refine ⟨⟨file.chain ++ [stripped written], raw⟩,
          ⟨stripped written, ⟨includes plain, outside, by omega⟩, opens, rfl⟩, rfl, ?_⟩
        rw [below]
        exact entered

/-- The files that a file is put together from with all that it includes. -/
def Included (resolve : Resolver) (file last : File) : Prop :=
  Relation.ReflTransGen (Opens Includes (opened resolve)) file last

theorem merge_hasLines {file : File} {content : List UInt8} {merged : Merged}
    (mapping : IsMappingOf content file.entries)
    (read : outcome (merge resolve path (maxFiles - file.chain.length) file.chain file.entries) =
      .ok merged) : HasLines (Included resolve file) merged.entries := by
  induction room : maxFiles - file.chain.length using Nat.strongRecOn
    generalizing file content merged with
  | ind room ih =>
    subst room
    have own : HasLines (Included resolve file) file.entries := hasLines_of_part .refl mapping
    rw [merge_eq] at read
    rcases mergeWith_eq_ok read with ⟨-, rfl⟩ | ⟨included, listed, rfl⟩
    · exact own
    · have start : HasLines (Included resolve file) (Merged.entries ⟨[], []⟩) := hasLines_nil
      refine (mergeList_keeps _ ?_ start listed).merge _ (own.erase _)
      intro item member written names found entered base kept
      obtain ⟨next, opens, chain, below⟩ :=
        enterWith_opens (fun plain => ⟨item, member, written, names, rfl, plain⟩) entered
      have less : maxFiles - next.chain.length < maxFiles - file.chain.length := by
        obtain ⟨_, ⟨-, -, room⟩, -, -⟩ := opens
        rw [chain, List.length_append, List.length_singleton]
        omega
      obtain ⟨_, _, ⟨-, mapping⟩, -⟩ := readFrom_of_opens (fun _ _ => mapping_of_opened) opens
      exact kept.merge _ ((ih _ less mapping below rfl).imp fun last reached => .head opens reached)

end Includes

/-! ## Files of child pipelines -/

def Triggered (resolve : Resolver) (chain : List String) (includes : Value) (last : File) : Prop :=
  Relation.TransGen (Opens Includes (opened resolve)) ⟨chain, [(.text "include", includes)]⟩ last

structure ChildFiles.AreFrom (parts : File → Prop) (files : ChildFiles) : Prop where
  lines : HasLines parts files.entries
  origins : ∀ origin ∈ files.origins, ∃ file, parts file ∧ file.chain.getLast? = some origin.2

section Children
variable {parts : File → Prop} {enter : String → Normalizing (Option Merged)}
variable {path location : String}

theorem ChildFiles.AreFrom.add {files more : ChildFiles} {target : String} {file : Merged}
    (areFrom : files.AreFrom parts) (lines : HasLines parts file.entries)
    (part : ∃ file, parts file ∧ file.chain.getLast? = some target)
    (added : files.add target file = .ok more) : more.AreFrom parts := by
  obtain ⟨keys, -, rfl⟩ := add_eq_ok added
  refine ⟨areFrom.lines.merge _ lines, fun origin member => ?_⟩
  rcases mem_addOrigins keys member with old | new
  · exact areFrom.origins origin old
  · rw [new]
    exact part

theorem childFiles_areFrom (items : List Value) {files result : ChildFiles}
    (each : ∀ item ∈ items, ∀ written, Include.ofValue item = .ok (.file written) →
      ∀ found, outcome (enter (stripped written)) = .ok (some found) →
        HasLines parts found.entries ∧
          ∃ file, parts file ∧ file.chain.getLast? = some (stripped written))
    (start : files.AreFrom parts)
    (read : outcome (childFiles enter path location items files) = .ok result) :
    result.AreFrom parts := by
  refine childFiles_holds (ChildFiles.AreFrom parts) items ?_ start read
  intro item member before more takes areFrom
  cases takes with
  | file names opens added =>
    obtain ⟨lines, part⟩ := each item member _ names _ opens
    exact areFrom.add lines part added
  | package names => exact ⟨areFrom.lines, areFrom.origins⟩
  | nothing => exact areFrom

end Children

theorem openedFiles_areFrom {resolve : Resolver} {chain : List String} {path caller : String}
    {includes : Value} {files : ChildFiles}
    (opens : openedFiles resolve chain path caller includes = .ok files) :
    files.AreFrom (Triggered resolve chain includes) := by
  refine childFiles_areFrom _ ?_
    ⟨hasLines_nil, fun origin none => absurd none List.not_mem_nil⟩ opens
  intro item member written names found entered
  let start : File := ⟨chain, [(.text "include", includes)]⟩
  have entered : outcome (enterWith resolve path
      (mergingWithin resolve path (maxFiles - start.chain.length)) start.chain written) =
        .ok (some found) := by rwa [enter_eq, enterWith_stripped] at entered
  obtain ⟨next, opens, chain, below⟩ := enterWith_opens (includes_of_written member names) entered
  obtain ⟨_, _, ⟨-, mapping⟩, -⟩ := readFrom_of_opens (fun _ _ => mapping_of_opened) opens
  refine ⟨(merge_hasLines mapping below).imp fun last reached => .head' opens reached, next,
    .single opens, ?_⟩
  rw [chain, List.getLast?_concat]

section Jobs
variable {parts : File → Prop} {jobs : RawJobs} {path name : String} {own raw : Entries}

theorem line_of_resolveExtends (isJob : rawJob jobs name = some own)
    (distinct : Keyed.Distinct own) {line : Int}
    (marker : Keyed.get? own (.text lineKey) = some (.int line))
    (read : outcome (resolveExtends jobs path name) = .ok raw) :
    Keyed.get? raw (.text lineKey) = some (.int line) := by
  simp only [resolveExtends, resolveWithin, outcome_bind, bind_eq_ok, outcome_fault, uncaught_eq_ok,
    outcome_pure, Except.ok.injEq] at read
  obtain ⟨bases, -, merged, -, rfl⟩ := read
  rw [isJob, Option.getD_some]
  have kept : Keyed.get? (Keyed.erase own (.text "extends")) (.text lineKey) = some (.int line) :=
    (Field.get?_erase_text (by decide)).trans marker
  rw [Field.get?_merge _ (distinct.erase _) kept]
  rfl

theorem exists_key_of_rawJobsOf {entries : Entries} {value : Value}
    (named : rawJobsOf entries = .ok jobs) (member : (name, value) ∈ jobs) :
    ∃ key, key.toText = .ok name ∧ (key, value) ∈ entries := by
  simp only [rawJobsOf, bind_eq_ok, pure_eq_ok, Field.byText] at named
  obtain ⟨_, ⟨pairs, texts, rfl⟩, rfl⟩ := named
  have inPairs := Keyed.mem_ofPairs (List.mem_filter.mp member).1
  obtain ⟨entry, inside, made⟩ := exists_of_mem_mapM texts inPairs
  simp only [bind_eq_ok, pure_eq_ok, Prod.mk.injEq] at made
  obtain ⟨_, text, rfl, rfl⟩ := made
  exact ⟨entry.1, text, (List.mem_filter.mp inside).1⟩

theorem HasLines.job {layer : Layer} (lines : HasLines parts layer.entries)
    (hasJob : layer.HasJob name raw) :
    ∃ file, parts file ∧ ∃ key other own, key.toText = .ok name ∧ MergesInto key other ∧
      (other, .map own) ∈ file.entries ∧ Field.line (.map raw) = Field.line (.map own) := by
  obtain ⟨jobs, ⟨named, -, entries, member⟩, extended⟩ := hasJob
  have isJob : rawJob jobs name = some entries := by
    rw [rawJob, (Keyed.get?_eq_some_iff (nodup_rawJobsOf named)).mpr member]
  obtain ⟨key, text, inLayer⟩ := exists_key_of_rawJobsOf named member
  obtain ⟨distinct, file, part, other, own, merges, inFile, line, here, there⟩ :=
    lines key entries inLayer
  refine ⟨file, part, key, other, own, text, merges, inFile, ?_⟩
  have marker := line_of_resolveExtends isJob distinct there extended
  simp only [Field.line, Field.lineEntry, Value.field, marker, here]

end Jobs

/-! ## Configurations and their files -/

/-- A configuration is put together from files: that of a document and all that it includes, or
those that a trigger names and all that these include. -/
inductive PutTogether (resolve : Resolver) (path : String) (content : List UInt8) :
    Layer → (File → Prop) → Prop
  | document {raw : Entries} {merged : Merged}
      (loaded : outcome (configuration path content) = .ok (some raw))
      (included : outcome (merge resolve path (maxFiles - 1) [path] raw) = .ok merged) :
      PutTogether resolve path content ⟨[path], path, [], merged.entries⟩
        (Included resolve ⟨[path], raw⟩)
  | child {layer child : Layer} {name : String} {raw : Entries} {includes : Value}
      {files : ChildFiles} (hasJob : layer.HasJob name raw) (starts : Starts raw includes)
      (opens : openedFiles resolve layer.chain layer.path name includes = .ok files)
      (made : childLayer layer.chain files = some child) :
      PutTogether resolve path content child (Triggered resolve layer.chain includes)

section PutTogether
variable {resolve : Resolver} {path : String} {content : List UInt8} {layer : Layer}
variable {parts : File → Prop}

theorem putTogether_of_reached (top : TopLayer resolve path content layer) {last : Layer}
    (reached : Relation.ReflTransGen (Layer.Triggers resolve) layer last) :
    ∃ parts, PutTogether resolve path content last parts := by
  rcases Relation.ReflTransGen.cases_tail reached with rfl | ⟨above, -, triggers⟩
  · obtain ⟨raw, merged, loaded, included, rfl⟩ := top
    exact ⟨_, .document loaded included⟩
  · obtain ⟨name, raw, includes, files, hasJob, starts, opens, made⟩ := triggers
    exact ⟨_, .child hasJob starts opens made⟩

theorem PutTogether.lines (together : PutTogether resolve path content layer parts) :
    HasLines parts layer.entries := by
  cases together with
  | document loaded included => exact merge_hasLines (isMappingOf_configuration loaded) included
  | child hasJob starts opens made =>
    rw [(childLayer_eq_some made).entries]
    exact (openedFiles_areFrom opens).lines

theorem PutTogether.jobPath (together : PutTogether resolve path content layer parts)
    (name : String) :
    ∃ file, parts file ∧ file.chain.getLast? = some (layer.jobPath name) := by
  cases together with
  | document loaded included => exact ⟨_, .refl, rfl⟩
  | child hasJob starts opens made =>
    have ⟨sameEntries, sameOrigins, places⟩ := childLayer_eq_some made
    obtain ⟨origin, member, same⟩ := List.mem_map.mp (places name)
    rw [← same]
    exact (openedFiles_areFrom opens).origins origin (sameOrigins ▸ member)

theorem PutTogether.readFrom (together : PutTogether resolve path content layer parts) {file : File}
    (part : parts file) :
    ∃ place found, file.ReadFrom place found ∧
      (place = path ∧ found = content ∨ resolve place = .ok (some found)) := by
  have lookup : ∀ target raw, opened resolve target = .ok (some raw) →
      ∃ content, resolve target = .ok (some content) ∧ IsMappingOf content raw :=
    fun _ _ => mapping_of_opened
  cases together with
  | document loaded included =>
    exact readFrom_of_reached lookup ⟨rfl, isMappingOf_configuration loaded⟩ part
  | child hasJob starts opens made =>
    obtain ⟨before, -, opens⟩ := Relation.TransGen.tail'_iff.mp part
    obtain ⟨place, found, read, looked⟩ := readFrom_of_opens lookup opens
    exact ⟨place, found, read, Or.inr looked⟩

end PutTogether

end SupplyLint.Gitlab
