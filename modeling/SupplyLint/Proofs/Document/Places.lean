import SupplyLint.Proofs.Document.Jobs
import SupplyLint.Proofs.Document.Origins
import SupplyLint.Proofs.Document.Repository
import SupplyLint.Proofs.Document.Rules
import SupplyLint.Proofs.Gitlab.Lines
import SupplyLint.Proofs.Rule.Places

/-! # The places of findings

`finding_line_is_of_job`: a finding with a line is about a job, and a file of the
repository has the mapping of that job, or of the step, at that line. It is the
file that the finding names, unless several files are put together into the
configuration that the job is in, or the path of the file is empty. -/
set_option autoImplicit false

namespace SupplyLint

/-! ## Mappings of jobs and steps -/

/-- The mapping that a job is written as in the entries of a file: one under the jobs of a workflow,
the runs of an action, or what a configuration has under the key of the job. -/
inductive Job.MappingIn (job : Job) (raw own : Entries) : Platform → String → Prop
  | workflow {path : String} {key : Value} (named : key.toText = .ok job.originName)
      (listed : (key, .map own) ∈ Field.entries (Value.field raw "jobs")) :
      MappingIn job raw own .github path
  | action {path : String} (isAction : Github.isActionMetadata path = true)
      (runs : Value.field raw "runs" = .map own) : MappingIn job raw own .github path
  | configuration {path : String} {key other : Value} (named : key.toText = .ok job.originName)
      (merges : Gitlab.MergesInto key other) (listed : (other, .map own) ∈ raw) :
      MappingIn job raw own .gitlab path

/-- The mapping of a job, or of the step at a position, starts at a line of a content. -/
inductive Job.StartsIn (content : List UInt8) (own : Entries) (line : Nat) : Option Int → Prop
  | job (starts : Yaml.StartsIn content line own) : StartsIn content own line none
  | step {position : Int} {items : List Value} {entries : Entries}
      (listed : Value.field own "steps" = .list items)
      (item : items[position.toNat]? = some (.map entries))
      (starts : Yaml.StartsIn content line entries) : StartsIn content own line (some position)

/-- A content has, at a line, the mapping that a job, or a step of it, is written as. -/
def Job.IsAt (job : Job) (platform : Platform) (path : String) (content : List UInt8)
    (position : Option Int) (line : Int) : Prop :=
  ∃ raw own start, IsMappingOf content raw ∧ job.MappingIn raw own platform path ∧
    line = ((start : Nat) : Int) ∧ Job.StartsIn content own start position

/-- The line of a job, or of a step of it. -/
def Job.HasLine (job : Job) (position : Option Int) (line : Int) : Prop :=
  match position with
  | none => job.line = some line
  | some position => ∃ step ∈ job.steps, step.position = position ∧ step.line = some line

theorem Yaml.Holds.field {content : List UInt8} {entries : Entries} {value : Value} {name : String}
    (holds : Yaml.Holds content (.map entries)) (own : Value.field entries name = value)
    (inner : ¬ Yaml.IsScalar value) : Yaml.Holds content value := by
  unfold Value.field at own
  cases found : Keyed.get? entries (.text name) with
  | none =>
    rw [found] at own
    subst own
    exact absurd trivial inner
  | some held =>
    rw [found, Option.getD_some] at own
    subst own
    obtain ⟨key, member⟩ := Keyed.exists_mem_of_get? found
    exact holds.entry member inner

theorem Yaml.Holds.startsIn {content : List UInt8} {entries : Entries} {line : Int}
    (holds : Yaml.Holds content (.map entries)) (own : Field.line (.map entries) = some line) :
    ∃ start : Nat, line = start ∧ Yaml.StartsIn content start entries := by
  obtain ⟨start, starts, marker⟩ := holds.starts
  simp only [Field.line, Field.lineEntry, Value.field, marker, Option.getD_some,
    Option.some.injEq] at own
  exact ⟨start, own.symm, starts⟩

theorem Job.WrittenAs.startsIn {content : List UInt8} {own : Entries} {job : Job}
    {position : Option Int} {line : Int} (written : job.WrittenAs own)
    (holds : Yaml.Holds content (.map own)) (hasLine : job.HasLine position line) :
    ∃ start : Nat, line = start ∧ Job.StartsIn content own start position := by
  cases position with
  | none =>
    obtain ⟨start, same, starts⟩ := holds.startsIn (written.line.symm.trans hasLine)
    exact ⟨start, same, .job starts⟩
  | some position =>
    obtain ⟨step, member, rfl, found⟩ := hasLine
    obtain ⟨items, entries, listed, item, own⟩ := written.steps step member line found
    have whole : Yaml.Holds content (.list items) := holds.field listed id
    obtain ⟨start, same, starts⟩ := (whole.item (List.mem_of_getElem? item)).startsIn own
    exact ⟨start, same, .step listed item starts⟩

/-! ## Findings -/

/-- A finding reports a job of a pipeline: in the file that is known for it, under the name that it
has there. -/
structure Finding.Reports (finding : Finding) (pipeline : Pipeline) (job : Job) : Prop where
  member : job ∈ pipeline.jobs.values
  index : finding.jobIndex = some job.index
  name : finding.job = if job.originName = "" then job.name else job.originName
  path : finding.path = if job.originPath = "" then pipeline.path else job.originPath

theorem Finding.IsAbout.reports {pipeline : Pipeline} {finding : Finding} {line : Int}
    (about : finding.IsAbout pipeline) (hasLine : finding.line = some line) :
    ∃ job, finding.Reports pipeline job ∧ job.HasLine finding.step line := by
  obtain ⟨rule, title, message, _, _, evidence, holds, rfl⟩ := about
  cases holds with
  | whole => cases hasLine
  | @job job member => exact ⟨job, ⟨member, rfl, rfl, rfl⟩, hasLine⟩
  | @step job step member inside =>
    exact ⟨job, ⟨member, rfl, rfl, rfl⟩, step, inside, rfl, hasLine⟩

namespace Document

/-! ## Files -/

def Opened (resolve : Resolver) (document : Document) (path : String)
    (content : List UInt8) : Prop :=
  path = document.path ∧ content = document.content ∨ resolve path = .ok (some content)

/-- A repository has a file: a document, or what is found where no document has the path. -/
def HasFile (documents : List Document) (fallback : Resolver) (path : String)
    (content : List UInt8) : Prop :=
  (∃ document ∈ documents, document.path = path ∧ document.content = content) ∨
    fallback path = .ok (some content)

theorem Opened.hasFile {documents : List Document} {fallback : Resolver} {document : Document}
    {path : String} {content : List UInt8}
    (opened : document.Opened (resolver (byPath documents) fallback) path content)
    (member : document ∈ documents) : HasFile documents fallback path content := by
  rcases opened with ⟨rfl, rfl⟩ | looked
  · exact Or.inl ⟨document, member, rfl, rfl⟩
  · unfold resolver at looked
    split at looked
    · next other found =>
      have named := List.find?_some found
      have listed := List.mem_of_find?_eq_some found
      rw [List.mem_reverse, byPath, List.mem_mergeSort] at listed
      obtain rfl := Option.some.inj (Except.ok.inj looked)
      exact Or.inl ⟨other, listed, eq_of_beq named, rfl⟩
    · exact Or.inr looked

def JoinedFrom (resolve : Resolver) (document : Document) (job : Job) (path : String) : Prop :=
  document.platform = .gitlab ∧ ∃ layer last parts,
    Gitlab.TopLayer resolve document.path document.content layer ∧
    Relation.ReflTransGen (Gitlab.Layer.Triggers resolve) layer last ∧
    Gitlab.WrittenIn last job ∧
    Gitlab.PutTogether resolve document.path document.content last parts ∧
    path ≠ job.originPath ∧
    (∃ file, parts file ∧ file.chain.getLast? = some path) ∧
    ∃ file, parts file ∧ file.chain.getLast? = some job.originPath

section Places
variable {resolve : Resolver} {document : Document} {job : Job} {position : Option Int} {line : Int}

theorem github_isAt {raw : Entries} (platform : document.platform = .github)
    (loaded : Github.entriesOf document.path document.content = .ok (some raw))
    (origin : Github.Origin resolve document.path raw job) (hasLine : job.HasLine position line) :
    ∃ content, document.Opened resolve job.originPath content ∧
      job.IsAt document.platform job.originPath content position line := by
  have mapping := Github.isMappingOf_entriesOf loaded
  rw [platform]
  rcases origin with ⟨isAction, path, runs, field, written⟩ | ⟨-, last, place, reached, here, path,
    key, own, listed, named, written⟩
  · have holds : Yaml.Holds document.content (.map runs) := mapping.holds.field field id
    obtain ⟨start, same, starts⟩ := written.startsIn holds hasLine
    refine ⟨document.content, Or.inl ⟨path, rfl⟩, raw, runs, start, mapping, ?_, same, starts⟩
    exact .action (path ▸ isAction) field
  · obtain ⟨other, content, ⟨there, readFrom⟩, opened⟩ :=
      readFrom_of_reached (fun _ _ => Github.mapping_of_opened) ⟨rfl, mapping⟩ reached
    obtain rfl := Option.some.inj (there.symm.trans here)
    obtain ⟨jobs, field, member⟩ : ∃ jobs, Value.field last.entries "jobs" = .map jobs ∧
        (key, .map own) ∈ jobs := by
      unfold Field.entries at listed
      split at listed
      · next jobs field => exact ⟨jobs, field, (List.mem_filter.mp listed).1⟩
      · exact absurd listed List.not_mem_nil
    have inJobs : Yaml.Holds content (.map jobs) := readFrom.holds.field field id
    obtain ⟨start, same, starts⟩ := written.startsIn (inJobs.entry member id) hasLine
    rw [path]
    exact ⟨content, opened, last.entries, own, start, readFrom,
      .workflow named listed, same, starts⟩

theorem gitlab_isAt {layer last : Gitlab.Layer} (platform : document.platform = .gitlab)
    (top : Gitlab.TopLayer resolve document.path document.content layer)
    (reached : Relation.ReflTransGen (Gitlab.Layer.Triggers resolve) layer last)
    (written : Gitlab.WrittenIn last job) (hasLine : job.HasLine position line) :
    ∃ path content, document.Opened resolve path content ∧
      job.IsAt document.platform path content position line ∧
      (path = job.originPath ∨ JoinedFrom resolve document job path) := by
  obtain ⟨parts, together⟩ := Gitlab.putTogether_of_reached top reached
  obtain ⟨raw, hasJob, jobLine⟩ := written.mapping
  obtain ⟨file, part, key, other, own, named, merges, member, sameLine⟩ :=
    together.lines.job hasJob
  obtain ⟨path, content, ⟨here, mapping⟩, opened⟩ := together.readFrom part
  refine ⟨path, content, opened, ?_, ?_⟩
  · cases position with
    | none =>
      have ownLine : Field.line (.map own) = some line := by
        rw [← sameLine, ← jobLine]
        exact hasLine
      obtain ⟨start, same, starts⟩ := (mapping.holds.entry member id).startsIn ownLine
      rw [platform]
      exact ⟨file.entries, own, start, mapping, .configuration named merges member, same,
        .job starts⟩
    | some position =>
      obtain ⟨step, inside, -, found⟩ := hasLine
      rw [written.steps step inside] at found
      cases found
  · refine or_iff_not_imp_left.mpr fun differs => ?_
    obtain ⟨reportedIn, there⟩ := together.jobPath job.originName
    rw [← written.path] at there
    exact ⟨platform, layer, last, parts, top, reached, written, together,
      differs, ⟨file, part, here⟩, reportedIn, there⟩

theorem Origin.isAt (origin : Origin resolve document job) (hasLine : job.HasLine position line) :
    ∃ path content, document.Opened resolve path content ∧
      job.IsAt document.platform path content position line ∧
      (path = job.originPath ∨ JoinedFrom resolve document job path) := by
  rcases origin with ⟨platform, raw, loaded, origin⟩ |
      ⟨platform, layer, top, last, reached, written⟩
  · obtain ⟨content, opened, isAt⟩ := github_isAt platform loaded origin hasLine
    exact ⟨job.originPath, content, opened, isAt, Or.inl rfl⟩
  · exact gitlab_isAt platform top reached written hasLine

end Places

/-! ## Files with one job -/

structure Place where
  path : String
  line : Option Int
  deriving DecidableEq

def runnerPlaces (normalized : Normalized) : List (List Int × Option (List Place)) :=
  normalized.pipelines.map
    (Rule.SelfHostedRunner.reported fun finding => ⟨finding.path, finding.line⟩)

theorem finding_of_runnerPlaces {read : Except Failure Normalized} {place : Place}
    (places : read.toOption.map runnerPlaces = some [([0], some [place])]) :
    ∃ normalized, read = .ok normalized ∧ ∃ pipeline ∈ normalized.pipelines,
      ∃ finding ∈ Rule.evaluate Rule.standard.rules pipeline,
        finding.path = place.path ∧ finding.line = place.line := by
  obtain ⟨normalized, found, listed⟩ := toOption_map_eq_some.mp places
  obtain ⟨pipeline, rest, one, reports, -⟩ := List.map_eq_cons_iff.mp listed
  obtain ⟨findings, checked, located⟩ := Rule.SelfHostedRunner.check_of_reported reports rfl
  obtain ⟨finding, later, rfl, rfl, -⟩ := List.map_eq_cons_iff.mp located
  refine ⟨normalized, found, pipeline, by simp [one], finding, ?_, rfl, rfl⟩
  let rule : Rule := ⟨Rule.SelfHostedRunner.id, Rule.SelfHostedRunner.check⟩
  have isStandard : rule ∈ Rule.standard.rules := by simp [rule, standard_rules, Rule.standardRules]
  exact Rule.mem_evaluate_of_check isStandard checked List.mem_cons_self

def lineOf : Yaml.Node → Option Nat
  | .mapping _ line _ => some line
  | _ => none

def mappingLines (content : List UInt8) : Yaml.Reading (List Nat) := do
  return (Yaml.documents (← Yaml.decodeStream content)).1.flatMap fun document =>
    document.nodes.toList.filterMap lineOf

theorem mem_mappingLines {content : List UInt8} {line : Nat} {entries : Entries} {lines : List Nat}
    (found : mappingLines content = .ok lines) (starts : Yaml.StartsIn content line entries) :
    line ∈ lines := by
  obtain ⟨document, whole, made, id, reads, -, tag, pairs, node⟩ := starts
  obtain ⟨stream, decoded, inside⟩ := reads.listed
  simp only [mappingLines, decoded, ok_bind, pure_eq_ok] at found
  subst found
  refine List.mem_flatMap.mpr ⟨document, inside,
    List.mem_filterMap.mpr ⟨.mapping tag line pairs, ?_, rfl⟩⟩
  · by_cases bound : id < document.nodes.size
    · rw [Array.getD_eq_getD_getElem?, Array.getElem?_eq_getElem bound, Option.getD_some] at node
      rw [← node, Array.mem_toList_iff]
      exact Array.getElem_mem bound
    · rw [Array.getD_eq_getD_getElem?, Array.getElem?_eq_none (Nat.le_of_not_lt bound)] at node
      cases node

theorem finding_line_is_of_job {documents : List Document} {fallback : Resolver}
    {normalized : Normalized} (read : readAll documents fallback = .ok normalized)
    {pipeline : Pipeline} (member : pipeline ∈ normalized.pipelines) {finding : Finding}
    (reported : finding ∈ Rule.evaluate Rule.standard.rules pipeline) {line : Int}
    (hasLine : finding.line = some line) :
    ∃ document ∈ documents,
      outcome (document.pipeline (resolver (byPath documents) fallback)) = .ok pipeline ∧
      ∃ job, finding.Reports pipeline job ∧
        ∃ path content, HasFile documents fallback path content ∧
        job.IsAt document.platform path content finding.step line ∧
        (path = finding.path ∨ path = "" ∧ finding.path = document.path ∨
          JoinedFrom (resolver (byPath documents) fallback) document job path) := by
  obtain ⟨⟨pipelines, all, each⟩, -, -⟩ := readAll_reads read
  rw [all, List.nil_append] at member
  obtain ⟨document, listed, pipelineRead⟩ := exists_of_mem_forall₂ each member
  have inDocuments : document ∈ documents := List.mem_mergeSort.mp listed
  rw [standard_rules] at reported
  have about := Rule.isAbout_of_mem_evaluate Rule.locates_standardRules reported
  obtain ⟨job, reports, jobLine⟩ := about.reports hasLine
  have origin := (pipeline_origins pipelineRead).of_mem_values reports.member
  obtain ⟨path, content, opened, isAt, same⟩ := origin.isAt jobLine
  refine ⟨document, inDocuments, pipelineRead, job, reports, path, content,
    opened.hasFile inDocuments, isAt, ?_⟩
  have place := reports.path
  rcases same with rfl | joined
  · by_cases nameless : job.originPath = ""
    · rw [if_pos nameless, pipeline_path pipelineRead] at place
      exact Or.inr (Or.inl ⟨nameless, place⟩)
    · rw [if_neg nameless] at place
      exact Or.inl place.symm
  · exact Or.inr (Or.inr joined)

def runnerWorkflow : Document :=
  ofText .github "w.yml" "jobs:\n x:\n  runs-on: s\n"

theorem workflow_job_is_at_its_line :
    ∃ normalized, readAll [runnerWorkflow] Source.none = .ok normalized ∧
      ∃ pipeline ∈ normalized.pipelines, ∃ finding ∈ Rule.evaluate Rule.standard.rules pipeline,
        finding.path = "w.yml" ∧ finding.line = some 3 ∧
        ∃ job, finding.Reports pipeline job ∧
          job.IsAt .github "w.yml" runnerWorkflow.content finding.step 3 := by
  have places : (readAll [runnerWorkflow] Source.none).toOption.map runnerPlaces =
      some [([0], some [⟨"w.yml", some 3⟩])] := by decide +kernel
  obtain ⟨normalized, read, pipeline, member, finding, reported, path, line⟩ :=
    finding_of_runnerPlaces places
  obtain ⟨document, listed, -, job, reports, place, content, hasFile, isAt, -⟩ :=
    finding_line_is_of_job read member reported line
  obtain rfl := List.mem_singleton.mp listed
  refine ⟨normalized, read, pipeline, member, finding, reported, path, line, job, reports, ?_⟩
  rcases hasFile with ⟨document, listed, rfl, rfl⟩ | looked
  · rw [List.mem_singleton.mp listed] at isAt
    exact isAt
  · cases looked

def includingFile : Document :=
  ofText .gitlab "a.yml" "include: b.yml\n"

/-- The mapping of the included job starts at the second line, and the including file has no such
line. -/
theorem included_job_is_reported_elsewhere :
    ∃ normalized, readAll [includingFile] (oneFile "b.yml" "x:\n script: a\n tags: s\n") =
        .ok normalized ∧
      ∃ pipeline ∈ normalized.pipelines, ∃ finding ∈ Rule.evaluate Rule.standard.rules pipeline,
        finding.path = "a.yml" ∧ finding.line = some 2 ∧
        ∀ content, HasFile [includingFile] (oneFile "b.yml" "x:\n script: a\n tags: s\n") "a.yml"
            content → ∀ entries, ¬ Yaml.StartsIn content 2 entries := by
  have places : (readAll [includingFile]
      (oneFile "b.yml" "x:\n script: a\n tags: s\n")).toOption.map runnerPlaces =
        some [([0], some [⟨"a.yml", some 2⟩])] := by decide +kernel
  obtain ⟨normalized, read, pipeline, member, finding, reported, path, line⟩ :=
    finding_of_runnerPlaces places
  refine ⟨normalized, read, pipeline, member, finding, reported, path, line, ?_⟩
  intro content hasFile entries starts
  have lines : (mappingLines includingFile.content).toOption = some [1] := by decide +kernel
  have same : content = includingFile.content := by
    rcases hasFile with ⟨document, listed, -, rfl⟩ | looked
    · rw [List.mem_singleton.mp listed]
    · cases looked
  rw [same] at starts
  have member := mem_mappingLines (toOption_eq_some.mp lines) starts
  exact absurd member (by decide)

end Document

end SupplyLint
