import SupplyLint.Proofs.Github.Origins

/-! # The permissions of jobs

`normalize_nearest`: a job has the permissions that are declared nearest to it, in
its own mapping or else in the innermost of the files through which it is called.
What the workflow at the top declares stays with the pipeline and reaches no job. -/
set_option autoImplicit false

namespace SupplyLint.Github

open SupplyLint.Jobs

/-! ## Trails of calls -/

/-- Files that are opened one after another, each for a caller in the file before it. -/
inductive Trail (resolve : Resolver) : File → List String → List File → Prop
  | here (file : File) : Trail resolve file [] []
  | through {file next : File} {caller : String} {callers : List String} {files : List File}
      (first : OpensAs resolve file caller next) (later : Trail resolve next callers files) :
      Trail resolve file (caller :: callers) (next :: files)

/-- The permissions declared nearest to a mapping at the end of some files, the last of which is the
innermost one. -/
def nearest (mapping : Entries) (files : List File) : Option (Keyed String String) :=
  (declared mapping).or (files.reverse.findSome? fun file => declared file.entries)

@[simp] theorem nearest_nil (mapping : Entries) : nearest mapping [] = declared mapping := by
  simp [nearest]

theorem nearest_cons (mapping : Entries) (file : File) (files : List File) :
    nearest mapping (file :: files) = (nearest mapping files).or (declared file.entries) := by
  simp [nearest, List.findSome?_append, Option.or_assoc]

theorem nearest_eq_none_iff {mapping : Entries} {files : List File} :
    nearest mapping files = none ↔
      ¬ Declares mapping ∧ ∀ file ∈ files, ¬ Declares file.entries := by
  simp [nearest, declared_eq_none_iff]

/-! ## Jobs at the end of a trail -/

/-- A job is written as a mapping under the jobs of a file, with what it calls. -/
structure WrittenAt (file : File) (mapping : Entries) (found : Job) : Prop where
  path : file.chain.getLast? = some found.originPath
  listed : ∃ key, (key, .map mapping) ∈ Field.entries (Value.field file.entries "jobs") ∧
    key.toText = .ok found.originName
  written : found.WrittenAs mapping
  uses : usesText (Value.field mapping "uses") = .ok found.uses

/-- A job comes through callers and the files that they open, and has the nearest permissions. -/
structure ComesWith (resolve : Resolver) (file : File) (callers : List String) (files : List File)
    (mapping : Entries) (found : Job) : Prop where
  trail : Trail resolve file callers files
  written : WrittenAt (files.getLastD file) mapping found
  named : found.name = underCallers callers found.originName
  permissions : found.permissions = nearest mapping files

/-- Permissions are declared somewhere on the way to a job. -/
def HasNearest (resolve : Resolver) (file : File) (found : Job) : Prop :=
  ∃ callers files mapping, ComesWith resolve file callers files mapping found

theorem hasNearest_ignoresOrder (resolve : Resolver) (file : File) :
    IgnoresOrder (HasNearest resolve file) := by
  rintro job index needs
    ⟨callers, files, mapping, trail, ⟨path, listed, ⟨line, steps⟩, uses⟩, named,
    permissions⟩
  exact ⟨callers, files, mapping, trail, ⟨path, listed, ⟨line, steps⟩, uses⟩, named, permissions⟩

theorem comesWith_of_job {resolve : Resolver} {file : File} {path name : String} {index : Nat}
    {key : Value} {mapping : Entries} {own : Job} (last : file.chain.getLast? = some path)
    (member : (key, .map mapping) ∈ Field.entries (Value.field file.entries "jobs"))
    (named : key.toText = .ok name) (wrote : outcome (job path name index mapping) = .ok own) :
    ComesWith resolve file [] [] mapping own := by
  have source := job_writtenAs wrote
  obtain ⟨lines, uses, labels, granted, env, waited, -, usesRead, -, grantedRead, -, -, rfl⟩ :=
    job_eq_ok wrote
  refine ⟨.here file, ⟨last, ⟨key, member, named⟩, source, usesRead⟩, rfl, ?_⟩
  rw [nearest_nil]
  exact permissions_eq_ok grantedRead

theorem ComesWith.adopted {resolve : Resolver} {file next : File} {caller : String}
    {callers : List String} {files : List File} {mapping : Entries} {found : Job}
    (opens : OpensAs resolve file caller next)
    (comes : ComesWith resolve next callers files mapping found) :
    ComesWith resolve file (caller :: callers) (next :: files) mapping
      (adopted caller (declared next.entries) found) where
  trail := .through opens comes.trail
  written := by
    obtain ⟨path, listed, ⟨line, steps⟩, uses⟩ := comes.written
    rw [List.getLastD_cons]
    exact ⟨path, listed, ⟨line, steps⟩, uses⟩
  named := congrArg (caller ++ "/" ++ ·) comes.named
  permissions := by
    rw [nearest_cons, ← comes.permissions]
    rfl

theorem workflow_nearest {resolve : Resolver} {file : File} {path : String} {pipeline : Pipeline}
    (last : file.chain.getLast? = some path)
    (read : outcome (workflow resolve (maxFiles - file.chain.length) file.chain path file.entries) =
      .ok pipeline) : Every (HasNearest resolve file) pipeline.jobs := by
  refine every_workflow (hasNearest_ignoresOrder resolve) ?_ ?_ last read
  · intro file path key mapping name index own last member named wrote
    exact ⟨[], [], mapping, comesWith_of_job last member named wrote⟩
  · rintro file name next opens job ⟨callers, files, mapping, comes⟩
    exact ⟨name :: callers, next :: files, mapping, comes.adopted opens⟩

theorem normalize_nearest {resolve : Resolver} {path : String}
    {content : List UInt8} {raw : Entries}
    {pipeline : Pipeline} (holds : entriesOf path content = .ok (some raw))
    (isWorkflow : isActionMetadata path = false)
    (read : outcome (normalize resolve path content) = .ok pipeline) :
    pipeline.platform = .github ∧ pipeline.permissions = declared raw ∧
      Every (HasNearest resolve ⟨[path], raw⟩) pipeline.jobs := by
  rw [outcome_normalize, holds] at read
  have read : outcome (pipelineOf resolve path raw) = .ok pipeline := read
  rw [pipelineOf, if_neg (by simp [isWorkflow])] at read
  have nearest : Every (HasNearest resolve ⟨[path], raw⟩) pipeline.jobs := workflow_nearest rfl read
  rw [workflow_eq] at read
  refine ⟨?_, workflowWith_permissions read, nearest⟩
  obtain ⟨_, _, _, -, -, rfl⟩ := workflowWith_eq_ok read
  rfl

end SupplyLint.Github
