import SupplyLint.Proofs.Gitlab.Configuration
import SupplyLint.Proofs.Gitlab.Includes
import SupplyLint.Proofs.Keyed

/-! # The files of child pipelines

The files that a trigger names are put together one after another, and each key
has the first file that has it as its origin. -/
set_option autoImplicit false

namespace SupplyLint.Gitlab

/-! ## Origins of keys -/

def addOrigin (target : String) (origins : Keyed String String) (key : String) :
    Keyed String String :=
  if origins.has key then origins else origins.put key target

def addOrigins (target : String) (origins : Keyed String String) (keys : List String) :
    Keyed String String :=
  keys.foldl (addOrigin target) origins

theorem mem_addOrigins {target : String} (keys : List String) {origins : Keyed String String}
    {origin : String × String} (member : origin ∈ addOrigins target origins keys) :
    origin ∈ origins ∨ origin.2 = target := by
  induction keys generalizing origins with
  | nil => exact Or.inl member
  | cons key rest ih =>
    rcases ih member with old | new
    · unfold addOrigin at old
      split at old
      · exact Or.inl old
      · exact (Keyed.value_of_mem_put old).symm
    · exact Or.inr new

theorem mem_keys_addOrigin {target first key : String} {origins : Keyed String String} :
    key ∈ (addOrigin target origins first).keys ↔ key ∈ origins.keys ∨ key = first := by
  unfold addOrigin
  by_cases has : origins.has first = true
  · rw [if_pos has, iff_self_or]
    rintro rfl
    exact Keyed.has_iff.mp has
  · rw [if_neg has, Keyed.keys_put, mem_addNew]

theorem mem_keys_addOrigins (target : String) (keys : List String) {origins : Keyed String String}
    {key : String} :
    key ∈ (addOrigins target origins keys).keys ↔ key ∈ origins.keys ∨ key ∈ keys := by
  induction keys generalizing origins with
  | nil => simp [addOrigins]
  | cons first rest ih =>
    have step := @mem_keys_addOrigin target first key origins
    rw [List.mem_cons, ← or_assoc, ← step]
    exact ih

theorem addOrigin_of_fresh {target key : String} {origins : Keyed String String}
    (fresh : key ∉ origins.keys) : addOrigin target origins key = origins ++ [(key, target)] := by
  rw [addOrigin, if_neg fun has => fresh (Keyed.has_iff.mp has), Keyed.put_of_not_mem fresh]

theorem mem_addOrigins_of_mem {target : String} (keys : List String) {origins : Keyed String String}
    {origin : String × String} (member : origin ∈ origins) :
    origin ∈ addOrigins target origins keys := by
  induction keys generalizing origins with
  | nil => exact member
  | cons first rest ih =>
    refine ih ?_
    by_cases known : first ∈ origins.keys
    · rwa [addOrigin, if_pos (Keyed.has_iff.mpr known)]
    · rw [addOrigin_of_fresh known]
      exact List.mem_append_left _ member

theorem mem_addOrigins_of_fresh {target : String} {keys : List String}
    {origins : Keyed String String} {key : String} (fresh : key ∉ origins.keys) (has : key ∈ keys) :
    (key, target) ∈ addOrigins target origins keys := by
  induction keys generalizing origins with
  | nil => exact absurd has List.not_mem_nil
  | cons first rest ih =>
    by_cases same : key = first
    · subst same
      refine mem_addOrigins_of_mem rest ?_
      rw [addOrigin_of_fresh fresh]
      exact List.mem_append_right _ List.mem_cons_self
    · refine ih (fun known => ?_) ((List.mem_cons.mp has).resolve_left same)
      exact (mem_keys_addOrigin.mp known).elim fresh same

/-! ## One file after another -/

theorem add_eq_ok {target : String} {file : Merged} {files more : ChildFiles}
    (added : files.add target file = .ok more) :
    ∃ keys, Value.toTexts (Field.names (.map file.entries)) = .ok keys ∧
      more = ⟨Field.merge files.entries file.entries, addOrigins target files.origins keys,
        files.references ++ file.references⟩ := by
  simp only [ChildFiles.add, bind_eq_ok, pure_eq_ok] at added
  obtain ⟨keys, texts, rfl⟩ := added
  exact ⟨keys, texts, rfl⟩

theorem outcome_childFiles_file {enter : String → Normalizing (Option Merged)}
    {path location written : String} {item : Value} (rest : List Value) (files : ChildFiles)
    (names : Include.ofValue item = .ok (.file written)) :
    outcome (childFiles enter path location (item :: rest) files) =
      outcome (enter (stripped written)) >>= fun
        | none => outcome (childFiles enter path location rest files)
        | some file => uncaught (files.add (stripped written) file) >>= fun more =>
            outcome (childFiles enter path location rest more) := by
  have found : outcome (liftM (Include.ofValue item) : Normalizing Include) =
      .ok (.file written) := by
    rw [outcome_fault, names]
    rfl
  rw [childFiles, outcome_bind, found, ok_bind]
  simp only [outcome_bind]
  refine congrArg _ (funext fun file => ?_)
  cases file with
  | none => rfl
  | some file =>
    simp only [outcome_bind, outcome_fault]
    rfl

section Items
variable {enter : String → Normalizing (Option Merged)} {path location : String}

/-- What an include does to the files of a child pipeline. A file that is opened is added to them
and a package is put to their references; nothing comes of anything else. -/
inductive Takes (enter : String → Normalizing (Option Merged)) (item : Value) (files : ChildFiles) :
    ChildFiles → Prop
  | file {written : String} {found : Merged} {more : ChildFiles}
      (names : Include.ofValue item = .ok (.file written))
      (opens : outcome (enter (stripped written)) = .ok (some found))
      (added : files.add (stripped written) found = .ok more) : Takes enter item files more
  | package {ref : Option PackageRef} (names : Include.ofValue item = .ok (.package ref)) :
      Takes enter item files { files with references := files.references ++ ref.toList }
  | nothing (noFile : ∀ written, Include.ofValue item = .ok (.file written) →
      outcome (enter (stripped written)) = .ok none) : Takes enter item files files

theorem childFiles_takes {item : Value} {rest : List Value} {files result : ChildFiles}
    (read : outcome (childFiles enter path location (item :: rest) files) = .ok result) :
    ∃ more, Takes enter item files more ∧
      outcome (childFiles enter path location rest more) = .ok result := by
  have noFile {what : Include} (names : Include.ofValue item = .ok what)
      (other : ∀ written, what ≠ .file written) (written : String)
      (file : Include.ofValue item = .ok (.file written)) :
      outcome (enter (stripped written)) = .ok none :=
    absurd (Except.ok.inj (names.symm.trans file)) (other written)
  simp only [childFiles, outcome_bind, bind_eq_ok, outcome_fault, uncaught_eq_ok] at read
  obtain ⟨what, names, read⟩ := read
  cases what with
  | file written =>
    simp only [outcome_bind, bind_eq_ok] at read
    obtain ⟨entered, opens, read⟩ := read
    cases entered with
    | none =>
      refine ⟨files, .nothing fun other same => ?_, read⟩
      obtain rfl := Include.file.inj (Except.ok.inj (names.symm.trans same))
      exact opens
    | some found =>
      simp only [outcome_bind, bind_eq_ok, outcome_fault, uncaught_eq_ok] at read
      obtain ⟨more, added, read⟩ := read
      exact ⟨more, .file names opens added, read⟩
  | package ref => exact ⟨_, .package names, read⟩
  | elsewhere what =>
    simp only [outcome_bind, elsewhereInclude, outcome_noted, ok_bind] at read
    exact ⟨files, .nothing (noFile names fun _ => Include.noConfusion), read⟩
  | malformed =>
    simp only [outcome_bind, malformedInclude, outcome_noted, ok_bind] at read
    exact ⟨files, .nothing (noFile names fun _ => Include.noConfusion), read⟩

/-- What holds at first of the files of a child pipeline, and is kept by what each include does to
them, holds in the end. -/
theorem childFiles_holds (holds : ChildFiles → Prop) (items : List Value)
    {files result : ChildFiles}
    (each : ∀ item ∈ items, ∀ before more, Takes enter item before more → holds before → holds more)
    (start : holds files)
    (read : outcome (childFiles enter path location items files) = .ok result) : holds result := by
  induction items generalizing files with
  | nil =>
    simp only [childFiles, outcome_pure, Except.ok.injEq] at read
    rwa [← read]
  | cons item rest ih =>
    obtain ⟨own, others⟩ := List.forall_mem_cons.mp each
    obtain ⟨more, takes, later⟩ := childFiles_takes read
    exact ih others (own files more takes start) later

end Items

end SupplyLint.Gitlab
