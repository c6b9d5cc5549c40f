import SupplyLint.Proofs.Outcome
import SupplyLint.Package.Reference

/-! # What references hold

References to actions, images and components have a text as their ref, or none.
The ref of a GitLab project is whatever value the document gives it. -/
set_option autoImplicit false

namespace SupplyLint.PackageRef

def hashedSchemes : List String :=
  [imageScheme, actionScheme, gitlabScheme]

def IsWritten (package : PackageRef) : Prop :=
  package.ref.present = false ∨ ∃ text, package.ref = .text text

def IsHashed (package : PackageRef) : Prop :=
  package.scheme ∈ hashedSchemes

def IsTextual (package : PackageRef) : Prop :=
  package.IsHashed ∧ package.IsWritten

/-- A reference that can be looked up for a variable and a hash: a variable stands in its name, or
its ref is absent, a text, or a collection in which the mark of a variable is an item or a key. -/
def IsCheckable (package : PackageRef) : Prop :=
  Text.contains package.name "$" = true ∨ package.IsWritten ∨ package.ref.holds "$" = .ok true

theorem present_refPart (text : Option (List Char)) :
    (refPart text).present = false ∨ ∃ written, refPart text = .text written := by
  match text with
  | none => exact Or.inl rfl
  | some [] => exact Or.inl rfl
  | some (c :: rest) => exact Or.inr ⟨String.ofList (c :: rest), rfl⟩

theorem ofImage_eq_some {text : String} {package : PackageRef}
    (made : ofImage text = some package) :
    package.scheme = imageScheme ∧ package.IsWritten := by
  unfold ofImage at made
  dsimp only at made
  split at made
  all_goals
    split at made
    · cases made
    · obtain rfl := Option.some.inj made
      exact ⟨rfl, present_refPart _⟩

theorem ofAction_eq_some {text : String} {package : PackageRef}
    (made : ofAction text = some package) :
    package.scheme ∈ hashedSchemes ∧ package.IsWritten := by
  unfold ofAction at made
  dsimp only at made
  split at made
  · cases made
  · split at made
    · obtain ⟨scheme, written⟩ := ofImage_eq_some made
      exact ⟨by simp [hashedSchemes, scheme], written⟩
    · split at made
      · split at made
        · cases made
        · obtain rfl := Option.some.inj made
          refine ⟨by simp [hashedSchemes], ?_⟩
          dsimp only [IsWritten]
          exact present_refPart _
      · cases made

theorem ofGitlabProject_eq_some {project : String} {ref : Value} {package : PackageRef}
    (made : ofGitlabProject project ref = some package) : package.scheme ∈ hashedSchemes := by
  unfold ofGitlabProject at made
  dsimp only at made
  split at made
  · cases made
  · obtain rfl := Option.some.inj made
    simp [hashedSchemes]

theorem ofGitlabComponent_eq_some {text : String} {package : PackageRef}
    (made : ofGitlabComponent text = some package) : package.scheme ∈ hashedSchemes := by
  unfold ofGitlabComponent at made
  dsimp only at made
  split at made
  · cases made
  · exact ofGitlabProject_eq_some made

/-! ## Names of GitLab projects and components -/

def projectName (project : String) : String :=
  Text.trimChars ['/'] (Text.trim project)

/-- The segments of the path of a component, without the host that it may begin with. -/
def withoutHost : List (List Char) → List (List Char)
  | host :: next :: more => if host.contains '.' then next :: more else host :: next :: more
  | segments => segments

def componentName (text : String) : String :=
  projectName ("/".intercalate ((withoutHost (Text.pieces '/'
    (splitRef (Text.trimBy Text.isBlank text.toList)).1)).map String.ofList))

theorem ofGitlabProject_eq_none_iff {project : String} {ref : Value} :
    ofGitlabProject project ref = none ↔ projectName project = "" := by
  unfold ofGitlabProject projectName
  dsimp only
  split
  · next empty => exact iff_of_true rfl empty
  · next named => exact iff_of_false (by simp) named

theorem ofGitlabComponent_eq_none_iff {text : String} :
    ofGitlabComponent text = none ↔ componentName text = "" := by
  unfold ofGitlabComponent componentName
  dsimp only
  split
  · next empty =>
    rw [List.isEmpty_iff.mp empty]
    exact iff_of_true rfl (by decide +kernel)
  · rw [ofGitlabProject_eq_none_iff]
    rcases Text.pieces '/' (splitRef (Text.trimBy Text.isBlank text.toList)).1 with
      _ | ⟨host, _ | ⟨next, more⟩⟩
    · rfl
    · rfl
    · rfl

/-! ## Hashes and variables -/

theorem returns_searchable (value : Value) : Returns value.searchable ↔
    ∃ text, value = .text text := by
  cases value with
  | text s => simp [Value.searchable]
  | _ => simp [Value.searchable]

theorem returns_refHas (form : String → Bool) (package : PackageRef) :
    Returns (refHas form package.ref) ↔ package.IsWritten := by
  unfold refHas IsWritten
  by_cases present : package.ref.present = true
  · rw [if_pos present, returns_except_map, returns_searchable]
    simp [present]
  · simp [present]

theorem isTemplated_eq_true_iff (package : PackageRef) :
    package.isTemplated = .ok true ↔
      Text.contains package.name "$" = true ∨
        package.ref.present = true ∧ package.ref.holds "$" = .ok true := by
  unfold isTemplated
  by_cases inName : Text.contains package.name "$" = true
  · simp [inName]
  · by_cases present : package.ref.present = true
    · simp [inName, present]
    · simp [inName, present]

theorem isTemplated_eq_false_of_isWritten {package : PackageRef} (written : package.IsWritten)
    (plain : package.isTemplated ≠ .ok true) : package.isTemplated = .ok false := by
  unfold isTemplated at plain ⊢
  by_cases inName : Text.contains package.name "$" = true
  · simp [inName] at plain
  · rw [if_neg inName] at plain ⊢
    rcases written with absent | ⟨text, found⟩
    · simp [absent]
    · rw [found] at plain ⊢
      by_cases present : (Value.text text).present = true
      · rw [if_pos present, Value.holds] at plain ⊢
        simpa using plain
      · rw [if_neg present]

theorem returns_address {package : PackageRef} (written : package.IsWritten) :
    Returns package.address := by
  unfold address
  dsimp only
  rcases written with absent | ⟨text, found⟩
  · rw [absent, if_neg Bool.false_ne_true]
    exact returns_pure _
  · rw [found]
    split
    · simp [Value.toText]
    · exact returns_pure _

end SupplyLint.PackageRef
