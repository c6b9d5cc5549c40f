import Mathlib.Data.List.Induction
import Mathlib.Data.List.Lex
import Mathlib.Data.List.Nodup
import Mathlib.Data.String.Basic
import SupplyLint.Proofs.Keyed
import SupplyLint.Proofs.Outcome
import SupplyLint.Proofs.Sorted
import SupplyLint.Tree.Basic

/-! # Trees below a root

In a file system every entry lies in a folder. What is at a place and below it can be
listed and reached by path, and nothing else of the tree matters for that.
`file?_eq_ok`: a place that is followed from the top leads to itself. -/
set_option autoImplicit false

namespace SupplyLint.Tree

def isEntryName (name : String) : Bool :=
  name != ".." && !name.contains '\x00'

/-- A tree without links: every entry lies in a folder and has a name that leads down to it. -/
structure IsFileSystem (tree : Tree) : Prop where
  folders : ∀ place ∈ tree.entries.keys, tree.isFolder place.dropLast = true
  names : ∀ place ∈ tree.entries.keys, ∀ name ∈ place, isEntryName name = true

def AgreeBelow (root : Place) (first second : Tree) : Prop :=
  ∀ names, first.get? (root ++ names) = second.get? (root ++ names)

section FileSystem
variable {tree : Tree} {place : Place}

theorem mem_keys_iff_isSome (nonempty : place ≠ []) :
    place ∈ tree.entries.keys ↔ (tree.get? place).isSome = true := by
  unfold get?
  rw [if_neg (by simpa using nonempty)]
  exact Keyed.has_iff.symm

theorem get?_of_isFolder (folder : tree.isFolder place = true) :
    tree.get? place = some .folder := by
  unfold isFolder at folder
  split at folder
  · assumption
  · cases folder

theorem get?_of_isFile (file : tree.isFile place = true) :
    ∃ content, tree.get? place = some (.file content) := by
  unfold isFile at file
  split at file
  · exact ⟨_, by assumption⟩
  · cases file

theorem bind_content? (tree : Tree) (place : Place) :
    (if tree.isFile place then some place else none).bind tree.content? = tree.content? place := by
  rcases here : tree.get? place with _ | content | _ <;> simp [isFile, content?, here]

theorem IsFileSystem.isFolder_of_append (system : tree.IsFileSystem) {names : List String}
    (entry : (tree.get? (place ++ names)).isSome = true) (below : names ≠ []) :
    tree.isFolder place = true := by
  induction names using List.reverseRecOn with
  | nil => exact absurd rfl below
  | append_singleton names name ih =>
    rw [← List.append_assoc, ← mem_keys_iff_isSome (by simp)] at entry
    have folder := system.folders _ entry
    rw [List.dropLast_concat] at folder
    by_cases last : names = []
    · rwa [last, List.append_nil] at folder
    · exact ih (by rw [get?_of_isFolder folder]; rfl) last

theorem IsFileSystem.isFolder_of_isFolder (system : tree.IsFileSystem) {names : List String}
    (folder : tree.isFolder (place ++ names) = true) : tree.isFolder place = true := by
  by_cases below : names = []
  · rwa [below, List.append_nil] at folder
  · exact system.isFolder_of_append (by rw [get?_of_isFolder folder]; rfl) below

theorem IsFileSystem.entryNames (system : tree.IsFileSystem) (folder : tree.isFolder place = true) :
    ∀ name ∈ place, isEntryName name = true := by
  by_cases top : place = []
  · simp [top]
  · refine system.names place ((mem_keys_iff_isSome top).mpr ?_)
    rw [get?_of_isFolder folder]
    rfl

end FileSystem

theorem step_of_isEntryName {name : String} (named : isEntryName name = true) (place : Place) :
    place.step name = place ++ [name] := by
  have down : (name == "..") = false := by
    rw [isEntryName, Bool.and_eq_true, bne_iff_ne] at named
    simpa using named.1
  rw [Place.step, down]
  rfl

theorem resolve_of_isEntryName {names : List String}
    (named : ∀ name ∈ names, isEntryName name = true) (place : Place) :
    names.foldl Place.step place = place ++ names := by
  induction names generalizing place with
  | nil => simp
  | cons name rest ih =>
    rw [List.forall_mem_cons] at named
    rw [List.foldl_cons, step_of_isEntryName named.1, ih named.2, List.append_assoc]
    rfl

/-! ## Following names -/

section Follow
variable {tree : Tree} {text : String}

/-- A way down through folders can fail only for a name that is too long. -/
theorem follow_append (system : tree.IsFileSystem) {above : Place} {root names : List String}
    (folder : tree.isFolder (above ++ root) = true) :
    tree.follow text above (root ++ names) =
      if root.any isLong then .error (.nameTooLong text)
      else tree.follow text (above ++ root) names := by
  induction root generalizing above with
  | nil => simp
  | cons name rest ih =>
    have here : tree.isFolder above = true := system.isFolder_of_isFolder folder
    have named : isEntryName name = true := system.entryNames folder name (by simp)
    rw [List.append_cons] at folder ⊢
    rw [List.cons_append, follow, here, List.any_cons]
    cases long : isLong name with
    | true => rfl
    | false =>
      rw [step_of_isEntryName named]
      exact ih folder

theorem follow_eq_some {place last : Place} {names : List String}
    (found : tree.follow text place names = .ok (some last)) :
      last = names.foldl Place.step place := by
  induction names generalizing place with
  | nil =>
    obtain rfl := Option.some.inj (Except.ok.inj found)
    rfl
  | cons name rest ih =>
    rw [follow] at found
    split at found
    · cases found
    · split at found
      · cases found
      · exact ih found

theorem follow_ne_none (system : tree.IsFileSystem) {place : Place} {names : List String}
    (entry : (tree.get? (place ++ names)).isSome = true)
    (named : ∀ name ∈ names, isEntryName name = true) :
    tree.follow text place names ≠ .ok none := by
  induction names generalizing place with
  | nil => simp [follow]
  | cons name rest ih =>
    have here : tree.isFolder place = true := system.isFolder_of_append entry (by simp)
    rw [List.forall_mem_cons] at named
    rw [follow, here]
    cases long : isLong name with
    | true => simp
    | false =>
      rw [step_of_isEntryName named.1]
      exact ih (by rwa [List.append_assoc]) named.2

theorem file?_ofPlace (tree : Tree) {place : Place}
    (named : ∀ name ∈ place, isEntryName name = true) :
    tree.file? [] (.ofPlace place) =
      if isLongPath (.ofPlace place) then .error (.nameTooLong (WrittenPath.ofPlace place).text)
      else tree.follow (WrittenPath.ofPlace place).text [] place >>= fun reached =>
        .ok (reached.filter tree.isFile) := by
  have noNull : (WrittenPath.ofPlace place).names.any (·.contains '\x00') = false := by
    rw [List.any_eq_false]
    intro name member
    have entry := named name member
    rw [isEntryName, Bool.and_eq_true, Bool.not_eq_true'] at entry
    simpa using entry.2
  rw [file?, noNull, if_neg Bool.false_ne_true]
  refine ite_congr rfl (fun _ => rfl) fun _ => ?_
  refine bind_congr_of_ok fun reached _ => ?_
  cases reached <;> rfl

/-- The file at a place, if there is one and the place can be asked for. -/
theorem file?_eq_ok (system : tree.IsFileSystem) {place : Place}
    (named : ∀ name ∈ place, isEntryName name = true) {found : Option Place}
    (read : tree.file? [] (.ofPlace place) = .ok found) :
    found = if tree.isFile place then some place else none := by
  rw [file?_ofPlace tree named] at read
  split at read
  · cases read
  · obtain ⟨reached, followed, read⟩ := bind_eq_ok.mp read
    obtain rfl := Except.ok.inj read
    cases reached with
    | none =>
      have noFile : ¬ tree.isFile place = true := by
        intro file
        obtain ⟨content, entry⟩ := get?_of_isFile file
        exact follow_ne_none system (by rw [List.nil_append, entry]; rfl) named followed
      rw [if_neg noFile]
      rfl
    | some last =>
      obtain rfl := follow_eq_some followed
      rw [resolve_of_isEntryName named, List.nil_append]
      rfl

end Follow

/-! ## Entries below a root -/

section Below
variable {tree : Tree} {root : Place}

theorem mem_places {place : Place} : place ∈ tree.places ↔ place ∈ tree.entries.keys := by
  rw [places, List.mem_mergeSort, mem_firsts]

theorem mem_below {names : List String} :
    names ∈ tree.below root ↔ names ≠ [] ∧ (tree.get? (root ++ names)).isSome = true := by
  rw [below, List.mem_filter, List.mem_filterMap, and_comm]
  simp only [Place.below?_eq_some, mem_places, exists_eq_right]
  rw [Bool.not_eq_true', List.isEmpty_eq_false_iff]
  exact and_congr_right fun nonempty => mem_keys_iff_isSome (by simp [nonempty])

theorem pairwise_places : tree.places.Pairwise fun earlier later => earlier < later := by
  have distinct : ((firsts tree.entries.keys).map id).Nodup := by
    rw [List.map_id]
    exact nodup_foldl_addNew _ List.nodup_nil
  have strict := (sortsBy_mergeSort_not_lt id (firsts tree.entries.keys)).strict distinct
  rw [List.map_id] at strict
  exact strict

theorem pairwise_below :
    (tree.below root).Pairwise fun earlier later => root ++ earlier < root ++ later := by
  refine List.Pairwise.filter _ (List.pairwise_filterMap.mpr ?_)
  refine pairwise_places.imp fun {earlier later} before => ?_
  intro names inside others also
  rw [Place.below?_eq_some] at inside also
  rwa [← inside, ← also]

theorem AgreeBelow.below {first second : Tree} (agree : AgreeBelow root first second) :
    first.below root = second.below root := by
  have nodup (tree : Tree) : (tree.below root).Nodup :=
    pairwise_below.imp fun {earlier later} before same => (same ▸ before).false
  have perm : (first.below root).Perm (second.below root) := by
    refine (List.perm_ext_iff_of_nodup (nodup first) (nodup second)).mpr fun names => ?_
    rw [mem_below, mem_below, agree names]
  refine perm.eq_of_pairwise ?_ pairwise_below pairwise_below
  intro x y _ _ before after
  exact absurd (before.trans after) (lt_irrefl _)

end Below

section Agree
variable {first second : Tree} {root : Place}

theorem AgreeBelow.isFile (agree : AgreeBelow root first second) (names : List String) :
    first.isFile (root ++ names) = second.isFile (root ++ names) := by
  rw [Tree.isFile, Tree.isFile, agree names]

theorem AgreeBelow.content? (agree : AgreeBelow root first second) (names : List String) :
    first.content? (root ++ names) = second.content? (root ++ names) := by
  rw [Tree.content?, Tree.content?, agree names]

theorem AgreeBelow.isFolder (agree : AgreeBelow root first second) (names : List String) :
    first.isFolder (root ++ names) = second.isFolder (root ++ names) := by
  rw [Tree.isFolder, Tree.isFolder, agree names]

theorem AgreeBelow.follow (agree : AgreeBelow root first second) (text : String)
    {names : List String} (named : ∀ name ∈ names, isEntryName name = true) (above : List String) :
    first.follow text (root ++ above) names = second.follow text (root ++ above) names := by
  induction names generalizing above with
  | nil => rfl
  | cons name rest ih =>
    rw [List.forall_mem_cons] at named
    rw [Tree.follow, Tree.follow, agree.isFolder, step_of_isEntryName named.1, List.append_assoc,
      ih named.2]

theorem AgreeBelow.file? (agree : AgreeBelow root first second) (system : first.IsFileSystem)
    (other : second.IsFileSystem) (folder : first.isFolder root = true) {names : List String}
    (named : ∀ name ∈ names, isEntryName name = true) :
    first.file? [] (.ofPlace (root ++ names)) = second.file? [] (.ofPlace (root ++ names)) := by
  have whole : ∀ name ∈ root ++ names, isEntryName name = true := by
    intro name member
    exact (List.mem_append.mp member).elim (system.entryNames folder name) (named name)
  have also : second.isFolder root = true := by
    rw [← List.append_nil root, ← agree.isFolder [], List.append_nil, folder]
  have same (text : String) :
      first.follow text [] (root ++ names) = second.follow text [] (root ++ names) := by
    have here := agree.follow text named []
    rw [List.append_nil] at here
    rw [follow_append system (by exact folder), follow_append other (by exact also),
      List.nil_append, here]
  rw [file?_ofPlace first whole, file?_ofPlace second whole, same]
  split
  · rfl
  · refine bind_congr_of_ok fun reached followed => ?_
    cases reached with
    | none => rfl
    | some last =>
      obtain rfl := follow_eq_some followed
      rw [resolve_of_isEntryName whole, List.nil_append, Option.filter, Option.filter, agree.isFile]

end Agree

end SupplyLint.Tree
