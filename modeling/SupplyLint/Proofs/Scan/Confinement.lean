import SupplyLint.Proofs.Tree
import SupplyLint.Scan.Checkout
import SupplyLint.Scan.Run

/-! # Scans that stay inside their root

The files of a repository name other files by paths that can lead anywhere.
`scan_depends_only_on_root`: whatever they name, what lies outside the root of a
repository changes nothing of its scan, and only a file below the root is ever read. -/
set_option autoImplicit false

namespace SupplyLint.Checkout

open SupplyLint.Tree (AgreeBelow IsFileSystem isEntryName)

theorem reach_cons_eq_ok {place last : Place} {name : String} {rest : List String}
    (reached : reach place (name :: rest) = .ok last) :
    (name = ".." ∨ isEntryName name = true) ∧ reach (place.step name) rest = .ok last := by
  rw [reach] at reached
  by_cases up : name = ".."
  · subst up
    exact ⟨Or.inl rfl, reached⟩
  · rw [if_pos (by simpa using up)] at reached
    cases run : Text.surrogateRunInName? (place.step name).text with
    | some run =>
      rw [run] at reached
      cases reached
    | none =>
      rw [run] at reached
      cases null : name.contains '\x00' with
      | true =>
        rw [null] at reached
        cases reached
      | false =>
        rw [null] at reached
        exact ⟨Or.inr (by simp [isEntryName, up, null]), reached⟩

theorem reach_eq_ok {place last : Place} {names : List String}
    (reached : reach place names = .ok last) : last = names.foldl Place.step place := by
  induction names generalizing place with
  | nil =>
    obtain rfl := Except.ok.inj reached
    rfl
  | cons name rest ih => exact ih (reach_cons_eq_ok reached).2

/-- A place that is reached has names of entries only, since what goes up is resolved. -/
theorem entryNames_of_reach {place last : Place} {names : List String}
    (named : ∀ name ∈ place, isEntryName name = true) (reached : reach place names = .ok last) :
    ∀ name ∈ last, isEntryName name = true := by
  induction names generalizing place with
  | nil =>
    obtain rfl := Except.ok.inj reached
    exact named
  | cons name rest ih =>
    obtain ⟨upOrDown, later⟩ := reach_cons_eq_ok reached
    refine ih (fun inner member => ?_) later
    rcases upOrDown with rfl | down
    · exact named inner (List.dropLast_subset _ member)
    · rw [Tree.step_of_isEntryName down, List.mem_append, List.mem_singleton] at member
      exact member.elim (named inner) fun same => same ▸ down

/-! ## The files of a repository -/

section Agree
variable {first second : Tree} {root : Place} {name : String}

theorem pipelineFiles_congr (agree : AgreeBelow root first second) :
    pipelineFiles ⟨first, root, name⟩ = pipelineFiles ⟨second, root, name⟩ := by
  have platform (names : List String) :
      platformAt? ⟨first, root, name⟩ names = platformAt? ⟨second, root, name⟩ names := by
    simp only [platformAt?, agree.isFile]
  simp only [pipelineFiles, agree.below, platform]

theorem happenings_congr (agree : AgreeBelow root first second) :
    happenings ⟨first, root, name⟩ = happenings ⟨second, root, name⟩ := by
  have folder := agree.isFolder []
  rw [List.append_nil] at folder
  have items (found : Found) :
      item ⟨first, root, name⟩ found = item ⟨second, root, name⟩ found := by
    simp only [item, agree.content?]
  simp only [happenings, folder, pipelineFiles_congr agree, items]

end Agree

section Document
variable {tree : Tree} {root : Place} {name : String}

theorem document?_eq (path : String) :
    document? ⟨tree, root, name⟩ path =
      reach ((WrittenPath.ofText path).start root) (WrittenPath.ofText path).names >>= fun place =>
        match root.below? place with
        | some (_ :: _) => (tree.file? [] (.ofPlace place)).map fun file =>
            (file.bind tree.content?).map fun content => ⟨platformOf path, path, content⟩
        | _ => .ok none := by
  refine bind_congr_of_ok fun place reached => ?_
  show (match root.below? place with
    | some (_ :: _) => _
    | _ => _ : Except Fault (Option Document)) = _
  cases root.below? place with
  | none => rfl
  | some names =>
    cases names with
    | nil => rfl
    | cons inner rest => cases tree.file? [] (.ofPlace place) <;> rfl

theorem entryNames_of_path (system : tree.IsFileSystem) (folder : tree.isFolder root = true)
    {path : WrittenPath} {place : Place}
    (reached : reach (path.start root) path.names = .ok place) :
    ∀ name ∈ place, isEntryName name = true := by
  refine entryNames_of_reach (fun inner member => ?_) reached
  unfold WrittenPath.start at member
  split at member
  · cases member
  · exact system.entryNames folder inner member

/-- A document holds what is in the file to which its path leads, and that file is below the
root. -/
def IsDocumentAt (checkout : Checkout) (path : String) (document : Document) : Prop :=
  document.path = path ∧ document.platform = platformOf path ∧
    ∃ names, names ≠ [] ∧
      (WrittenPath.ofText path).resolve checkout.root = checkout.root ++ names ∧
      checkout.tree.content? (checkout.root ++ names) = some document.content

theorem document?_eq_ok (system : tree.IsFileSystem) (folder : tree.isFolder root = true)
    {path : String} {found : Option Document}
    (read : document? ⟨tree, root, name⟩ path = .ok found) (document : Document) :
    found = some document ↔ IsDocumentAt ⟨tree, root, name⟩ path document := by
  rw [document?_eq] at read
  obtain ⟨place, reached, read⟩ := bind_eq_ok.mp read
  have named := entryNames_of_path system folder reached
  obtain rfl : place = (WrittenPath.ofText path).resolve root := reach_eq_ok reached
  split at read
  · next first rest inside =>
    rw [Place.below?_eq_some] at inside
    obtain ⟨file, opened, rfl⟩ := map_eq_ok.mp read
    obtain rfl := Tree.file?_eq_ok system named opened
    rw [Tree.bind_content?, Option.map_eq_some_iff, inside]
    constructor
    · rintro ⟨content, held, rfl⟩
      exact ⟨rfl, rfl, first :: rest, by simp, inside, held⟩
    · rintro ⟨path, platform, names, -, same, held⟩
      rw [List.append_cancel_left (inside.symm.trans same)]
      exact ⟨document.content, held, by rw [← platform, ← path]⟩
  · next leads =>
    obtain rfl := Except.ok.inj read
    refine ⟨fun nothing => absurd nothing (by simp), ?_⟩
    rintro ⟨-, -, names, inside, place, -⟩
    obtain ⟨first, rest, rfl⟩ := List.exists_cons_of_ne_nil inside
    exact absurd (Place.below?_eq_some.mpr place) (leads first rest)

end Document

section Agree
variable {first second : Tree} {root : Place} {name : String}

theorem document?_congr (agree : AgreeBelow root first second) (system : first.IsFileSystem)
    (other : second.IsFileSystem) (folder : first.isFolder root = true) (path : String) :
    document? ⟨first, root, name⟩ path = document? ⟨second, root, name⟩ path := by
  rw [document?_eq, document?_eq]
  refine bind_congr_of_ok fun place reached => ?_
  have named := entryNames_of_path system folder reached
  cases inside : root.below? place with
  | none => rfl
  | some names =>
    cases names with
    | nil => rfl
    | cons inner rest =>
      obtain rfl := Place.below?_eq_some.mp inside
      have same := agree.file? system other folder
        fun name member => named name (List.mem_append_right root member)
      show Except.map _ _ = Except.map _ _
      rw [← same]
      cases read : first.file? [] (.ofPlace (root ++ inner :: rest)) with
      | error fault => rfl
      | ok file =>
        obtain rfl := Tree.file?_eq_ok system named read
        split
        · simp only [Except.map, Option.bind_some, agree.content?]
        · rfl

theorem read_congr (agree : AgreeBelow root first second) (system : first.IsFileSystem)
    (other : second.IsFileSystem) (folder : first.isFolder root = true) :
    read ⟨first, root, name⟩ = read ⟨second, root, name⟩ := by
  funext path
  rw [read, read, document?_congr agree system other folder]

end Agree

theorem scanRepository_of_fail {repository : Repository} {failure : Failure}
    (fails : ∀ cloned, repository.documents cloned = [.fail failure]) (config : Config)
    (rules : List Rule) (cancelledThen : Bool) (scene : Scene) (read : Resolver) :
    Scan.scanRepository config rules { repository with read := read } cancelledThen scene =
      Scan.scanRepository config rules repository cancelledThen scene := by
  simp only [Scan.scanRepository, fails, Scan.collect, Scene.after]

/-- The scan of a repository depends only on what lies at its root and below it. Another file of the
repository is read only where the path leads below the root. -/
theorem scan_depends_only_on_root {first second : Tree} (system : first.IsFileSystem)
    (other : second.IsFileSystem) {root : Place} (agree : AgreeBelow root first second)
    (name : String) :
    (∀ config rules cancelledThen scene,
      Scan.scanRepository config rules (repository ⟨first, root, name⟩) cancelledThen scene =
        Scan.scanRepository config rules (repository ⟨second, root, name⟩) cancelledThen scene) ∧
    (first.isFolder root = true → ∀ path found,
      document? ⟨first, root, name⟩ path = .ok found → ∀ document,
        found = some document ↔ IsDocumentAt ⟨first, root, name⟩ path document) := by
  refine ⟨fun config rules cancelledThen scene => ?_,
    fun folder path found read => document?_eq_ok system folder read⟩
  have same : happenings ⟨first, root, name⟩ = happenings ⟨second, root, name⟩ :=
    happenings_congr agree
  cases folder : first.isFolder root with
  | true =>
    have reads : read ⟨first, root, name⟩ = read ⟨second, root, name⟩ :=
      read_congr agree system other folder
    rw [repository, repository, same, reads]
  | false =>
    have fails : happenings ⟨first, root, name⟩ = [.fail (noFolder root name)] := by
      rw [happenings, if_neg (by simp [folder])]
    have swapped : { repository ⟨first, root, name⟩ with read := read ⟨second, root, name⟩ } =
        repository ⟨second, root, name⟩ := by
      rw [repository, repository, same]
    rw [← swapped]
    exact (scanRepository_of_fail (fun _ => fails) config rules cancelledThen scene _).symm

/-! ## Two folders that hold the same repository -/

def besideText : List UInt8 :=
  "include: /../s.yml\n".toUTF8.toList

def beside (content : List UInt8) : Tree :=
  ⟨[(["r"], .folder), (["r", ".gitlab-ci.yml"], .file besideText), (["s.yml"], .file content)]⟩

theorem isFileSystem_beside (content : List UInt8) : (beside content).IsFileSystem where
  folders := by simp [beside, Keyed.keys, Tree.isFolder, Tree.get?, Keyed.get?]
  names := by simp [beside, Keyed.keys, Tree.isEntryName]

theorem agree_beside (first second : List UInt8) :
    AgreeBelow ["r"] (beside first) (beside second) := by
  intro names
  simp [beside, Tree.get?, Keyed.get?]

theorem document?_beside (content : List UInt8) :
    document? ⟨beside content, ["r"], "r"⟩ "../s.yml" = .ok none := by
  have path : WrittenPath.ofText "../s.yml" = ⟨"", ["..", "s.yml"]⟩ := rfl
  have reached : reach ["r"] ["..", "s.yml"] = .ok ["s.yml"] := by
    have noRun : Text.surrogateRunInName? (Place.text ["s.yml"]) = none := by decide +kernel
    simp [reach, Place.step, noRun]
  rw [document?_eq, path]
  show reach ["r"] ["..", "s.yml"] >>= _ = _
  rw [reached]
  rfl

theorem scan_depends_only_on_root_beside :
    (beside []).IsFileSystem ∧ (beside [10]).IsFileSystem ∧
    AgreeBelow ["r"] (beside []) (beside [10]) ∧ beside [] ≠ beside [10] ∧
    (beside []).isFolder ["r"] = true ∧
    document? ⟨beside [], ["r"], "r"⟩ "../s.yml" = .ok none ∧
    (∀ config rules cancelledThen scene,
      Scan.scanRepository config rules (repository ⟨beside [], ["r"], "r"⟩) cancelledThen scene =
        Scan.scanRepository config rules (repository ⟨beside [10], ["r"], "r"⟩) cancelledThen
          scene) ∧
    ∀ document, ¬ IsDocumentAt ⟨beside [], ["r"], "r"⟩ "../s.yml" document := by
  have system := isFileSystem_beside []
  have other := isFileSystem_beside [10]
  have agree := agree_beside [] [10]
  have folder : (beside []).isFolder ["r"] = true := rfl
  have read := document?_beside []
  obtain ⟨scans, reads⟩ := scan_depends_only_on_root system other agree "r"
  refine ⟨system, other, agree, by simp [beside], folder, read, scans, fun document here => ?_⟩
  cases (reads folder _ _ read document).mpr here

end SupplyLint.Checkout
