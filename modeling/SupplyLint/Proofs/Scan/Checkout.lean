import SupplyLint.Proofs.Config
import SupplyLint.Proofs.Document.Faults
import SupplyLint.Proofs.Document.Returns
import SupplyLint.Proofs.Scan.ItemOrder
import SupplyLint.Proofs.Scan.Organization
import SupplyLint.Scan.Checkout

/-! # Repositories that are folders

A folder gives its pipeline files and never fails, and nothing cancels its scan.
`returns_alone_iff`: the scan comes to an outcome exactly when the path of each
file can be matched with the patterns of the configuration and each document
can be read; otherwise it ends with a fault. -/
set_option autoImplicit false

namespace SupplyLint

theorem Scan.returns_keptFindings {config : Config} (lists : config.ListsRules) (rules : List Rule)
    (pipelines : List Pipeline) : Returns (keptFindings config rules pipelines) := by
  obtain ⟨ignored, listed⟩ := lists
  rw [keptFindings, returns_uncaught, Finding.filterBy, returns_filterM]
  intro finding _
  unfold Finding.isKept
  split
  · exact returns_ok _
  · simp [listed, Value.holds]

namespace Checkout
variable (checkout : Checkout)

/-! ## The files of a folder -/

theorem itemsOf_checked (name : String) (founds : List Found) {scene : Scene}
    (quiet : scene.cancelled = false) :
    itemsOf name (founds.flatMap fun found => [.check, .item (checkout.item found)]) scene =
      (founds.map checkout.item, none) := by
  induction founds with
  | nil => rfl
  | cons found rest ih =>
    have goesOn := Scan.checkCancelled_of_not_cancelled quiet name
    simp [itemsOf, Scene.after, goesOn, Except.map, ih]

theorem filesOf_repository (folder : checkout.tree.isFolder checkout.root = true) :
    Scan.filesOf checkout.repository = (checkout.pipelineFiles.map checkout.item, none) := by
  show itemsOf checkout.name checkout.happenings {} = _
  rw [happenings, if_pos folder]
  exact itemsOf_checked checkout checkout.name checkout.pipelineFiles rfl

theorem isQuiet_repository : Scan.IsQuiet checkout.repository := by
  show Happening.cancel ∉ checkout.happenings
  unfold happenings
  split <;> simp

theorem platform_of_platformAt {names : List String} {platform : Platform}
    (found : checkout.platformAt? names = some platform) :
    platform = .github ∨ platform = .gitlab := by
  unfold platformAt? at found
  dsimp only at found
  split at found
  · exact .inl (Option.some.inj found).symm
  · split at found
    · exact .inl (Option.some.inj found).symm
    · split at found
      · exact .inr (Option.some.inj found).symm
      · cases found

theorem platform_of_mem_pipelineFiles {found : Found} (member : found ∈ checkout.pipelineFiles) :
    found.platform = .github ∨ found.platform = .gitlab := by
  rw [pipelineFiles, List.mem_mergeSort, List.mem_filterMap] at member
  obtain ⟨names, -, made⟩ := member
  obtain ⟨platform, placed, rfl⟩ := Option.map_eq_some_iff.mp made
  exact checkout.platform_of_platformAt placed

theorem path_item (found : Found) : (checkout.item found).path = found.path := by
  unfold item
  split <;> rfl

theorem platform_of_item {found : Found} {document : Document}
    (made : (checkout.item found).document? = some document) :
    document.platform = found.platform := by
  unfold item at made
  split at made
  · obtain rfl := Option.some.inj made
    rfl
  · cases made

/-! ## What its scan comes to -/

def scannedDocuments (config : Config) : List Document :=
  (Scan.collectedOf config (checkout.pipelineFiles.map checkout.item)).documents

/-- Whether the files of a folder are excluded is known, and its other documents can be read. -/
structure CanBeScanned (config : Config) : Prop where
  matched : ∀ found ∈ checkout.pipelineFiles, Returns (config.excludes found.path)
  readable : ∀ document ∈ checkout.scannedDocuments config, document.IsReadable
    (Document.resolver (Document.byPath (checkout.scannedDocuments config)) checkout.read)

section Scan
variable {checkout} {config : Config} {rules : List Rule}

theorem known_of_mem_scannedDocuments {document : Document}
    (member : document ∈ checkout.scannedDocuments config) :
    document.platform = .github ∨ document.platform = .gitlab := by
  rw [scannedDocuments, Scan.documents_collectedOf] at member
  obtain ⟨item, inside, made⟩ := List.mem_filterMap.mp (List.mem_filter.mp member).1
  obtain ⟨found, listed, rfl⟩ := List.mem_map.mp inside
  rw [checkout.platform_of_item made]
  exact checkout.platform_of_mem_pipelineFiles listed

theorem forall_items_iff :
    (∀ item ∈ checkout.pipelineFiles.map checkout.item, Returns (config.excludes item.path)) ↔
      ∀ found ∈ checkout.pipelineFiles, Returns (config.excludes found.path) := by
  simp only [List.forall_mem_map, path_item]

theorem alone_of_matched (folder : checkout.tree.isFolder checkout.root = true)
    (matched : ∀ found ∈ checkout.pipelineFiles, Returns (config.excludes found.path)) :
    Scan.aloneResult config rules checkout.repository =
      Scan.outcomeOf config rules checkout.name checkout.read
        (Scan.collectedOf config (checkout.pipelineFiles.map checkout.item)) := by
  have files := checkout.filesOf_repository folder
  have given : ∀ item ∈ (Scan.filesOf checkout.repository).1, Returns
      (config.excludes item.path) := by
    rw [files]
    exact forall_items_iff.mpr matched
  refine (Scan.scan_of_matched checkout.isQuiet_repository given).trans ?_
  rw [files]
  rfl

theorem alone_of_not_matched (folder : checkout.tree.isFolder checkout.root = true)
    (unmatched : ¬ ∀ found ∈ checkout.pipelineFiles, Returns (config.excludes found.path)) :
    ∃ fault, Scan.aloneResult config rules checkout.repository = .error (.fault fault) := by
  rw [← forall_items_iff] at unmatched
  obtain ⟨item, inside, fault, fails⟩ := (Scan.fault_or_matched config _).resolve_right unmatched
  have given : item ∈ (Scan.filesOf checkout.repository).1 := by
    rw [checkout.filesOf_repository folder]
    exact inside
  exact ⟨fault, Scan.scan_of_unmatched given fails⟩

theorem faultsOnly_alone (config : Config) (rules : List Rule)
    (folder : checkout.tree.isFolder checkout.root = true) :
    FaultsOnly (Scan.aloneResult config rules checkout.repository) := by
  by_cases matched : ∀ found ∈ checkout.pipelineFiles, Returns (config.excludes found.path)
  · have lookups (path : String) : FaultsOnly (checkout.read path) := faultsOnly_uncaught _
    have reads : FaultsOnly (Document.readAll (checkout.scannedDocuments config) checkout.read) :=
      Document.faultsOnly_readAll lookups fun _ => known_of_mem_scannedDocuments
    rw [scannedDocuments] at reads
    rw [alone_of_matched folder matched]
    simp [Scan.outcomeOf, reads, Scan.keptFindings]
  · obtain ⟨fault, fails⟩ := alone_of_not_matched folder matched
    rw [fails]
    exact faultsOnly_fault fault

theorem succeeded_of_alone {outcome : Outcome}
    (scan : Scan.aloneResult config rules checkout.repository = .ok outcome) :
    outcome.succeeded = true := by
  obtain ⟨-, -, finished⟩ := Scan.collected_of_scan_eq_ok checkout.isQuiet_repository scan
  simp only [Scan.outcomeOf, bind_eq_ok] at finished
  obtain ⟨normalized, -, findings, -, made⟩ := finished
  obtain rfl := Except.ok.inj made
  rfl

theorem returns_alone_iff (lists : config.ListsRules)
    (folder : checkout.tree.isFolder checkout.root = true) :
    Returns (Scan.aloneResult config rules checkout.repository) ↔ checkout.CanBeScanned config := by
  by_cases matched : ∀ found ∈ checkout.pipelineFiles, Returns (config.excludes found.path)
  · have reads := Document.returns_readAll (checkout.scannedDocuments config) checkout.read
    rw [alone_of_matched folder matched, Scan.outcomeOf, ← scannedDocuments,
      returns_bind_of_forall, reads]
    · exact ⟨fun readable => ⟨matched, readable⟩, CanBeScanned.readable⟩
    · intro normalized _
      obtain ⟨kept, found⟩ := Scan.returns_keptFindings lists rules normalized.pipelines
      rw [found]
      exact returns_ok _
  · refine iff_of_false (fun returned => ?_) fun scanned => matched scanned.matched
    obtain ⟨fault, fails⟩ := alone_of_not_matched folder matched
    rw [fails] at returned
    exact not_returns_error _ returned

end Scan

end Checkout

end SupplyLint
