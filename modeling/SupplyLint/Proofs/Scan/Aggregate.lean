import SupplyLint.Proofs.Firsts
import SupplyLint.Proofs.Rule.Order
import SupplyLint.Scan.Aggregate

/-! # The findings of a repository as one list

What several pipelines report alike is reported once, as it first stands, and
the list is sorted by file. `aggregate_spec`: nothing is lost, nothing is made
up, and findings with one place in the order stand as they first stood. -/
set_option autoImplicit false

namespace SupplyLint.Finding

theorem firstsByKey_eq (findings : List Finding) : firstsByKey findings = firstsOn key findings :=
  foldl_eq_firstsOn (fun seen finding => by simp [addNewKey]) findings

def merged (findings : List Finding) : List Finding :=
  (firstsOn key findings).map rated

theorem map_key_merged (findings : List Finding) :
    (merged findings).map key = (firstsOn key findings).map key := by
  rw [merged, List.map_map]
  rfl

/-! ## Sorted by file -/

/-- What a finding has its place in a repository by: its file, and its place in a pipeline. -/
def pathKey (finding : Finding) : String ×ₗ Int ×ₗ Int ×ₗ String ×ₗ List (List Nat ×ₗ List Nat) :=
  toLex (finding.path, sortKey finding)

theorem comparesBy_compareByPath : ComparesBy compareByPath pathKey :=
  (comparesBy_compareOn fun finding : Finding => finding.path).lex comparesBy_compare

theorem sortsBy_aggregate (lists : List (List Finding)) :
    SortsBy pathKey (merged lists.flatten) (aggregate lists) := by
  rw [merged, ← firstsByKey_eq]
  exact comparesBy_compareByPath.sortsBy _

theorem key_mem_aggregate (lists : List (List Finding)) (key : Key) :
    key ∈ (aggregate lists).map Finding.key ↔ key ∈ lists.flatten.map Finding.key := by
  rw [((sortsBy_aggregate lists).perm.map Finding.key).mem_iff, map_key_merged, key_mem_firstsOn]

theorem nodup_aggregate (lists : List (List Finding)) :
    ((aggregate lists).map Finding.key).Nodup := by
  rw [((sortsBy_aggregate lists).perm.map Finding.key).nodup_iff, map_key_merged]
  exact nodup_firstsOn _

section Members
variable {lists : List (List Finding)} {finding : Finding}

theorem mem_aggregate_iff :
    finding ∈ aggregate lists ↔ ∃ first ∈ firstsOn key lists.flatten, first.rated = finding := by
  rw [(sortsBy_aggregate lists).perm.mem_iff, merged, List.mem_map]

theorem first_of_mem_aggregate (member : finding ∈ aggregate lists) :
    ∃ first, lists.flatten.find? (·.key = finding.key) = some first ∧
      finding = { first with severity := severityFor first.rule } := by
  obtain ⟨first, kept, rfl⟩ := mem_aggregate_iff.mp member
  exact ⟨first, find?_of_mem_firstsOn kept, rfl⟩

theorem mem_of_mem_aggregate (member : finding ∈ aggregate lists) :
    ∃ list ∈ lists, ∃ own ∈ list, finding = own.rated := by
  obtain ⟨own, kept, rfl⟩ := mem_aggregate_iff.mp member
  obtain ⟨list, inside, here⟩ := List.mem_flatten.mp ((firstsOn_sublist _).subset kept)
  exact ⟨list, inside, own, here, rfl⟩

end Members

end SupplyLint.Finding
