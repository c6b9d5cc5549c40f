/-! The items of a list, each once and where it first stands. -/
set_option autoImplicit false

namespace SupplyLint

variable {α : Type} [BEq α]

def addNew (seen : List α) (item : α) : List α :=
  if seen.contains item then seen else seen ++ [item]

def firsts (items : List α) : List α :=
  items.foldl addNew []

theorem mem_addNew [LawfulBEq α] {seen : List α} {item x : α} :
    x ∈ addNew seen item ↔ x ∈ seen ∨ x = item := by
  unfold addNew
  split
  · next inside =>
    have found : item ∈ seen := by simpa using inside
    constructor
    · exact Or.inl
    · rintro (old | rfl)
      · exact old
      · exact found
  · simp

theorem nodup_addNew [LawfulBEq α] {seen : List α} {item : α} (distinct : seen.Nodup) :
    (addNew seen item).Nodup := by
  unfold addNew
  split
  · exact distinct
  · next outside =>
    have fresh : item ∉ seen := by simpa using outside
    rw [List.nodup_append]
    refine ⟨distinct, by simp, ?_⟩
    intro a old b new same
    have : b = item := by simpa using new
    exact fresh (this ▸ same ▸ old)

end SupplyLint
