import Mathlib.Data.List.Induction
import Mathlib.Data.List.Nodup

/-! # The first item of each key

Of the items of a list that have one key the first is kept, where it stands. What
is kept of two lists one after another is what is kept of the first, and then what
is kept of the second and has no key of the first. -/
set_option autoImplicit false

namespace SupplyLint

variable {α κ : Type} [DecidableEq κ] {key : α → κ}

/-- The items that stand first with their keys. -/
def firstsOn (key : α → κ) : List α → List α
  | [] => []
  | item :: rest => item :: (firstsOn key rest).filter fun other => key other ≠ key item

theorem firstsOn_sublist (items : List α) : (firstsOn key items).Sublist items := by
  induction items with
  | nil => exact List.nil_sublist []
  | cons item rest ih => exact (List.filter_sublist.trans ih).cons_cons item

theorem key_mem_firstsOn {items : List α} {k : κ} :
    k ∈ (firstsOn key items).map key ↔ k ∈ items.map key := by
  refine ⟨fun member => ((firstsOn_sublist items).map key).subset member, fun member => ?_⟩
  induction items with
  | nil => exact absurd member List.not_mem_nil
  | cons item rest ih =>
    rw [firstsOn, List.map_cons, List.mem_cons]
    by_cases here : k = key item
    · exact .inl here
    · have later := ih ((List.mem_cons.mp member).resolve_left here)
      obtain ⟨other, inside, rfl⟩ := List.mem_map.mp later
      exact .inr (List.mem_map_of_mem (List.mem_filter.mpr ⟨inside, by simpa using here⟩))

theorem nodup_firstsOn (items : List α) : ((firstsOn key items).map key).Nodup := by
  induction items with
  | nil => exact List.nodup_nil
  | cons item rest ih =>
    rw [firstsOn, List.map_cons, List.nodup_cons]
    refine ⟨fun again => ?_, ih.sublist (List.filter_sublist.map key)⟩
    obtain ⟨other, inside, same⟩ := List.mem_map.mp again
    exact absurd same (by simpa using (List.mem_filter.mp inside).2)

theorem firstsOn_of_nodup {items : List α} (distinct : (items.map key).Nodup) :
    firstsOn key items = items := by
  induction items with
  | nil => rfl
  | cons item rest ih =>
    rw [List.map_cons, List.nodup_cons] at distinct
    rw [firstsOn, ih distinct.2]
    refine congrArg (item :: ·) (List.filter_eq_self.mpr fun other inside => ?_)
    simpa using fun same => distinct.1 (List.mem_map.mpr ⟨other, inside, same⟩)

theorem firstsOn_append (first second : List α) :
    firstsOn key (first ++ second) =
      firstsOn key first ++ (firstsOn key second).filter fun item => key item ∉ first.map key := by
  induction first with
  | nil => simp [firstsOn]
  | cons item rest ih =>
    rw [List.cons_append, firstsOn, ih, firstsOn, List.filter_append, List.filter_filter,
      List.cons_append]
    congr 3
    funext other
    simp

theorem find?_of_mem_firstsOn {items : List α} {item : α} (member : item ∈ firstsOn key items) :
    items.find? (key · = key item) = some item := by
  induction items with
  | nil => exact absurd member List.not_mem_nil
  | cons first rest ih =>
    rcases List.mem_cons.mp member with rfl | later
    · exact List.find?_cons_of_pos (by simp)
    · obtain ⟨inside, differs⟩ := List.mem_filter.mp later
      rw [List.find?_cons_of_neg (by simpa using fun same => of_decide_eq_true differs same.symm)]
      exact ih inside

theorem firstsOn_filter {keeps : α → Bool} (alike : ∀ x y, key x = key y → keeps x = keeps y)
    (items : List α) : firstsOn key (items.filter keeps) = (firstsOn key items).filter keeps := by
  induction items with
  | nil => rfl
  | cons item rest ih =>
    cases kept : keeps item with
    | true =>
      rw [List.filter_cons_of_pos kept, firstsOn, ih, firstsOn, List.filter_cons_of_pos kept]
      rw [List.filter_comm]
    | false =>
      rw [List.filter_cons_of_neg (by simp [kept]), ih, firstsOn,
        List.filter_cons_of_neg (by simp [kept]), List.filter_filter]
      refine List.filter_congr fun other _ => ?_
      by_cases same : key other = key item
      · simp [alike other item same, kept]
      · simp [same]

theorem foldl_eq_firstsOn {add : List α → α → List α}
    (adds : ∀ seen item, add seen item = if key item ∈ seen.map key then seen else seen ++ [item])
    (items : List α) : items.foldl add [] = firstsOn key items := by
  induction items using List.reverseRec with
  | nil => rfl
  | append_singleton items item ih =>
    rw [List.foldl_append, ih, List.foldl_cons, List.foldl_nil, adds, firstsOn_append]
    by_cases old : key item ∈ items.map key
    · rw [if_pos (key_mem_firstsOn.mpr old), firstsOn, firstsOn,
        List.filter_cons_of_neg (by simpa using old)]
      simp
    · rw [if_neg (mt key_mem_firstsOn.mp old), firstsOn, firstsOn,
        List.filter_cons_of_pos (by simpa using old)]
      simp

end SupplyLint
