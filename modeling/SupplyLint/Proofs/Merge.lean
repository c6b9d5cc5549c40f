import SupplyLint.Pipeline.Field
import SupplyLint.Proofs.Keyed
import SupplyLint.Proofs.Value.Equality

/-! # What merging keeps

Merging puts the entries of one mapping into another. Keys stay distinct, and
where nothing is there yet, the entries are put in as they are. Under a text,
what is put in last is found. -/
set_option autoImplicit false

namespace SupplyLint

theorem Value.beq_text_iff {value : Value} {name : String} :
    (value == Value.text name) = true ↔ value = .text name := by
  constructor
  · intro same
    cases value with
    | text other => rw [eq_of_beq (show (other == name) = true from same)]
    | float x =>
      have same : Value.same (.float x) (.text name) = true := same
      simp [Value.same, Value.number?] at same
    | _ => cases same
  · rintro rfl
    exact beq_self_eq_true name

theorem Value.text_beq_iff {value : Value} {name : String} :
    (Value.text name == value) = true ↔ value = .text name := by
  constructor
  · intro same
    cases value with
    | text other => rw [eq_of_beq (show (name == other) = true from same)]
    | _ => cases same
  · rintro rfl
    exact beq_self_eq_true name

/-! ## Entries that are put in -/

namespace Keyed

variable {κ ν : Type} [BEq κ]

theorem get?_of_absent {entries : Keyed κ ν} {key : κ}
    (absent : ∀ entry ∈ entries, (entry.1 == key) = false) : entries.get? key = none := by
  induction entries with
  | nil => rfl
  | cons entry rest ih =>
    rw [List.forall_mem_cons] at absent
    simp [get?, absent.1, ih absent.2]

theorem put_of_absent {entries : Keyed κ ν} {key : κ}
    (absent : ∀ entry ∈ entries, (entry.1 == key) = false) (value : ν) :
    entries.put key value = entries ++ [(key, value)] := by
  induction entries with
  | nil => rfl
  | cons entry rest ih =>
    rw [List.forall_mem_cons] at absent
    simp [put, absent.1, ih absent.2]

theorem get?_put_of_differs [PartialEquivBEq κ] {entries : Keyed κ ν} {key other : κ}
    (differs : (key == other) = false) (value : ν) :
    (entries.put key value).get? other = entries.get? other := by
  induction entries with
  | nil => simp [put, get?, differs]
  | cons entry rest ih =>
    obtain ⟨k, v⟩ := entry
    by_cases same : (k == key) = true
    · have apart : (k == other) = false := by rw [BEq.congr_left same, differs]
      simp [put, get?, same, apart]
    · simp [put, get?, same, ih]

theorem mem_put_of_differs {entries : Keyed κ ν} {entry : κ × ν} {key : κ}
    (member : entry ∈ entries)
    (differs : (entry.1 == key) = false) (value : ν) : entry ∈ entries.put key value := by
  induction entries with
  | nil => cases member
  | cons first rest ih =>
    obtain ⟨k, v⟩ := first
    rcases List.mem_cons.mp member with rfl | later
    · simp [put, differs]
    · by_cases same : (k == key) = true
      · simp [put, same, later]
      · simp [put, same, ih later]

theorem exists_mem_put (entries : Keyed κ ν) (key : κ) (value : ν) :
    ∃ other, (other, value) ∈ entries.put key value ∧ (other = key ∨ (other == key) = true) := by
  induction entries with
  | nil => exact ⟨key, List.mem_singleton_self _, Or.inl rfl⟩
  | cons first rest ih =>
    obtain ⟨k, v⟩ := first
    by_cases same : (k == key) = true
    · exact ⟨k, by simp [put, same], Or.inr same⟩
    · obtain ⟨other, inside, equal⟩ := ih
      exact ⟨other, by simp [put, same, inside], equal⟩

end Keyed

namespace Field

open SupplyLint.Keyed (Distinct)

theorem distinct_merge (upper : Entries) {base : Entries} (distinct : Distinct base) :
    Distinct (merge base upper) := by
  induction upper generalizing base with
  | nil => exact distinct
  | cons entry rest ih =>
    have put : Distinct (mergeEntry base entry) := by
      rw [mergeEntry]
      exact distinct.put _ _
    rw [merge]
    exact ih put

theorem mergeValue_none (value : Value) : mergeValue none value = value := by
  cases value <;> rfl

theorem mergeValue_of_not_map {value : Value} (plain : isMapping value = false)
    (below : Option Value) : mergeValue below value = value := by
  cases value with
  | map entries => cases plain
  | _ => rfl

theorem mergeValue_eq_map {below : Option Value} {value : Value} {mapping : Entries}
    (merged : mergeValue below value = .map mapping) :
    ∃ upper, value = .map upper ∧
      (mapping = upper ∨ ∃ lower, below = some (.map lower) ∧ mapping = merge lower upper) := by
  cases value with
  | map upper =>
    refine ⟨upper, rfl, ?_⟩
    unfold mergeValue at merged
    split at merged
    · exact Or.inr ⟨_, rfl, (Value.map.inj merged).symm⟩
    · exact Or.inl (Value.map.inj merged).symm
  | _ => cases merged

theorem merge_of_distinct (upper : Entries) {base : Entries} (distinct : Distinct (base ++ upper)) :
    merge base upper = base ++ upper := by
  induction upper generalizing base with
  | nil => simp [merge]
  | cons entry rest ih =>
    obtain ⟨key, value⟩ := entry
    have absent : ∀ other ∈ base, (other.1 == key) = false := by
      intro other member
      exact (List.pairwise_append.mp distinct).2.2 other member (key, value) List.mem_cons_self
    have put : mergeEntry base (key, value) = base ++ [(key, value)] := by
      rw [mergeEntry, Keyed.get?_of_absent absent, mergeValue_none, Keyed.put_of_absent absent]
    rw [merge, put, ih (by simpa using distinct)]
    simp

theorem merge_nil {entries : Entries} (distinct : Distinct entries) : merge [] entries = entries :=
  merge_of_distinct entries distinct

theorem get?_put_text {entries : Entries} {key : Value} {name : String} (other : key ≠ .text name)
    (value : Value) :
    (entries.put key value).get? (.text name) = entries.get? (.text name) := by
  induction entries with
  | nil =>
    have differs : (key == Value.text name) = false :=
      Bool.eq_false_iff.mpr fun same => other (Value.beq_text_iff.mp same)
    simp [Keyed.put, Keyed.get?, differs]
  | cons entry rest ih =>
    obtain ⟨k, v⟩ := entry
    by_cases same : (k == key) = true
    · have differs : (k == Value.text name) = false := by
        refine Bool.eq_false_iff.mpr fun here => other ?_
        rw [Value.beq_text_iff.mp here] at same
        exact Value.text_beq_iff.mp same
      simp [Keyed.put, Keyed.get?, same, differs]
    · simp [Keyed.put, Keyed.get?, same, ih]

theorem get?_erase_text {entries : Entries} {name other : String} (differs : name ≠ other) :
    (entries.erase (.text other)).get? (.text name) = entries.get? (.text name) := by
  induction entries with
  | nil => rfl
  | cons entry rest ih =>
    obtain ⟨k, v⟩ := entry
    by_cases erased : (k == Value.text other) = true
    · have absent : (k == Value.text name) = false := by
        refine Bool.eq_false_iff.mpr fun same => differs ?_
        rw [Value.beq_text_iff.mp same] at erased
        exact Value.text.inj (Value.beq_text_iff.mp erased)
      simpa [Keyed.erase, Keyed.get?, erased, absent] using ih
    · by_cases here : (k == Value.text name) = true
      · simp [Keyed.erase, Keyed.get?, erased, here]
      · simpa [Keyed.erase, Keyed.get?, erased, here] using ih

theorem get?_merge_of_absent (upper : Entries) {base : Entries} {name : String}
    (absent : ∀ entry ∈ upper, entry.1 ≠ .text name) :
    (merge base upper).get? (.text name) = base.get? (.text name) := by
  induction upper generalizing base with
  | nil => rfl
  | cons entry rest ih =>
    obtain ⟨key, value⟩ := entry
    rw [List.forall_mem_cons] at absent
    rw [merge, ih absent.2, mergeEntry, get?_put_text absent.1]

theorem get?_merge (upper : Entries) {base : Entries} (distinct : Distinct upper) {name : String}
    {value : Value} (found : upper.get? (.text name) = some value) :
    (merge base upper).get? (.text name) =
      some (mergeValue (base.get? (.text name)) value) := by
  induction upper generalizing base with
  | nil => cases found
  | cons entry rest ih =>
    obtain ⟨key, own⟩ := entry
    obtain ⟨first, others⟩ := List.pairwise_cons.mp distinct
    rw [merge, mergeEntry]
    by_cases here : (key == Value.text name) = true
    · obtain rfl := Value.beq_text_iff.mp here
      obtain rfl : own = value := by simpa [Keyed.get?, here] using found
      rw [get?_merge_of_absent rest, Keyed.get?_put_of_beq here]
      intro other member same
      have apart := first other member
      rw [same, here] at apart
      cases apart
    · rw [ih others (by simpa [Keyed.get?, here] using found),
        get?_put_text fun same => here (Value.beq_text_iff.mpr same)]

theorem key_of_mem_merge (upper : Entries) {base : Entries} {entry : Value × Value}
    (member : entry ∈ merge base upper) : entry.1 ∈ base.keys ∨ entry.1 ∈ upper.keys := by
  induction upper generalizing base with
  | nil => exact Or.inl (List.mem_map_of_mem member)
  | cons first rest ih =>
    rw [merge] at member
    rcases ih member with before | later
    · obtain ⟨old, inside, same⟩ := List.mem_map.mp before
      rw [mergeEntry] at inside
      rw [← same]
      rcases Keyed.key_of_mem_put inside with new | old
      · exact Or.inr (by rw [new]; exact List.mem_cons_self)
      · exact Or.inl old
    · exact Or.inr (List.mem_cons_of_mem _ later)

theorem get?_merge_of_differs (upper : Entries) {base : Entries} {key : Value}
    (differs : ∀ entry ∈ upper, (entry.1 == key) = false) :
    (merge base upper).get? key = base.get? key := by
  induction upper generalizing base with
  | nil => rfl
  | cons entry rest ih =>
    rw [List.forall_mem_cons] at differs
    rw [merge, ih differs.2, mergeEntry, Keyed.get?_put_of_differs differs.1]

theorem get?_merge_of_mem (upper : Entries) {base : Entries} (distinct : Distinct upper)
    {key value : Value} (member : (key, value) ∈ upper) (equal : (key == key) = true)
    (plain : isMapping value = false) : (merge base upper).get? key = some value := by
  induction upper generalizing base with
  | nil => cases member
  | cons entry rest ih =>
    obtain ⟨first, others⟩ := List.pairwise_cons.mp distinct
    rw [merge]
    rcases List.mem_cons.mp member with rfl | later
    · rw [get?_merge_of_differs rest fun other inside => BEq.symm_false (first other inside),
        mergeEntry, mergeValue_of_not_map plain, Keyed.get?_put_of_beq equal]
    · exact ih others later

theorem mem_merge_of_differs (upper : Entries) {base : Entries} {entry : Value × Value}
    (member : entry ∈ base) (differs : ∀ other ∈ upper, (entry.1 == other.1) = false) :
    entry ∈ merge base upper := by
  induction upper generalizing base with
  | nil => exact member
  | cons first rest ih =>
    obtain ⟨key, value⟩ := first
    rw [List.forall_mem_cons] at differs
    rw [merge, mergeEntry]
    exact ih (Keyed.mem_put_of_differs member differs.1 _) differs.2

theorem exists_mem_merge (upper : Entries) {base : Entries} (distinct : Distinct upper)
    {key value : Value} (member : (key, value) ∈ upper) (plain : isMapping value = false) :
    ∃ other, (other, value) ∈ merge base upper ∧ (other = key ∨ (other == key) = true) := by
  induction upper generalizing base with
  | nil => cases member
  | cons entry rest ih =>
    obtain ⟨first, others⟩ := List.pairwise_cons.mp distinct
    rw [merge]
    rcases List.mem_cons.mp member with rfl | later
    · rw [mergeEntry, mergeValue_of_not_map plain]
      obtain ⟨other, inside, equal⟩ := Keyed.exists_mem_put base key value
      refine ⟨other, mem_merge_of_differs rest inside fun next later => ?_, equal⟩
      rcases equal with rfl | equal
      · exact first next later
      · rw [BEq.congr_left equal]
        exact first next later
    · exact ih others later

end Field

end SupplyLint
