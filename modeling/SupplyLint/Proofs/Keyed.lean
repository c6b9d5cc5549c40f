import Mathlib.Data.List.Basic
import Mathlib.Data.List.Induction
import SupplyLint.Distinct
import SupplyLint.Keyed

/-! # What keyed lists hold

The keys of a keyed list after a value is put in, and what is found under them.
Keys are put in once and keep their places, so the keys of a list that starts
empty are the distinct ones among all keys put in. -/
set_option autoImplicit false

namespace SupplyLint

section Distinct
variable {α : Type} [BEq α] [LawfulBEq α]

theorem addNew_of_mem {seen : List α} {item : α} (inside : item ∈ seen) :
    addNew seen item = seen := by
  simp [addNew, inside]

theorem mem_foldl_addNew {items seen : List α} {x : α} :
    x ∈ items.foldl addNew seen ↔ x ∈ seen ∨ x ∈ items := by
  induction items generalizing seen with
  | nil => simp
  | cons item rest ih =>
    rw [List.foldl_cons, ih, mem_addNew, List.mem_cons, or_assoc]

theorem mem_firsts {items : List α} {x : α} : x ∈ firsts items ↔ x ∈ items := by
  simp [firsts, mem_foldl_addNew]

theorem nodup_foldl_addNew (items : List α) {seen : List α} (distinct : seen.Nodup) :
    (items.foldl addNew seen).Nodup := by
  induction items generalizing seen with
  | nil => exact distinct
  | cons item rest ih => exact ih (nodup_addNew distinct)

theorem firsts_eq_eraseDups (items : List α) : firsts items = items.eraseDups := by
  induction items using List.reverseRec with
  | nil => rfl
  | append_singleton items item ih =>
    have goesOn : firsts (items ++ [item]) = addNew (firsts items) item := List.foldl_append
    rw [goesOn, ih, addNew, List.eraseDups_append]
    by_cases old : item ∈ items
    · simp [old, List.removeAll]
    · simp [old, List.removeAll, List.eraseDups_cons]

end Distinct

namespace Keyed
section Keys
variable {κ ν : Type}

@[simp] theorem keys_nil : keys ([] : Keyed κ ν) = [] := rfl

@[simp] theorem keys_cons (entry : κ × ν) (rest : Keyed κ ν) :
    keys (entry :: rest) = entry.1 :: keys rest := rfl

@[simp] theorem keys_append (first second : Keyed κ ν) :
    keys (first ++ second) = keys first ++ keys second := by
  simp [keys]

theorem length_keys (entries : Keyed κ ν) : (keys entries).length = entries.length := by
  simp [keys]

@[simp] theorem keys_mapValues {μ : Type} (f : ν → μ) (entries : Keyed κ ν) :
    keys (entries.map fun entry => (entry.1, f entry.2)) = keys entries := by
  simp [keys]

theorem forM_of_keys {m : Type → Type} [Monad m] {each : κ × ν → m PUnit}
    (ofKey : ∀ key value other, each (key, value) = each (key, other)) {first second : Keyed κ ν}
    (same : keys first = keys second) : forM first each = forM second each := by
  induction first generalizing second with
  | nil =>
    obtain rfl := List.map_eq_nil_iff.mp same.symm
    rfl
  | cons entry rest ih =>
    obtain ⟨key, value⟩ := entry
    cases second with
    | nil => cases same
    | cons other others =>
      obtain ⟨rfl, later⟩ := List.cons.inj same
      rw [List.forM_cons, List.forM_cons, ih later, ofKey other.1 value other.2]

end Keys

variable {κ ν : Type} [BEq κ]

def Distinct (entries : Keyed κ ν) : Prop :=
  entries.Pairwise fun first second => (first.1 == second.1) = false

theorem distinct_nil : Distinct ([] : Keyed κ ν) :=
  List.Pairwise.nil

theorem distinct_iff_keys {entries : Keyed κ ν} :
    Distinct entries ↔ (keys entries).Pairwise fun first second => (first == second) = false := by
  rw [keys, List.pairwise_map]
  rfl

theorem key_of_mem_put {entries : Keyed κ ν} {key : κ} {value : ν} {entry : κ × ν}
    (member : entry ∈ entries.put key value) : entry.1 = key ∨ entry.1 ∈ keys entries := by
  induction entries with
  | nil =>
    rw [put, List.mem_singleton] at member
    exact Or.inl (congrArg Prod.fst member)
  | cons first rest ih =>
    obtain ⟨k, v⟩ := first
    rw [put] at member
    split at member
    · rcases List.mem_cons.mp member with rfl | later
      · exact Or.inr List.mem_cons_self
      · exact Or.inr (List.mem_cons_of_mem _ (List.mem_map_of_mem later))
    · rcases List.mem_cons.mp member with rfl | later
      · exact Or.inr List.mem_cons_self
      · exact (ih later).imp_right (List.mem_cons_of_mem _)

theorem new_or_mem_of_mem_put {entries : Keyed κ ν} {key : κ} {value : ν} {entry : κ × ν}
    (member : entry ∈ entries.put key value) :
    entry.2 = value ∧ (entry.1 = key ∨ (entry.1 == key) = true) ∨ entry ∈ entries := by
  induction entries with
  | nil =>
    rw [put, List.mem_singleton] at member
    subst member
    exact Or.inl ⟨rfl, Or.inl rfl⟩
  | cons first rest ih =>
    obtain ⟨k, v⟩ := first
    rw [put] at member
    split at member
    · next same =>
      rcases List.mem_cons.mp member with rfl | later
      · exact Or.inl ⟨rfl, Or.inr same⟩
      · exact Or.inr (List.mem_cons_of_mem _ later)
    · rcases List.mem_cons.mp member with rfl | later
      · exact Or.inr List.mem_cons_self
      · exact (ih later).imp_right (List.mem_cons_of_mem _)

theorem value_of_mem_put {entries : Keyed κ ν} {key : κ} {value : ν} {entry : κ × ν}
    (member : entry ∈ entries.put key value) : entry.2 = value ∨ entry ∈ entries :=
  (new_or_mem_of_mem_put member).imp_left And.left

theorem exists_of_mem_putAll {entries more : Keyed κ ν} {entry : κ × ν}
    (member : entry ∈ entries.putAll more) : entry ∈ entries ∨
      ∃ other ∈ more, other.2 = entry.2 := by
  induction more generalizing entries with
  | nil => exact .inl member
  | cons first rest ih =>
    rcases ih member with inside | ⟨other, later, same⟩
    · rcases value_of_mem_put inside with new | old
      · exact .inr ⟨first, List.mem_cons_self, new.symm⟩
      · exact .inl old
    · exact .inr ⟨other, List.mem_cons_of_mem _ later, same⟩

theorem exists_of_mem_ofPairs {pairs : List (κ × ν)} {entry : κ × ν}
    (member : entry ∈ ofPairs pairs) :
    ∃ other ∈ pairs, other.2 = entry.2 :=
  (exists_of_mem_putAll member).resolve_left List.not_mem_nil

theorem Distinct.put {entries : Keyed κ ν} (distinct : Distinct entries) (key : κ) (value : ν) :
    Distinct (entries.put key value) := by
  induction entries with
  | nil => exact List.pairwise_singleton _ _
  | cons entry rest ih =>
    obtain ⟨k, v⟩ := entry
    obtain ⟨first, others⟩ := List.pairwise_cons.mp distinct
    by_cases same : k == key
    · simp only [Keyed.put, if_pos same]
      exact List.pairwise_cons.mpr ⟨first, others⟩
    · simp only [Keyed.put, if_neg same]
      refine List.pairwise_cons.mpr ⟨fun other member => ?_, ih others⟩
      rcases key_of_mem_put member with new | old
      · rw [new]
        exact Bool.eq_false_iff.mpr same
      · obtain ⟨older, inside, key⟩ := List.mem_map.mp old
        rw [← key]
        exact first older inside

theorem Distinct.erase {entries : Keyed κ ν} (distinct : Distinct entries) (key : κ) :
    Distinct (entries.erase key) :=
  List.Pairwise.filter _ distinct

/-- Each key is there once, and it is found by what it is. -/
structure IsProper (entries : Keyed κ ν) : Prop where
  distinct : Distinct entries
  found : ∀ key ∈ keys entries, (key == key) = true

theorem IsProper.put {entries : Keyed κ ν} (proper : IsProper entries) {key : κ}
    (own : (key == key) = true) (value : ν) : IsProper (entries.put key value) := by
  refine ⟨proper.distinct.put key value, fun other member => ?_⟩
  obtain ⟨entry, inside, rfl⟩ := List.mem_map.mp member
  rcases key_of_mem_put inside with new | old
  · rw [new, own]
  · exact proper.found _ old

theorem IsProper.get?_of_mem {entries : Keyed κ ν} (proper : IsProper entries) {entry : κ × ν}
    (member : entry ∈ entries) : entries.get? entry.1 = some entry.2 := by
  have own := proper.found _ (List.mem_map_of_mem member)
  have distinct := proper.distinct
  clear proper
  induction entries with
  | nil => cases member
  | cons first rest ih =>
    obtain ⟨k, v⟩ := first
    obtain ⟨apart, others⟩ := List.pairwise_cons.mp distinct
    rcases List.mem_cons.mp member with rfl | later
    · simp [get?, own]
    · simp [get?, apart entry later, ih later others]

theorem get?_put_of_beq {entries : Keyed κ ν} {key : κ} (same : (key == key) = true) (value : ν) :
    (entries.put key value).get? key = some value := by
  induction entries with
  | nil => simp [put, get?, same]
  | cons entry rest ih =>
    by_cases here : entry.1 == key
    · simp [put, get?, here]
    · simp [put, get?, here, ih]

theorem keys_put_of_get? {entries : Keyed κ ν} {key : κ} {old : ν}
    (found : entries.get? key = some old)
    (value : ν) : (entries.put key value).keys = entries.keys := by
  induction entries with
  | nil => cases found
  | cons entry rest ih =>
    obtain ⟨k, v⟩ := entry
    by_cases same : k == key
    · simp [put, same]
    · simp only [get?, if_neg same] at found
      simp [put, same, ih found]

theorem put_of_get? {entries : Keyed κ ν} {key : κ} {old : ν}
    (found : entries.get? key = some old) :
    entries.put key old = entries := by
  induction entries with
  | nil => cases found
  | cons entry rest ih =>
    obtain ⟨k, v⟩ := entry
    by_cases same : k == key
    · simp only [get?, if_pos same, Option.some.injEq] at found
      simp [put, same, found]
    · simp only [get?, if_neg same] at found
      simp [put, same, ih found]

@[simp] theorem get?_nil (key : κ) : get? ([] : Keyed κ ν) key = none := rfl

theorem get?_append (first second : Keyed κ ν) (key : κ) :
    get? (first ++ second) key = (get? first key).or (get? second key) := by
  induction first with
  | nil => rfl
  | cons entry rest ih =>
    obtain ⟨k, v⟩ := entry
    by_cases same : k == key
    · simp [get?, same]
    · simpa [get?, same] using ih

theorem get?_mapValues {μ : Type} (f : ν → μ) (entries : Keyed κ ν) (key : κ) :
    get? (entries.map fun entry => (entry.1, f entry.2)) key = (get? entries key).map f := by
  induction entries with
  | nil => rfl
  | cons entry rest ih =>
    obtain ⟨k, v⟩ := entry
    by_cases same : k == key
    · simp [get?, same]
    · simpa [get?, same] using ih

theorem exists_mem_of_get? {entries : Keyed κ ν} {key : κ} {value : ν}
    (found : entries.get? key = some value) : ∃ other, (other, value) ∈ entries := by
  induction entries with
  | nil => cases found
  | cons entry rest ih =>
    obtain ⟨k, v⟩ := entry
    rw [get?] at found
    split at found
    · obtain rfl := Option.some.inj found
      exact ⟨k, List.mem_cons_self⟩
    · obtain ⟨other, member⟩ := ih found
      exact ⟨other, List.mem_cons_of_mem _ member⟩

theorem mem_of_get?_eq_some [LawfulBEq κ] {entries : Keyed κ ν} {key : κ} {value : ν}
    (found : entries.get? key = some value) : (key, value) ∈ entries := by
  induction entries with
  | nil => simp at found
  | cons entry rest ih =>
    obtain ⟨k, v⟩ := entry
    by_cases same : k == key
    · simp only [get?, if_pos same, Option.some.injEq] at found
      obtain rfl := eq_of_beq same
      subst value
      simp
    · simp only [get?, if_neg same] at found
      exact List.mem_cons_of_mem _ (ih found)

variable [LawfulBEq κ]

theorem get?_eq_none_iff {entries : Keyed κ ν} {key : κ} :
    entries.get? key = none ↔ key ∉ keys entries := by
  induction entries with
  | nil => simp
  | cons entry rest ih =>
    obtain ⟨k, v⟩ := entry
    by_cases same : k == key
    · obtain rfl := eq_of_beq same
      simp [get?]
    · have differs : key ≠ k := by
        intro equal
        simp [equal] at same
      simp [get?, same, ih, differs]

theorem has_iff {entries : Keyed κ ν} {key : κ} : entries.has key = true ↔ key ∈ keys entries := by
  rw [has, Option.isSome_iff_ne_none, ne_eq, get?_eq_none_iff, not_not]

theorem get?_eq_some_iff {entries : Keyed κ ν} (distinct : (keys entries).Nodup) {key : κ}
    {value : ν} : entries.get? key = some value ↔ (key, value) ∈ entries := by
  refine ⟨mem_of_get?_eq_some, ?_⟩
  intro member
  induction entries with
  | nil => simp at member
  | cons entry rest ih =>
    obtain ⟨k, v⟩ := entry
    rw [keys_cons, List.nodup_cons] at distinct
    rcases List.mem_cons.mp member with same | later
    · cases same
      simp [get?]
    · have inside : key ∈ keys rest := List.mem_map_of_mem later
      have differs : (k == key) = false := by
        rw [beq_eq_false_iff_ne]
        rintro rfl
        exact distinct.1 inside
      simpa [get?, differs] using ih distinct.2 later

theorem map_getD_keys (entries : Keyed κ ν) (distinct : (keys entries).Nodup) (default : ν) :
    (keys entries).map (fun key => (key, (entries.get? key).getD default)) = entries := by
  rw [keys, List.map_map]
  conv_rhs => rw [← List.map_id entries]
  apply List.map_congr_left
  intro entry member
  have found : entries.get? entry.1 = some entry.2 := (get?_eq_some_iff distinct).mpr member
  simp [found]

theorem put_of_not_mem {entries : Keyed κ ν} {key : κ} (fresh : key ∉ keys entries) (value : ν) :
    entries.put key value = entries ++ [(key, value)] := by
  induction entries with
  | nil => rfl
  | cons entry rest ih =>
    obtain ⟨k, v⟩ := entry
    rw [keys_cons, List.mem_cons, not_or] at fresh
    have differs : (k == key) = false := beq_eq_false_iff_ne.mpr (Ne.symm fresh.1)
    simp [put, differs, ih fresh.2]

theorem keys_put (entries : Keyed κ ν) (key : κ) (value : ν) :
    keys (entries.put key value) = addNew (keys entries) key := by
  induction entries with
  | nil => rfl
  | cons entry rest ih =>
    obtain ⟨k, v⟩ := entry
    by_cases same : k == key
    · obtain rfl := eq_of_beq same
      simp [put, addNew]
    · have differs : key ≠ k := by
        intro equal
        simp [equal] at same
      by_cases inside : key ∈ keys rest
      · simp [put, same, ih, addNew, inside]
      · simp [put, same, ih, addNew, inside, differs]

theorem nodup_keys_putAll {entries : Keyed κ ν} (distinct : (keys entries).Nodup)
    (more : Keyed κ ν) : (keys (entries.putAll more)).Nodup := by
  induction more generalizing entries with
  | nil => exact distinct
  | cons entry rest ih =>
    apply ih
    rw [keys_put]
    exact nodup_addNew distinct

theorem nodup_keys_ofPairs (pairs : List (κ × ν)) : (keys (ofPairs pairs)).Nodup := by
  have empty : (keys ([] : Keyed κ ν)).Nodup := List.nodup_nil
  exact nodup_keys_putAll empty pairs

theorem mem_put {entries : Keyed κ ν} {key : κ} {value : ν} {entry : κ × ν}
    (member : entry ∈ entries.put key value) : entry = (key, value) ∨ entry ∈ entries := by
  induction entries with
  | nil => simpa [put] using member
  | cons first rest ih =>
    obtain ⟨k, v⟩ := first
    by_cases same : k == key
    · obtain rfl := eq_of_beq same
      simp only [put, beq_self_eq_true, if_true, List.mem_cons] at member
      rcases member with here | later
      · exact Or.inl here
      · exact Or.inr (List.mem_cons_of_mem _ later)
    · simp only [put, if_neg same, List.mem_cons] at member
      rcases member with here | later
      · exact Or.inr (by simp [here])
      · rcases ih later with new | old
        · exact Or.inl new
        · exact Or.inr (List.mem_cons_of_mem _ old)

theorem mem_putAll {entries more : Keyed κ ν} {entry : κ × ν}
    (member : entry ∈ entries.putAll more) : entry ∈ entries ∨ entry ∈ more := by
  induction more generalizing entries with
  | nil => exact Or.inl member
  | cons first rest ih =>
    rcases ih member with put | later
    · rcases mem_put put with rfl | old
      · exact Or.inr List.mem_cons_self
      · exact Or.inl old
    · exact Or.inr (List.mem_cons_of_mem _ later)

theorem putAll_of_nodup {entries more : Keyed κ ν} (distinct : (keys (entries ++ more)).Nodup) :
    entries.putAll more = entries ++ more := by
  induction more generalizing entries with
  | nil => exact (List.append_nil _).symm
  | cons entry rest ih =>
    have apart : entries ++ entry :: rest = entries ++ [entry] ++ rest := by simp
    have fresh : entry.1 ∉ keys entries := by
      rw [keys_append, keys_cons, List.nodup_append] at distinct
      exact fun inside => distinct.2.2 _ inside _ List.mem_cons_self rfl
    rw [apart] at distinct ⊢
    rw [← ih distinct, putAll, List.foldl_cons, put_of_not_mem fresh]
    rfl

theorem ofPairs_of_nodup {pairs : List (κ × ν)} (distinct : (keys pairs).Nodup) :
    ofPairs pairs = pairs :=
  putAll_of_nodup distinct

theorem mem_ofPairs {pairs : List (κ × ν)} {entry : κ × ν} (member : entry ∈ ofPairs pairs) :
    entry ∈ pairs :=
  (mem_putAll member).resolve_left List.not_mem_nil

section MapValues
variable {κ ν μ : Type}

def mapValues (f : ν → μ) (entries : Keyed κ ν) : Keyed κ μ :=
  entries.map fun entry => (entry.1, f entry.2)

@[simp] theorem mapValues_nil (f : ν → μ) : mapValues f ([] : Keyed κ ν) = [] := rfl

@[simp] theorem mapValues_cons (f : ν → μ) (entry : κ × ν) (rest : Keyed κ ν) :
    mapValues f (entry :: rest) = (entry.1, f entry.2) :: mapValues f rest := rfl

@[simp] theorem values_mapValues (f : ν → μ) (entries : Keyed κ ν) :
    (mapValues f entries).values = entries.values.map f := by
  simp [mapValues, values]

@[simp] theorem length_mapValues (f : ν → μ) (entries : Keyed κ ν) :
    (mapValues f entries).length = entries.length :=
  List.length_map _

theorem mapM_mapValues {m : Type → Type} [Monad m] [LawfulMonad m] {β : Type} (f : ν → μ)
    {read : κ × ν → m β} {other : κ × μ → m β} (entries : Keyed κ ν)
    (same : ∀ entry ∈ entries, other (entry.1, f entry.2) = read entry) :
    (mapValues f entries).mapM other = List.mapM read entries := by
  induction entries with
  | nil => rfl
  | cons entry rest ih =>
    rw [List.forall_mem_cons] at same
    rw [mapValues_cons, List.mapM_cons, List.mapM_cons, same.1, ih same.2]

variable [BEq κ]

theorem put_mapValues (f : ν → μ) (entries : Keyed κ ν) (key : κ) (value : ν) :
    mapValues f (entries.put key value) = (mapValues f entries).put key (f value) := by
  induction entries with
  | nil => rfl
  | cons entry rest ih =>
    simp only [put, mapValues_cons]
    split
    · rfl
    · rw [mapValues_cons, ih]

theorem putAll_mapValues (f : ν → μ) (more : Keyed κ ν) (entries : Keyed κ ν) :
    mapValues f (entries.putAll more) = (mapValues f entries).putAll (mapValues f more) := by
  induction more generalizing entries with
  | nil => rfl
  | cons entry rest ih =>
    rw [putAll, List.foldl_cons, ← putAll, ih, put_mapValues]
    rfl

theorem ofPairs_mapValues (f : ν → μ) (pairs : List (κ × ν)) :
    ofPairs (mapValues f pairs) = mapValues f (ofPairs pairs) :=
  (putAll_mapValues f pairs []).symm

@[simp] theorem has_mapValues (f : ν → μ) (entries : Keyed κ ν) (key : κ) :
    (mapValues f entries).has key = entries.has key := by
  rw [has, mapValues, get?_mapValues, Option.isSome_map, has]

end MapValues

end Keyed

end SupplyLint
