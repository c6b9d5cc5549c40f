import Mathlib.Data.List.Lex
import Mathlib.Data.List.Nodup
import Mathlib.Data.Prod.Lex
import Mathlib.Data.String.Basic
import Mathlib.Order.Compare

/-! # Lists in the order of keys

A list is sorted by a key when its items stand in the order of their keys, and
those with one key as they stood before. There is only one such list, and an
item more among those that are sorted is an item more in it. -/
set_option autoImplicit false

namespace SupplyLint

variable {α κ : Type} [LinearOrder κ] {key : α → κ}

structure SortsBy (key : α → κ) (items sorted : List α) : Prop where
  perm : sorted.Perm items
  ordered : sorted.Pairwise fun earlier later => key earlier ≤ key later
  ties : ∀ k, sorted.filter (key · = k) = items.filter (key · = k)

/-! ## One list only -/

theorem mem_of_ties {first second : List α}
    (ties : ∀ k, first.filter (key · = k) = second.filter (key · = k)) {item : α}
    (member : item ∈ first) : item ∈ second := by
  have found : item ∈ first.filter (key · = key item) := List.mem_filter.mpr ⟨member, by simp⟩
  rw [ties] at found
  exact (List.mem_filter.mp found).1

theorem eq_of_ordered_of_ties {first second : List α}
    (firstOrdered : first.Pairwise fun earlier later => key earlier ≤ key later)
    (secondOrdered : second.Pairwise fun earlier later => key earlier ≤ key later)
    (ties : ∀ k, first.filter (key · = k) = second.filter (key · = k)) : first = second := by
  induction first generalizing second with
  | nil =>
    cases second with
    | nil => rfl
    | cons item rest =>
      exact absurd (mem_of_ties (fun k => (ties k).symm) List.mem_cons_self) List.not_mem_nil
  | cons item rest ih =>
    cases second with
    | nil => exact absurd (mem_of_ties ties List.mem_cons_self) List.not_mem_nil
    | cons other others =>
      rw [List.pairwise_cons] at firstOrdered secondOrdered
      -- each head is the least of its list, and either list holds both
      have below : key item ≤ key other := by
        rcases List.mem_cons.mp (mem_of_ties (fun k => (ties k).symm) List.mem_cons_self) with
          same | later
        · exact le_of_eq (congrArg key same.symm)
        · exact firstOrdered.1 other later
      have above : key other ≤ key item := by
        rcases List.mem_cons.mp (mem_of_ties ties List.mem_cons_self) with same | later
        · exact le_of_eq (congrArg key same.symm)
        · exact secondOrdered.1 item later
      have same : key other = key item := le_antisymm above below
      have heads := ties (key item)
      rw [List.filter_cons_of_pos (by simp), List.filter_cons_of_pos (by simp [same])] at heads
      obtain ⟨rfl, tails⟩ := List.cons.inj heads
      refine congrArg (item :: ·) (ih firstOrdered.2 secondOrdered.2 fun k => ?_)
      by_cases here : key item = k
      · exact here ▸ tails
      · have beyond := ties k
        rwa [List.filter_cons_of_neg (by simpa using here),
          List.filter_cons_of_neg (by simpa using here)] at beyond

theorem SortsBy.eq_of_ties {items others first second : List α} (sorts : SortsBy key items first)
    (alsoSorts : SortsBy key others second)
    (same : ∀ k, items.filter (key · = k) = others.filter (key · = k)) : first = second :=
  eq_of_ordered_of_ties sorts.ordered alsoSorts.ordered fun k => by
    rw [sorts.ties, same, alsoSorts.ties]

theorem SortsBy.unique {items first second : List α} (sorts : SortsBy key items first)
    (others : SortsBy key items second) : first = second :=
  sorts.eq_of_ties others fun _ => rfl

theorem SortsBy.eq_of_ordered {items sorted : List α} (sorts : SortsBy key items sorted)
    (ordered : items.Pairwise fun earlier later => key earlier ≤ key later) : sorted = items :=
  sorts.unique ⟨.refl items, ordered, fun _ => rfl⟩

theorem SortsBy.strict {items sorted : List α} (sorts : SortsBy key items sorted)
    (distinct : (items.map key).Nodup) : (sorted.map key).Pairwise (· < ·) := by
  have apart : (sorted.map key).Pairwise (· ≠ ·) := (sorts.perm.map key).nodup_iff.mpr distinct
  rw [List.pairwise_map] at apart ⊢
  exact (sorts.ordered.and apart).imp fun both => lt_of_le_of_ne both.1 both.2

theorem SortsBy.eq_of_perm {items others first second : List α} (sorts : SortsBy key items first)
    (alsoSorts : SortsBy key others second) (same : items.Perm others)
    (distinct : (items.map key).Nodup) : first = second := by
  refine List.Perm.eq_of_pairwise (fun x y inFirst inSecond below above => ?_) sorts.ordered
    alsoSorts.ordered (sorts.perm.trans (same.trans alsoSorts.perm.symm))
  exact List.inj_on_of_nodup_map distinct (sorts.perm.mem_iff.mp inFirst)
    (same.mem_iff.mpr (alsoSorts.perm.mem_iff.mp inSecond)) (le_antisymm below above)

theorem SortsBy.filter {items sorted : List α}
    (sorts : SortsBy key items sorted) (keeps : α → Bool) :
    SortsBy key (items.filter keeps) (sorted.filter keeps) := by
  refine ⟨sorts.perm.filter keeps, sorts.ordered.filter keeps, fun k => ?_⟩
  rw [List.filter_comm, sorts.ties, List.filter_comm]

/-! ## Blocks in any order -/

/-- No item of one list has the key of an item of the other. -/
def KeysApart (key : α → κ) (first second : List α) : Prop :=
  ∀ x ∈ first, ∀ y ∈ second, key x ≠ key y

omit [LinearOrder κ] in
theorem KeysApart.symm {first second : List α} (apart : KeysApart key first second) :
    KeysApart key second first :=
  fun x inSecond y inFirst same => apart y inFirst x inSecond same.symm

theorem KeysApart.filter_append {first second : List α}
    (apart : KeysApart key first second) (k : κ) :
    (first ++ second).filter (key · = k) = (second ++ first).filter (key · = k) := by
  rw [List.filter_append, List.filter_append]
  by_cases here : ∃ x ∈ first, key x = k
  · obtain ⟨x, inside, rfl⟩ := here
    have none : second.filter (key · = key x) = [] :=
      List.filter_eq_nil_iff.mpr fun y there => by simpa using (apart x inside y there).symm
    rw [none, List.append_nil, List.nil_append]
  · have none : first.filter (key · = k) = [] :=
      List.filter_eq_nil_iff.mpr fun x inside => by simpa using fun same => here ⟨x, inside, same⟩
    rw [none, List.append_nil, List.nil_append]

theorem filter_flatten_of_perm {blocks others : List (List α)} (same : blocks.Perm others)
    (apart : blocks.Pairwise (KeysApart key)) (k : κ) :
    blocks.flatten.filter (key · = k) = others.flatten.filter (key · = k) := by
  induction same with
  | nil => rfl
  | cons block _ ih =>
    rw [List.flatten_cons, List.flatten_cons, List.filter_append, List.filter_append,
      ih (List.pairwise_cons.mp apart).2]
  | swap block other rest =>
    have swapped := ((List.pairwise_cons.mp apart).1 block List.mem_cons_self).filter_append k
    simp only [List.flatten_cons, ← List.append_assoc]
    rw [List.filter_append (_ ++ _), swapped, List.filter_append (_ ++ _)]
  | trans first _ ih ihRest =>
    exact (ih apart).trans (ihRest ((first.pairwise_iff KeysApart.symm).mp apart))

/-- Blocks of items that have no keys in common are sorted in one way, in whatever order they are
given; inside a block there may be items of one key. -/
theorem SortsBy.eq_of_perm_blocks {blocks others : List (List α)} {first second : List α}
    (sorts : SortsBy key blocks.flatten first) (alsoSorts : SortsBy key others.flatten second)
    (same : blocks.Perm others) (apart : blocks.Pairwise (KeysApart key)) : first = second :=
  sorts.eq_of_ties alsoSorts (filter_flatten_of_perm same apart)

/-- In place of an item others of its key can be sorted, any number of them, and all else stands as
it does. -/
theorem SortsBy.inPlace {before after sorted : List α} {item : α}
    (sorts : SortsBy key (before ++ item :: after) sorted) :
    ∃ left right, sorted = left ++ item :: right ∧
      ∀ others, (∀ other ∈ others, key other = key item) →
      SortsBy key (before ++ (others ++ after)) (left ++ (others ++ right)) := by
  have ties := sorts.ties (key item)
  rw [List.filter_append, List.filter_cons_of_pos (by simp)] at ties
  obtain ⟨left, rest, split, inLeft, inRest⟩ := List.filter_eq_append_iff.mp ties
  obtain ⟨middle, right, rfl, others, -, inRight⟩ := List.filter_eq_cons_iff.mp inRest
  -- what stands between the earlier items of the key and this one has other keys
  have inMiddle : middle.filter (key · = key item) = [] :=
    List.filter_eq_nil_iff.mpr others
  have whole : sorted = (left ++ middle) ++ item :: right := by
    rw [split, List.append_assoc]
  refine ⟨left ++ middle, right, whole, fun others same => ⟨?_, ?_, fun k => ?_⟩⟩
  · have perm := sorts.perm
    rw [whole] at perm
    have rest := (List.perm_middle.symm.trans (perm.trans List.perm_middle)).cons_inv
    exact (List.perm_append_comm_assoc _ others right).trans
      ((rest.append_left others).trans (List.perm_append_comm_assoc others before after))
  · have ordered := sorts.ordered
    rw [whole, List.pairwise_append, List.pairwise_cons] at ordered
    obtain ⟨inFront, ⟨behind, inBack⟩, across⟩ := ordered
    refine List.pairwise_append.mpr ⟨inFront, List.pairwise_append.mpr ⟨?_, inBack, ?_⟩, ?_⟩
    · exact List.pairwise_of_forall_mem_list fun x inside y there =>
        le_of_eq ((same x inside).trans (same y there).symm)
    · exact fun x inside y there => (same x inside).le.trans (behind y there)
    · intro x inside y there
      rcases List.mem_append.mp there with there | there
      · exact (across x inside item List.mem_cons_self).trans (same y there).ge
      · exact across x inside y (List.mem_cons_of_mem _ there)
  · by_cases here : key item = k
    · subst here
      simp only [List.filter_append, inLeft, inMiddle, inRight, List.append_nil]
    · have skips (rest : List α) :
          (item :: rest).filter (key · = k) = rest.filter (key · = k) :=
        List.filter_cons_of_neg (by simpa using here)
      have none : others.filter (key · = k) = [] :=
        List.filter_eq_nil_iff.mpr fun other inside => by simpa [same other inside] using here
      have beyond := sorts.ties k
      rw [whole] at beyond
      simpa only [List.filter_append, skips, none, List.nil_append] using beyond

theorem SortsBy.without {before after sorted : List α} {item : α}
    (sorts : SortsBy key (before ++ item :: after) sorted) :
    ∃ left right, sorted = left ++ item :: right ∧
      SortsBy key (before ++ after) (left ++ right) := by
  obtain ⟨left, right, split, inPlace⟩ := sorts.inPlace
  exact ⟨left, right, split, inPlace [] (by simp)⟩

/-! ## Comparisons -/

def ComparesBy (compare : α → α → Ordering) (key : α → κ) : Prop :=
  ∀ x y, (compare x y).Compares (key x) (key y)

theorem comparesBy_compareOn (key : α → κ) : ComparesBy (compareOn key) key := fun x y =>
  (compare_iff (key x) (key y)).mp rfl

theorem ComparesBy.isLE_iff {compare : α → α → Ordering}
    (compares : ComparesBy compare key) (x y : α) :
    (compare x y).isLE = true ↔ key x ≤ key y := by
  rw [← (compares x y).ne_gt]
  cases compare x y <;> simp

theorem ComparesBy.sortsBy {compare : α → α → Ordering} (compares : ComparesBy compare key)
    (items : List α) : SortsBy key items (items.mergeSort fun x y => (compare x y).isLE) := by
  have trans (x y z : α) (first : (compare x y).isLE = true) (second : (compare y z).isLE = true) :
      (compare x z).isLE = true := by
    rw [compares.isLE_iff] at first second ⊢
    exact first.trans second
  have total (x y : α) : ((compare x y).isLE || (compare y x).isLE) = true := by
    rw [Bool.or_eq_true, compares.isLE_iff, compares.isLE_iff]
    exact le_total _ _
  have perm := List.mergeSort_perm items fun x y => (compare x y).isLE
  refine ⟨perm, ?_, fun k => ?_⟩
  · exact (List.pairwise_mergeSort trans total items).imp fun below =>
      (compares.isLE_iff _ _).mp below
  · -- items with one key are in order already, so they stay as they stand
    have inOrder : (items.filter (key · = k)).Pairwise fun x y => (compare x y).isLE = true := by
      refine List.pairwise_of_forall_mem_list fun x inside y there => ?_
      rw [compares.isLE_iff, of_decide_eq_true (List.mem_filter.mp inside).2,
        of_decide_eq_true (List.mem_filter.mp there).2]
    have stays := (List.sublist_mergeSort trans total inOrder List.filter_sublist).filter
        (key · = k)
    simp only [List.filter_filter, Bool.and_self] at stays
    exact (stays.eq_of_length (perm.filter _).length_eq.symm).symm

theorem sortsBy_mergeSort (key : α → κ) (items : List α) :
    SortsBy key items (items.mergeSort fun x y => key x ≤ key y) := by
  have compares := comparesBy_compareOn key
  have same : (fun x y => decide (key x ≤ key y)) = fun x y => (compareOn key x y).isLE := by
    funext x y
    rw [Bool.eq_iff_iff, compares.isLE_iff, decide_eq_true_iff]
  rw [same]
  exact compares.sortsBy items

theorem sortsBy_mergeSort_not_lt (key : α → κ) [∀ x y : κ, Decidable (x < y)] (items : List α) :
    SortsBy key items (items.mergeSort fun x y => !decide (key y < key x)) := by
  have same : (fun x y => !decide (key y < key x)) = fun x y => decide (key x ≤ key y) := by
    funext x y
    rw [Bool.eq_iff_iff, Bool.not_eq_true', decide_eq_false_iff_not, not_lt, decide_eq_true_iff]
  rw [same]
  exact sortsBy_mergeSort key items

section Lexicographic
variable {ι β : Type} [LinearOrder ι]

theorem ComparesBy.lex {first second : α → α → Ordering} {main : α → κ} {minor : α → ι}
    (compares : ComparesBy first main) (further : ComparesBy second minor) :
    ComparesBy (compareLex first second) fun item => toLex (main item, minor item) := by
  intro x y
  have leads := compares x y
  have follows := further x y
  unfold compareLex
  generalize first x y = leading at leads ⊢
  generalize second x y = following at follows ⊢
  cases leading with
  | lt => exact Prod.Lex.toLex_lt_toLex.mpr (.inl leads)
  | gt => exact Prod.Lex.toLex_lt_toLex.mpr (.inl leads)
  | eq =>
    have same : main x = main y := leads
    cases following with
    | lt => exact Prod.Lex.toLex_lt_toLex.mpr (.inr ⟨same, follows⟩)
    | gt => exact Prod.Lex.toLex_lt_toLex.mpr (.inr ⟨same.symm, follows⟩)
    | eq => exact congrArg toLex (Prod.ext same follows)

theorem ComparesBy.list {compare : α → α → Ordering} (compares : ComparesBy compare key) :
    ComparesBy (List.compareLex compare) (List.map key) := by
  intro xs ys
  induction xs generalizing ys with
  | nil =>
    cases ys with
    | nil => exact rfl
    | cons y ys => exact List.nil_lt_cons _ _
  | cons x xs ih =>
    cases ys with
    | nil => exact List.nil_lt_cons _ _
    | cons y ys =>
      have leads := compares x y
      have follows := ih ys
      rw [List.compareLex_cons_cons, List.map_cons, List.map_cons]
      generalize compare x y = leading at leads ⊢
      generalize List.compareLex compare xs ys = following at follows ⊢
      cases leading with
      | lt => exact List.cons_lt_cons_iff.mpr (.inl leads)
      | gt => exact List.cons_lt_cons_iff.mpr (.inl leads)
      | eq =>
        have same : key x = key y := leads
        cases following with
        | lt => exact List.cons_lt_cons_iff.mpr (.inr ⟨same, follows⟩)
        | gt => exact List.cons_lt_cons_iff.mpr (.inr ⟨same.symm, follows⟩)
        | eq => exact congrArg₂ List.cons same follows

end Lexicographic

end SupplyLint
