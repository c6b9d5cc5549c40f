import SupplyLint.Text.Scan

/-! # What a scan finds

A scan goes on behind what it finds, so it passes over every place inside that.
All that it finds stands somewhere in the text (`exists_of_mem_scan`). What stands
at a place is found, or made good for, if nothing that starts before the place
reaches beyond it without being as good (`exists_mem_scan`). A scan finds the parts of
a text that are of some form from left to right, each behind the one before it
(`leftmost_scan`). -/
set_option autoImplicit false

namespace SupplyLint.Text

variable {α : Type} {finder : Finder α}

theorem exists_of_mem_scanFrom {found : α} {skipped : Nat} {text : List Char}
    (member : found ∈ scanFrom finder skipped text) :
    ∃ before rest width, text = before ++ rest ∧ finder rest = some (found, width) := by
  induction text generalizing skipped with
  | nil => simp [scanFrom] at member
  | cons c text ih =>
    have further {skipped : Nat} (later : found ∈ scanFrom finder skipped text) :
        ∃ before rest width, c :: text = before ++ rest ∧ finder rest = some (found, width) := by
      obtain ⟨before, rest, width, rfl, here⟩ := ih later
      exact ⟨c :: before, rest, width, rfl, here⟩
    cases skipped with
    | succ skipped => exact further member
    | zero =>
      unfold scanFrom at member
      split at member
      · next first width here =>
        rcases List.mem_cons.mp member with rfl | later
        · exact ⟨[], c :: text, width, rfl, here⟩
        · exact further later
      · exact further member

/-- What a scan finds is found at some place. -/
theorem exists_of_mem_scan {found : α} {text : List Char} (member : found ∈ scan finder text) :
    ∃ before rest width, text = before ++ rest ∧ finder rest = some (found, width) :=
  exists_of_mem_scanFrom member

/-- What is found at a place, or something as good, is found in the whole text: all that starts
before the place ends before it or is as good. -/
theorem exists_mem_scan {holds : α → Prop} {c : Char} {text : List Char} {found : α} {width : Nat}
    (here : finder (c :: text) = some (found, width)) (good : holds found)
    (passes : ∀ before other reach, finder (before ++ c :: text) = some (other, reach) →
      reach ≤ before.length ∨ holds other) (before : List Char) :
    ∃ other ∈ scan finder (before ++ c :: text), holds other := by
  suffices general : ∀ skipped ≤ before.length,
      ∃ other ∈ scanFrom finder skipped (before ++ c :: text), holds other from
    general 0 (Nat.zero_le _)
  induction before with
  | nil =>
    intro skipped none
    obtain rfl : skipped = 0 := Nat.le_zero.mp none
    refine ⟨found, ?_, good⟩
    simp [scanFrom, here]
  | cons d before ih =>
    intro skipped within
    cases skipped with
    | succ skipped => exact ih skipped (Nat.le_of_succ_le_succ within)
    | zero =>
      rw [List.cons_append, scanFrom]
      split
      · next other reach first =>
        rcases passes (d :: before) other reach first with short | goodToo
        · obtain ⟨later, member, holdsLater⟩ :=
            ih (reach - 1) (Nat.sub_le_of_le_add short)
          exact ⟨later, List.mem_cons_of_mem _ member, holdsLater⟩
        · exact ⟨other, List.mem_cons_self, goodToo⟩
      · exact ih 0 (Nat.zero_le _)

/-! ## Parts from left to right -/

/-- The parts of a text that are of some form, from left to right: the first is the one before which
none starts, and the others stand behind it. -/
inductive Leftmost (isFound : List Char → α → Prop) : List Char → List α → Prop
  | none {text : List Char}
      (absent : ∀ before part rest found, text = before ++ (part ++ rest) → ¬ isFound part found) :
      Leftmost isFound text []
  | found {before part rest : List Char} {result : α} {more : List α}
      (first : ∀ earlier other later found, before ++ (part ++ rest) = earlier ++ (other ++ later) →
        isFound other found → before.length ≤ earlier.length)
      (here : isFound part result) (behind : Leftmost isFound rest more) :
      Leftmost isFound (before ++ (part ++ rest)) (result :: more)

def Finds (finder : Finder α) (isFound : List Char → α → Prop) : Prop :=
  ∀ text found width, finder text = some (found, width) ↔
    ∃ part rest, text = part ++ rest ∧ isFound part found ∧ part.length = width

theorem scanFrom_eq_scan (skipped : Nat) (text : List Char) :
    scanFrom finder skipped text = scan finder (text.drop skipped) := by
  induction text generalizing skipped with
  | nil => cases skipped <;> rfl
  | cons c text ih =>
    cases skipped with
    | zero => rfl
    | succ skipped => exact ih skipped

section Leftmost
variable {isFound : List Char → α → Prop}

theorem Leftmost.cons {c : Char} {text : List Char} {results : List α}
    (nowhere : ∀ part rest found, c :: text = part ++ rest → ¬ isFound part found)
    (leftmost : Leftmost isFound text results) : Leftmost isFound (c :: text) results := by
  cases leftmost with
  | none absent =>
    refine .none fun before part rest found whole holds => ?_
    cases before with
    | nil => exact nowhere part rest found whole holds
    | cons d before => exact absent before part rest found (List.cons.inj whole).2 holds
  | @found before part rest result more first here behind =>
    show Leftmost isFound ((c :: before) ++ (part ++ rest)) (result :: more)
    refine .found (fun earlier other later found whole holds => ?_) here behind
    cases earlier with
    | nil => exact absurd holds (nowhere other later found whole)
    | cons d earlier =>
      exact Nat.succ_le_succ (first earlier other later found (List.cons.inj whole).2 holds)

theorem leftmost_scan (finds : Finds finder isFound) (filled : ∀ found, ¬ isFound [] found)
    (text : List Char) : Leftmost isFound text (scan finder text) := by
  induction size : text.length using Nat.strongRecOn generalizing text with
  | ind size ih =>
    subst size
    cases text with
    | nil =>
      refine .none fun before part rest found whole holds => ?_
      obtain ⟨-, parts⟩ := List.append_eq_nil_iff.mp whole.symm
      exact filled found ((List.append_eq_nil_iff.mp parts).1 ▸ holds)
    | cons c text =>
      unfold scan scanFrom
      split
      · next result width found =>
        obtain ⟨part, rest, whole, here, rfl⟩ := (finds _ _ _).mp found
        have some : part ≠ [] := fun none => filled result (none ▸ here)
        have behind : text.drop (part.length - 1) = rest := by
          cases part with
          | nil => exact absurd rfl some
          | cons d part =>
            rw [(List.cons.inj whole).2]
            simp
        rw [scanFrom_eq_scan, behind, whole]
        show Leftmost isFound ([] ++ (part ++ rest)) (result :: scan finder rest)
        refine .found (fun _ _ _ _ _ _ => Nat.zero_le _) here (ih _ ?_ rest rfl)
        rw [whole, List.length_append]
        exact Nat.lt_add_of_pos_left (List.length_pos_iff.mpr some)
      · next nothing =>
        refine Leftmost.cons (fun part rest found whole holds => ?_)
          (ih _ (Nat.lt_succ_self _) text rfl)
        have found := (finds _ _ _).mpr ⟨part, rest, whole, holds, rfl⟩
        rw [nothing] at found
        cases found

end Leftmost

end SupplyLint.Text
