/-! Cutting text at delimiters, and looking for one text inside another. -/
set_option autoImplicit false

namespace SupplyLint.Text

def cutFirst {α : Type} [DecidableEq α] (mark : α) : List α → Option (List α × List α)
  | [] => none
  | c :: rest =>
    if c = mark then some ([], rest)
    else (cutFirst mark rest).map fun halves => (c :: halves.1, halves.2)

def cutLast (mark : Char) : List Char → Option (List Char × List Char)
  | [] => none
  | c :: rest =>
    match cutLast mark rest with
    | some halves => some (c :: halves.1, halves.2)
    | none => if c = mark then some ([], rest) else none

/-- The pieces between marks: one more than there are marks. -/
def pieces (mark : Char) : List Char → List (List Char)
  | [] => [[]]
  | c :: rest =>
    if c = mark then [] :: pieces mark rest
    else match pieces mark rest with
      | [] => [[c]]
      | piece :: more => (c :: piece) :: more

def afterPrefix? : List Char → List Char → Option (List Char)
  | [], text => some text
  | _ :: _, [] => none
  | p :: more, c :: rest => if p = c then afterPrefix? more rest else none

/-- What follows the first place where the first text stands in the second. -/
def afterFirst? (part : List Char) : List Char → Option (List Char)
  | [] => if part.isEmpty then some [] else none
  | c :: rest =>
    match afterPrefix? part (c :: rest) with
    | some after => some after
    | none => afterFirst? part rest

def isPart (part text : List Char) : Bool :=
  (afterFirst? part text).isSome

def contains (text part : String) : Bool :=
  isPart part.toList text.toList

def hasPrefix (text start : String) : Bool :=
  (afterPrefix? start.toList text.toList).isSome

def splitAll (mark : Char) (text : String) : List String :=
  (pieces mark text.toList).map String.ofList

/-- What stands before the first mark, or all of the text. -/
def beforeFirst (mark : Char) (text : String) : String :=
  match cutFirst mark text.toList with
  | some (before, _) => String.ofList before
  | none => text

/-- What stands after the last mark, or all of the text. -/
def afterLast (mark : Char) (text : String) : String :=
  match cutLast mark text.toList with
  | some (_, after) => String.ofList after
  | none => text

def join (separator : String) (parts : List String) : String :=
  separator.intercalate parts

theorem cutFirst_eq_some {α : Type} [DecidableEq α] {mark : α} {text before after : List α}
    (cut : cutFirst mark text = some (before, after)) :
    text = before ++ mark :: after ∧ mark ∉ before := by
  induction text generalizing before with
  | nil => simp [cutFirst] at cut
  | cons c rest ih =>
    unfold cutFirst at cut
    split at cut
    · next same => simp_all
    · next differs =>
      obtain ⟨halves, found, shape⟩ := Option.map_eq_some_iff.mp cut
      obtain ⟨rfl, rfl⟩ := Prod.mk.inj shape
      have tail := @ih halves.1 (by rw [found])
      exact ⟨by simp [tail.1], by simp [tail.2, Ne.symm differs]⟩

theorem cutFirst_eq_none {α : Type} [DecidableEq α] {mark : α} {text : List α} :
    cutFirst mark text = none ↔ mark ∉ text := by
  induction text with
  | nil => simp [cutFirst]
  | cons c rest ih =>
    by_cases same : c = mark
    · simp [cutFirst, same]
    · simp [cutFirst, same, ih, Ne.symm same]

theorem cutLast_eq_none {mark : Char} {text : List Char} :
    cutLast mark text = none ↔ mark ∉ text := by
  induction text with
  | nil => simp [cutLast]
  | cons c rest ih =>
    unfold cutLast
    cases found : cutLast mark rest with
    | some halves =>
      have inside : mark ∈ rest := by
        apply Classical.byContradiction
        intro absent
        simp [ih.mpr absent] at found
      simp [inside]
    | none =>
      have absent := ih.mp found
      by_cases same : c = mark
      · simp [same]
      · simp [same, absent, Ne.symm same]

theorem cutLast_eq_some {mark : Char} {text before after : List Char}
    (cut : cutLast mark text = some (before, after)) :
    text = before ++ mark :: after ∧ mark ∉ after := by
  induction text generalizing before with
  | nil => simp [cutLast] at cut
  | cons c rest ih =>
    unfold cutLast at cut
    cases found : cutLast mark rest with
    | some halves =>
      rw [found] at cut
      obtain ⟨rfl, rfl⟩ := Prod.mk.inj (Option.some.inj cut)
      have tail := @ih halves.1 (by rw [found])
      exact ⟨by simp [tail.1], tail.2⟩
    | none =>
      rw [found] at cut
      have absent := cutLast_eq_none.mp found
      by_cases same : c = mark
      · obtain ⟨rfl, rfl⟩ : [] = before ∧ rest = after := by simpa [same] using cut
        exact ⟨by simp [same], absent⟩
      · simp [same] at cut

end SupplyLint.Text
