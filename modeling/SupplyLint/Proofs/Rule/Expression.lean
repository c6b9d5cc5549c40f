import Mathlib.Data.List.TakeWhile
import SupplyLint.Proofs.Text.Scan
import SupplyLint.Proofs.Text.Split
import SupplyLint.Rule.Expression

/-! # Expressions and variables in texts

An expression goes from its opening to the first closing behind it, so it may
start inside one that is still open; then both end together. A dollar sign stands
nowhere in a variable but at its head. So the scan of a text loses no expression but
to a longer one that ends with it (`exists_mem_expressions`), and no variable after a
dollar sign at all (`exists_mem_variableNames`). -/
set_option autoImplicit false

namespace SupplyLint.Rule

open SupplyLint.Text

theorem upTo_append (found rest : List Char) :
    upTo (found ++ rest) rest = (found, found.length) := by
  simp [upTo]

/-! ## Expressions -/

/-- A text from an opening to the first closing behind it. -/
def IsExpression (text : List Char) : Prop :=
  ∃ inside, text = opening ++ (inside ++ closing) ∧
    ∀ before after, inside ++ closing = before ++ (closing ++ after) → after = []

theorem IsExpression.eq_cons {text : List Char} (is : IsExpression text) :
    ∃ rest, text = '$' :: rest := by
  obtain ⟨inside, rfl, -⟩ := is
  exact ⟨_, rfl⟩

theorem expressionFinder_eq_some {text found : List Char} {width : Nat} :
    expressionFinder text = some (found, width) ↔
      IsExpression found ∧ width = found.length ∧ found <+: text := by
  constructor
  · intro here
    simp only [expressionFinder, Option.bind_eq_bind, Option.bind_eq_some_iff] at here
    obtain ⟨inside, start, rest, stop, whole⟩ := here
    obtain rfl := afterPrefix?_eq_some.mp start
    obtain ⟨before, rfl, first⟩ := afterFirst?_eq_some.mp stop
    rw [← List.append_assoc before, ← List.append_assoc opening] at whole ⊢
    rw [upTo_append] at whole
    obtain ⟨rfl, rfl⟩ := Prod.mk.inj (Option.some.inj whole)
    exact ⟨⟨before, rfl, first⟩, rfl, List.prefix_append _ _⟩
  · rintro ⟨⟨inside, rfl, first⟩, rfl, rest, rfl⟩
    have start : afterPrefix? opening (opening ++ (inside ++ closing) ++ rest) =
        some (inside ++ (closing ++ rest)) := afterPrefix?_eq_some.mpr (by simp)
    have stop : afterFirst? closing (inside ++ (closing ++ rest)) = some rest :=
      afterFirst?_eq_some.mpr ⟨inside, rfl, first⟩
    simp only [expressionFinder, start, stop, upTo_append, Option.bind_eq_bind, Option.bind_some,
      Option.pure_def]

theorem eq_opening_append {text before after : List Char}
    (split : opening ++ text = before ++ (closing ++ after)) :
    ∃ more, before = opening ++ more ∧ text = more ++ (closing ++ after) := by
  rcases before with _ | ⟨a, _ | ⟨b, _ | ⟨c, more⟩⟩⟩
  · simp [opening, closing] at split
  · simp [opening, closing] at split
  · simp [opening, closing] at split
  · obtain ⟨rfl, rfl, rfl, rfl⟩ : '$' = a ∧ '{' = b ∧ '{' = c ∧
        text = more ++ (closing ++ after) := by
      simpa [opening] using split
    exact ⟨more, rfl, rfl⟩

theorem afterFirst?_closing {expression rest : List Char} (is : IsExpression expression) :
    afterFirst? closing (expression ++ rest) = some rest := by
  obtain ⟨inside, rfl, first⟩ := is
  refine afterFirst?_eq_some.mpr ⟨opening ++ inside, by simp, fun earlier later split => ?_⟩
  rw [List.append_assoc] at split
  obtain ⟨more, -, split⟩ := eq_opening_append split
  exact first more later split

theorem afterFirst?_closing_append {before expression rest after : List Char}
    (is : IsExpression expression)
    (stop : afterFirst? closing (before ++ (expression ++ rest)) = some after) :
    expression ++ rest <:+ after ∨ after = rest := by
  obtain ⟨start, split, first⟩ := afterFirst?_eq_some.mp stop
  rcases List.append_eq_append_iff.mp split with ⟨between, rfl, here⟩ | ⟨between, rfl, there⟩
  · have inside : afterFirst? closing (expression ++ rest) = some after := by
      refine afterFirst?_eq_some.mpr ⟨between, here, fun earlier later overlap => ?_⟩
      refine first (before ++ earlier) later ?_
      rw [List.append_assoc, overlap, List.append_assoc]
    rw [afterFirst?_closing is] at inside
    exact Or.inr (Option.some.inj inside).symm
  · -- the closing is not cut in two, because the expression starts with another character
    obtain ⟨text, rfl, -⟩ := is
    rcases between with _ | ⟨a, _ | ⟨b, between⟩⟩
    · simp [opening, closing] at there
    · simp [opening, closing] at there
    · obtain ⟨-, -, rfl⟩ : '}' = a ∧ '}' = b ∧
          after = between ++ (opening ++ (text ++ closing) ++ rest) := by
        simpa [closing] using there
      exact Or.inl (List.suffix_append _ _)

theorem expressionFinder_passes {before expression rest other : List Char} {reach : Nat}
    (is : IsExpression expression)
    (found : expressionFinder (before ++ (expression ++ rest)) = some (other, reach)) :
    reach ≤ before.length ∨ expression <:+ other := by
  obtain ⟨isOther, rfl, after, whole⟩ := expressionFinder_eq_some.mp found
  have stop : afterFirst? closing (before ++ (expression ++ rest)) = some after := by
    rw [← whole]
    exact afterFirst?_closing isOther
  rcases afterFirst?_closing_append is stop with later | rfl
  · left
    have lengths := congrArg List.length whole
    rw [List.length_append, List.length_append] at lengths
    have := later.length_le
    omega
  · right
    rw [← List.append_assoc] at whole
    exact ⟨before, (List.append_cancel_right whole).symm⟩

theorem isExpression_of_mem {text : String} {expression : List Char}
    (member : expression ∈ expressions text) :
    IsExpression expression ∧ expression <:+: text.toList := by
  obtain ⟨before, rest, width, split, found⟩ := exists_of_mem_scan member
  obtain ⟨is, -, atHead⟩ := expressionFinder_eq_some.mp found
  rw [split]
  exact ⟨is, atHead.isInfix.trans (List.suffix_append before rest).isInfix⟩

/-- Every expression in a text is found, or a longer one that ends with it. -/
theorem exists_mem_expressions {text : String} {expression : List Char}
    (is : IsExpression expression)
    (stands : expression <:+: text.toList) : ∃ found ∈ expressions text, expression <:+ found := by
  obtain ⟨before, rest, split⟩ := stands
  have here : expressionFinder (expression ++ rest) = some (expression, expression.length) :=
    expressionFinder_eq_some.mpr ⟨is, rfl, List.prefix_append _ _⟩
  have passes (earlier other : List Char) (reach : Nat)
      (found : expressionFinder (earlier ++ (expression ++ rest)) = some (other, reach)) :
      reach ≤ earlier.length ∨ expression <:+ other := expressionFinder_passes is found
  rw [expressions, ← split, List.append_assoc]
  obtain ⟨tail, rfl⟩ := is.eq_cons
  exact exists_mem_scan here (List.suffix_refl _) passes before

/-! ## Variables -/

def IsName (name : List Char) : Prop :=
  (∃ c ∈ name.head?, isNameLetter c = true) ∧ ∀ c ∈ name, isNameChar c = true

instance (name : List Char) : Decidable (IsName name) :=
  decidable_of_iff ((name.head?.any isNameLetter && name.all isNameChar) = true) (by
    cases found : name.head? <;> simp [IsName, found])

/-- No name goes on at the head of a text. -/
def EndsName (text : List Char) : Prop :=
  ∀ c ∈ text.head?, isNameChar c = false

instance (text : List Char) : Decidable (EndsName text) :=
  decidable_of_iff (text.head?.any isNameChar = false) (by
    cases found : text.head? <;> simp [EndsName, found])

inductive Frames : List Char → List Char → List Char → Prop
  | dollar {start stop rest : List Char} : start ∈ [['$'], ['$', '{']] → stop ∈ [[], ['}']] →
      EndsName (stop ++ rest) → Frames start stop rest
  | percent {rest : List Char} : Frames ['%'] ['%'] rest

/-- A name stands in a text behind a dollar sign, or behind one with a brace, and ends there. -/
def Expands (text name : List Char) : Prop :=
  ∃ before start after, start ∈ [['$'], ['$', '{']] ∧ text = before ++ (start ++ (name ++ after)) ∧
    EndsName after

theorem isNameChar_of_isNameLetter {c : Char} (starts : isNameLetter c = true) :
    isNameChar c = true := by
  simp only [isNameLetter, isNameChar, Char.isAlphanum, Bool.or_eq_true] at *
  tauto

theorem afterName_eq_some {text rest : List Char} :
    afterName text = some rest ↔ ∃ name, IsName name ∧ text = name ++ rest ∧ EndsName rest := by
  constructor
  · intro found
    cases text with
    | nil => cases found
    | cons c text =>
      rw [afterName] at found
      split at found
      · next starts =>
        obtain rfl := Option.some.inj found
        refine ⟨c :: text.takeWhile isNameChar, ⟨⟨c, rfl, starts⟩, ?_⟩, ?_, ?_⟩
        · refine List.forall_mem_cons.mpr ⟨isNameChar_of_isNameLetter starts, fun d inside => ?_⟩
          exact List.mem_takeWhile_imp inside
        · rw [List.cons_append, List.takeWhile_append_dropWhile]
        · intro d isHead
          have stops := List.head?_dropWhile_not isNameChar text
          rw [Option.mem_def.mp isHead] at stops
          exact stops
      · cases found
  · rintro ⟨name, ⟨⟨c, isHead, starts⟩, within⟩, rfl, ends⟩
    cases name with
    | nil => cases isHead
    | cons d name =>
      obtain rfl : d = c := Option.some.inj isHead
      rw [List.forall_mem_cons] at within
      rw [List.cons_append, afterName, if_pos starts, dropWhile_run within.2 ends]

theorem exists_dropOne (c : Char) (text : List Char) :
    ∃ dropped ∈ [[], [c]], text = dropped ++ dropOne c text := by
  cases text with
  | nil => exact ⟨[], by simp, rfl⟩
  | cons d rest =>
    by_cases same : c = d
    · subst same
      exact ⟨[c], by simp, by simp [dropOne]⟩
    · exact ⟨[], by simp, by simp [dropOne, same]⟩

theorem variableFinder_eq_some {text written : List Char} {width : Nat}
    (found : variableFinder text = some (written, width)) :
    ∃ start name stop rest, IsName name ∧ Frames start stop rest ∧
      written = start ++ (name ++ stop) ∧
      text = written ++ rest ∧ width = written.length := by
  unfold variableFinder at found
  split at found
  · next tail =>
    simp only [Option.bind_eq_bind, Option.bind_eq_some_iff] at found
    obtain ⟨after, inside, whole⟩ := found
    obtain ⟨name, isName, body, ends⟩ := afterName_eq_some.mp inside
    obtain ⟨brace, isBrace, head⟩ := exists_dropOne '{' tail
    obtain ⟨stop, isStop, last⟩ := exists_dropOne '}' after
    have shape : '$' :: tail = '$' :: brace ++ (name ++ stop) ++ dropOne '}' after := by
      conv_lhs => rw [head, body, last]
      simp
    rw [shape, upTo_append] at whole
    obtain ⟨rfl, rfl⟩ := Prod.mk.inj (Option.some.inj whole)
    refine ⟨'$' :: brace, name, stop, _, isName, .dollar ?_ isStop ?_, rfl, shape, rfl⟩
    · simpa using isBrace
    · rwa [← last]
  · next tail =>
    simp only [Option.bind_eq_bind, Option.bind_eq_some_iff] at found
    obtain ⟨after, inside, whole⟩ := found
    obtain ⟨name, isName, rfl, -⟩ := afterName_eq_some.mp inside
    split at whole
    · next rest =>
      have shape : '%' :: (name ++ '%' :: rest) = ['%'] ++ (name ++ ['%']) ++ rest := by simp
      rw [shape, upTo_append] at whole
      obtain ⟨rfl, rfl⟩ := Prod.mk.inj (Option.some.inj whole)
      exact ⟨['%'], name, ['%'], rest, isName, .percent, rfl, shape, rfl⟩
    · cases whole
  · cases found

/-- No name starts with a brace, so that one behind a dollar sign is told apart from it. -/
theorem dropOne_brace {start name : List Char} (isStart : start ∈ [['$'], ['$', '{']])
    (isName : IsName name) (after : List Char) :
    ∃ tail, start ++ (name ++ after) = '$' :: tail ∧ dropOne '{' tail = name ++ after := by
  obtain ⟨⟨c, isHead, starts⟩, -⟩ := isName
  cases name with
  | nil => cases isHead
  | cons d name =>
    obtain rfl : d = c := Option.some.inj isHead
    have plain : '{' ≠ d := by
      rintro rfl
      exact absurd starts (by decide)
    rcases List.mem_pair.mp isStart with rfl | rfl
    · exact ⟨d :: name ++ after, rfl, by simp [dropOne, plain]⟩
    · exact ⟨'{' :: (d :: name ++ after), rfl, by simp [dropOne]⟩

theorem variableFinder_dollar {start name after : List Char} (isStart : start ∈ [['$'], ['$', '{']])
    (isName : IsName name) (ends : EndsName after) :
    ∃ stop rest width, Frames start stop rest ∧
      variableFinder (start ++ (name ++ after)) = some (start ++ (name ++ stop), width) := by
  obtain ⟨tail, shape, body⟩ := dropOne_brace isStart isName after
  obtain ⟨stop, isStop, last⟩ := exists_dropOne '}' after
  have whole : '$' :: tail = start ++ (name ++ stop) ++ dropOne '}' after := by
    rw [← shape]
    conv_lhs => rw [last]
    simp
  have inside : afterName (dropOne '{' tail) = some after :=
    afterName_eq_some.mpr ⟨name, isName, body, ends⟩
  refine ⟨stop, dropOne '}' after, (start ++ (name ++ stop)).length,
    .dollar isStart isStop (by rwa [← last]), ?_⟩
  rw [shape]
  show (afterName (dropOne '{' tail) >>= fun after =>
      some (upTo ('$' :: tail) (dropOne '}' after))) = _
  rw [inside, whole]
  exact congrArg some (upTo_append _ _)

theorem exists_cons_of_frames {start name stop rest : List Char} (isName : IsName name)
    (frames : Frames start stop rest) :
    ∃ c more, start ++ (name ++ stop) = c :: more ∧ '$' ∉ more := by
  have inName : '$' ∉ name := fun inside => absurd (isName.2 '$' inside) (by decide)
  cases frames with
  | dollar isStart isStop _ =>
    have inStop : '$' ∉ stop := by
      rcases List.mem_pair.mp isStop with rfl | rfl <;> decide
    rcases List.mem_pair.mp isStart with rfl | rfl
    · exact ⟨'$', name ++ stop, rfl, by simp [inName, inStop]⟩
    · exact ⟨'$', '{' :: (name ++ stop), rfl, by simp [inName, inStop]⟩
  | percent => exact ⟨'%', name ++ ['%'], rfl, by simp [inName]⟩

theorem variableFinder_passes {before rest written : List Char} {width : Nat}
    (earlier : before ≠ [])
    (found : variableFinder (before ++ '$' :: rest) = some (written, width)) :
    width ≤ before.length := by
  obtain ⟨start, name, stop, after, isName, frames, rfl, split, rfl⟩ := variableFinder_eq_some found
  obtain ⟨c, more, shape, absent⟩ := exists_cons_of_frames isName frames
  cases before with
  | nil => exact absurd rfl earlier
  | cons d before =>
    rw [shape] at split ⊢
    rcases List.append_eq_append_iff.mp (List.cons.inj split).2 with ⟨between, rfl, here⟩ |
        ⟨between, rfl, _⟩
    · cases between with
      | nil => simp
      | cons e between =>
        obtain ⟨rfl, -⟩ := List.cons.inj here
        exact absurd (by simp) absent
    · simp

/-- Every name that a dollar sign expands is found. -/
theorem exists_mem_variableNames {text : String} {name : List Char} (isName : IsName name)
    (expands : Expands text.toList name) :
    ∃ start stop rest, Frames start stop rest ∧ start ++ (name ++ stop) ∈ variableNames text := by
  obtain ⟨before, start, after, isStart, split, ends⟩ := expands
  obtain ⟨tail, shape, -⟩ := dropOne_brace isStart isName after
  obtain ⟨stop, rest, width, frames, here⟩ := variableFinder_dollar isStart isName ends
  have passes (earlier written : List Char) (reach : Nat)
      (found : variableFinder (earlier ++ '$' :: tail) = some (written, reach)) :
      reach ≤ earlier.length ∨ start ++ (name ++ stop) = written := by
    by_cases first : earlier = []
    · subst first
      rw [List.nil_append, ← shape, here] at found
      exact Or.inr (Prod.mk.inj (Option.some.inj found)).1
    · exact Or.inl (variableFinder_passes first found)
  rw [shape] at here
  obtain ⟨written, member, rfl⟩ := exists_mem_scan here rfl passes before
  rw [← shape, ← split] at member
  exact ⟨start, stop, rest, frames, member⟩

theorem frames_of_mem {text : String} {written : List Char}
    (member : written ∈ variableNames text) :
    ∃ before start name stop rest, IsName name ∧ Frames start stop rest ∧
      written = start ++ (name ++ stop) ∧ text.toList = before ++ (written ++ rest) := by
  obtain ⟨before, rest, width, split, found⟩ := exists_of_mem_scan member
  obtain ⟨start, name, stop, after, isName, frames, shape, rfl, -⟩ := variableFinder_eq_some found
  exact ⟨before, start, name, stop, after, isName, frames, shape, split⟩

end SupplyLint.Rule
