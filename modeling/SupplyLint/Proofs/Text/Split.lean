import Mathlib.Data.List.Infix
import Mathlib.Data.List.TakeWhile
import SupplyLint.Text.Blank
import SupplyLint.Text.Code
import SupplyLint.Text.Split

/-! # Texts inside others

Texts at the head of others, at their first place in others, between marks and
between characters that are trimmed. -/
set_option autoImplicit false

namespace SupplyLint.Text

theorem cutFirst_append {α : Type} [DecidableEq α] {mark : α} {before : List α}
    (absent : mark ∉ before) (after : List α) :
    cutFirst mark (before ++ mark :: after) = some (before, after) := by
  induction before with
  | nil => simp [cutFirst]
  | cons c rest ih =>
    rw [List.mem_cons, not_or] at absent
    simp [cutFirst, Ne.symm absent.1, ih absent.2]

theorem cutLast_append {mark : Char} (before : List Char) {after : List Char}
    (absent : mark ∉ after) : cutLast mark (before ++ mark :: after) = some (before, after) := by
  induction before with
  | nil => simp [cutLast, cutLast_eq_none.mpr absent]
  | cons c rest ih => simp [cutLast, ih]

theorem afterPrefix?_eq_some {start text rest : List Char} :
    afterPrefix? start text = some rest ↔ text = start ++ rest := by
  induction start generalizing text with
  | nil => simp [afterPrefix?, eq_comm]
  | cons c more ih =>
    cases text with
    | nil => simp [afterPrefix?]
    | cons d tail =>
      by_cases same : c = d
      · simp [afterPrefix?, same, ih]
      · simp [afterPrefix?, same, Ne.symm same]

theorem hasPrefix_iff {text start : String} :
    hasPrefix text start = true ↔ ∃ rest, text = start ++ rest := by
  rw [hasPrefix, Option.isSome_iff_exists]
  constructor
  · rintro ⟨rest, found⟩
    refine ⟨String.ofList rest, String.ext ?_⟩
    simpa using afterPrefix?_eq_some.mp found
  · rintro ⟨rest, rfl⟩
    exact ⟨rest.toList, afterPrefix?_eq_some.mpr (by simp)⟩

/-! ## Texts that begin differently -/

/-- Neither of two texts begins with the other. -/
def Apart (first second : String) : Prop :=
  ¬ first.toList <+: second.toList ∧ ¬ second.toList <+: first.toList

instance (first second : String) : Decidable (Apart first second) :=
  inferInstanceAs (Decidable (_ ∧ _))

theorem hasPrefix_iff_startsWith {text start : String} :
    hasPrefix text start = true ↔ start.toList <+: text.toList := by
  rw [hasPrefix_iff]
  constructor
  · rintro ⟨rest, rfl⟩
    exact ⟨rest.toList, by simp⟩
  · rintro ⟨rest, same⟩
    exact ⟨String.ofList rest, String.ext (by simpa using same.symm)⟩

theorem Apart.append {first second : String} (apart : Apart first second) (more : String) :
    Apart (first ++ more) second := by
  have begins : first.toList <+: (first ++ more).toList := ⟨more.toList, by simp⟩
  refine ⟨fun shorter => apart.1 (begins.trans shorter), fun longer => ?_⟩
  exact (List.prefix_or_prefix_of_prefix begins longer).elim apart.1 apart.2

theorem Apart.hasPrefix_eq_false {first second : String} (apart : Apart first second) :
    hasPrefix first second = false := by
  rw [Bool.eq_false_iff, ne_eq, hasPrefix_iff_startsWith]
  exact apart.2

theorem hasPrefix_append {text start : String} (begins : hasPrefix text start = true)
    (more : String) :
    hasPrefix (text ++ more) start = true := by
  rw [hasPrefix_iff_startsWith] at begins ⊢
  exact begins.trans ⟨more.toList, by simp⟩

theorem Apart.hasPrefix_of_hasPrefix {first second text : String} (apart : Apart first second)
    (begins : hasPrefix text first = true) : hasPrefix text second = false := by
  obtain ⟨rest, rfl⟩ := hasPrefix_iff.mp begins
  exact (apart.append rest).hasPrefix_eq_false

/-! ## Texts anywhere in others -/

theorem afterFirst?_eq_some {part text rest : List Char} :
    afterFirst? part text = some rest ↔
      ∃ before, text = before ++ (part ++ rest) ∧
        ∀ earlier later, before ++ part = earlier ++ (part ++ later) → later = [] := by
  induction text with
  | nil =>
    cases part with
    | nil => simp [afterFirst?, eq_comm]
    | cons c part => simp [afterFirst?]
  | cons c text ih =>
    unfold afterFirst?
    cases start : afterPrefix? part (c :: text) with
    | some after =>
      have atHead := afterPrefix?_eq_some.mp start
      constructor
      · intro same
        obtain rfl := Option.some.inj same
        refine ⟨[], atHead, fun earlier later split => ?_⟩
        have lengths := congrArg List.length split
        simp only [List.nil_append, List.length_append] at lengths
        exact List.length_eq_zero_iff.mp (by omega)
      · rintro ⟨before, whole, first⟩
        -- The part stands at the head, so there is nothing in front of its first place.
        have longer : part <+: before ++ part := by
          refine List.prefix_of_prefix_length_le ⟨after, atHead.symm⟩ ⟨rest, ?_⟩ ?_
          · rw [whole, List.append_assoc]
          · simp
        obtain ⟨later, split⟩ := longer
        obtain rfl := first [] later split.symm
        obtain rfl : before = [] := by simpa using split
        rw [atHead] at whole
        exact congrArg some (List.append_cancel_left whole)
    | none =>
      have absent (after : List Char) : c :: text ≠ part ++ after := fun atHead => by
        rw [afterPrefix?_eq_some.mpr atHead] at start
        cases start
      rw [ih]
      constructor
      · rintro ⟨before, rfl, first⟩
        refine ⟨c :: before, rfl, fun earlier later split => ?_⟩
        cases earlier with
        | nil =>
          refine absurd ?_ (absent (later ++ rest))
          simpa using congrArg (· ++ rest) split
        | cons d earlier => exact first earlier later (List.cons.inj split).2
      · rintro ⟨before, whole, first⟩
        cases before with
        | nil => exact absurd whole (absent rest)
        | cons d before =>
          obtain ⟨rfl, rfl⟩ := List.cons.inj whole
          exact ⟨before, rfl, fun earlier later split => first (c :: earlier) later
            (congrArg (c :: ·) split)⟩

theorem isSome_afterPrefix? {start text : List Char} :
    (afterPrefix? start text).isSome = true ↔ start <+: text := by
  rw [Option.isSome_iff_exists]
  exact exists_congr fun rest => afterPrefix?_eq_some.trans eq_comm

theorem isPart_iff {part text : List Char} : isPart part text = true ↔ part <:+: text := by
  induction text with
  | nil => cases part <;> simp [isPart, afterFirst?]
  | cons c text ih =>
    rw [List.infix_cons_iff, ← ih, ← isSome_afterPrefix?, isPart, isPart, afterFirst?]
    cases afterPrefix? part (c :: text) with
    | some after => simp
    | none => simp

theorem contains_singleton_iff {text : String} {c : Char} :
    contains text (String.singleton c) = true ↔ c ∈ text.toList := by
  rw [contains, isPart_iff, String.toList_singleton]
  exact List.singleton_infix_iff c text.toList

/-! ## Pieces between marks -/

theorem pieces_of_not_mem {mark : Char} {text : List Char} (absent : mark ∉ text) :
    pieces mark text = [text] := by
  induction text with
  | nil => rfl
  | cons c rest ih =>
    rw [List.mem_cons, not_or] at absent
    rw [pieces, if_neg (Ne.symm absent.1), ih absent.2]

theorem pieces_append {mark : Char} {piece : List Char} (absent : mark ∉ piece) (rest : List Char) :
    pieces mark (piece ++ mark :: rest) = piece :: pieces mark rest := by
  induction piece with
  | nil => simp [pieces]
  | cons c piece ih =>
    rw [List.mem_cons, not_or] at absent
    rw [List.cons_append, pieces, if_neg (Ne.symm absent.1), ih absent.2]

theorem pieces_join {mark : Char} {parts : List String} (filled : parts ≠ [])
    (absent : ∀ part ∈ parts, mark ∉ part.toList) :
    pieces mark (join (String.singleton mark) parts).toList = parts.map String.toList := by
  rw [join, String.toList_intercalate, String.toList_singleton]
  induction parts with
  | nil => exact absurd rfl filled
  | cons part rest ih =>
    rw [List.forall_mem_cons] at absent
    cases rest with
    | nil => simp [pieces_of_not_mem absent.1]
    | cons next more =>
      rw [List.map_cons, List.map_cons, List.intercalate_cons_cons, List.append_assoc,
        List.singleton_append, pieces_append absent.1, ← List.map_cons, ih (by simp) absent.2]

theorem pieces_cases (mark : Char) (text : List Char) :
    ∃ piece, mark ∉ piece ∧ (text = piece ∧ pieces mark text = [piece] ∨
      ∃ rest, text = piece ++ mark :: rest ∧ pieces mark text = piece :: pieces mark rest) := by
  cases cut : cutFirst mark text with
  | none =>
    have absent := cutFirst_eq_none.mp cut
    exact ⟨text, absent, Or.inl ⟨rfl, pieces_of_not_mem absent⟩⟩
  | some halves =>
    obtain ⟨whole, absent⟩ := cutFirst_eq_some cut
    refine ⟨halves.1, absent, Or.inr ⟨halves.2, whole, ?_⟩⟩
    rw [whole]
    exact pieces_append absent halves.2

theorem pieces_ne_nil (mark : Char) (text : List Char) : pieces mark text ≠ [] := by
  obtain ⟨piece, -, ⟨-, one⟩ | ⟨rest, -, more⟩⟩ := pieces_cases mark text
  · simp [one]
  · simp [more]

theorem not_mem_of_mem_pieces {mark : Char} {text piece : List Char}
    (member : piece ∈ pieces mark text) :
    mark ∉ piece := by
  induction text generalizing piece with
  | nil =>
    rw [pieces, List.mem_singleton] at member
    simp [member]
  | cons c rest ih =>
    rw [pieces] at member
    split at member
    · rcases List.mem_cons.mp member with rfl | later
      · simp
      · exact ih later
    · next differs =>
      split at member
      · next none => exact absurd none (pieces_ne_nil mark rest)
      · next first more cut =>
        rw [cut] at ih
        rcases List.mem_cons.mp member with rfl | later
        · simp [Ne.symm differs, ih List.mem_cons_self]
        · exact ih (List.mem_cons_of_mem _ later)

theorem intercalate_pieces (mark : Char) (text : List Char) :
    [mark].intercalate (pieces mark text) = text := by
  induction text with
  | nil => rfl
  | cons c rest ih =>
    obtain ⟨first, more, cut⟩ := List.exists_cons_of_ne_nil (pieces_ne_nil mark rest)
    rw [cut] at ih
    rw [pieces, cut]
    by_cases same : c = mark
    · simp [same, List.intercalate_cons_cons, ih]
    · rw [if_neg same]
      cases more with
      | nil => simpa [List.intercalate] using ih
      | cons next more =>
        rw [List.intercalate_cons_cons] at ih ⊢
        simp [← ih]

theorem subset_of_mem_pieces {mark : Char} {text piece : List Char}
    (member : piece ∈ pieces mark text) :
    piece ⊆ text := by
  induction text generalizing piece with
  | nil =>
    rw [pieces, List.mem_singleton] at member
    simp [member]
  | cons c rest ih =>
    rw [pieces] at member
    split at member
    · rcases List.mem_cons.mp member with rfl | later
      · simp
      · exact List.subset_cons_of_subset c (ih later)
    · split at member
      · rw [List.mem_singleton] at member
        simp [member]
      · next first more cut =>
        rw [cut] at ih
        rcases List.mem_cons.mp member with rfl | later
        · exact List.cons_subset_cons c (ih List.mem_cons_self)
        · exact List.subset_cons_of_subset c (ih (List.mem_cons_of_mem _ later))

theorem mem_of_mem_trimBy {drop : Char → Bool} {text : List Char} {c : Char}
    (member : c ∈ trimBy drop text) : c ∈ text := by
  rw [trimBy, List.mem_reverse] at member
  have inRest := List.mem_reverse.mp ((List.dropWhile_sublist _).mem member)
  exact (List.dropWhile_sublist _).mem inRest

/-! ## Runs of characters -/

theorem dropWhile_run {inside : Char → Bool} {run rest : List Char}
    (within : ∀ c ∈ run, inside c = true)
    (stops : ∀ c ∈ rest.head?, inside c = false) : (run ++ rest).dropWhile inside = rest := by
  rw [List.dropWhile_append_of_pos within]
  cases rest with
  | nil => rfl
  | cons c rest => exact List.dropWhile_cons_of_neg (by simp [stops c rfl])

theorem exists_run_dropWhile (inside : Char → Bool) (text : List Char) :
    ∃ run, (∀ c ∈ run, inside c = true) ∧ text = run ++ text.dropWhile inside :=
  ⟨text.takeWhile inside, fun _ => List.mem_takeWhile_imp, List.takeWhile_append_dropWhile.symm⟩

theorem takeWhile_run {inside : Char → Bool} {run rest : List Char}
    (within : ∀ c ∈ run, inside c = true)
    (stops : ∀ c ∈ rest.head?, inside c = false) : (run ++ rest).takeWhile inside = run := by
  have whole := List.takeWhile_append_dropWhile (p := inside) (l := run ++ rest)
  rw [dropWhile_run within stops] at whole
  exact List.append_cancel_right whole

theorem head?_dropWhile_kept (drop : Char → Bool) (text : List Char) :
    ∀ c ∈ (text.dropWhile drop).head?, drop c = false := by
  intro c first
  have kept := List.head?_dropWhile_not drop text
  rw [Option.mem_def.mp first] at kept
  exact Bool.eq_false_iff.mpr (by simpa using kept)

/-! ## Trimmed texts -/

structure EndsKept (drop : Char → Bool) (text : List Char) : Prop where
  first : ∀ c ∈ text.head?, drop c = false
  last : ∀ c ∈ text.getLast?, drop c = false

theorem trimEndBy_eq_iff {drop : Char → Bool} {text front : List Char} :
    trimEndBy drop text = front ↔ (∀ c ∈ front.getLast?, drop c = false) ∧
      ∃ back, text = front ++ back ∧ ∀ c ∈ back, drop c = true := by
  constructor
  · rintro rfl
    obtain ⟨back, inBack, rest⟩ := exists_run_dropWhile drop text.reverse
    refine ⟨fun c last => ?_, back.reverse, ?_, by simpa using inBack⟩
    · rw [trimEndBy, List.getLast?_reverse] at last
      exact head?_dropWhile_kept drop _ c last
    · rw [trimEndBy, ← List.reverse_append, ← rest, List.reverse_reverse]
  · rintro ⟨last, back, rfl, inBack⟩
    have ended : ∀ c ∈ front.reverse.head?, drop c = false := by
      rwa [List.head?_reverse]
    rw [trimEndBy, List.reverse_append, dropWhile_run (by simpa using inBack) ended,
      List.reverse_reverse]

theorem trimBy_eq_iff {drop : Char → Bool} {text middle : List Char} :
    trimBy drop text = middle ↔ EndsKept drop middle ∧ ∃ front back,
      text = front ++ (middle ++ back) ∧ (∀ c ∈ front, drop c = true) ∧
        ∀ c ∈ back, drop c = true := by
  have atEnd : trimBy drop text = trimEndBy drop (text.dropWhile drop) := rfl
  rw [atEnd, trimEndBy_eq_iff]
  constructor
  · rintro ⟨last, back, rest, inBack⟩
    obtain ⟨front, inFront, whole⟩ := exists_run_dropWhile drop text
    refine ⟨⟨fun c first => head?_dropWhile_kept drop text c ?_, last⟩, front,
      back, ?_, inFront, inBack⟩
    · rw [rest, List.head?_append, Option.mem_def.mp first]
      rfl
    · rw [← rest]
      exact whole
  · rintro ⟨ends, front, back, rfl, inFront, inBack⟩
    refine ⟨ends.last, ?_⟩
    by_cases filled : middle = []
    · have all : ∀ c ∈ front ++ back, drop c = true := by
        intro c inside
        exact (List.mem_append.mp inside).elim (inFront c) (inBack c)
      have gone : (front ++ back).dropWhile drop = [] := List.dropWhile_eq_nil_iff.mpr all
      exact ⟨[], by rw [filled, List.nil_append, gone, List.append_nil], nofun⟩
    · refine ⟨back, dropWhile_run inFront ?_, inBack⟩
      rw [List.head?_append_of_ne_nil _ filled]
      exact ends.first

theorem trimBy_around {drop : Char → Bool} {front middle back : List Char}
    (inFront : ∀ c ∈ front, drop c = true) (inMiddle : ∀ c ∈ middle, drop c = false)
    (inBack : ∀ c ∈ back, drop c = true) : trimBy drop (front ++ (middle ++ back)) = middle :=
  trimBy_eq_iff.mpr ⟨⟨fun c first => inMiddle c (List.mem_of_head? first),
    fun c last => inMiddle c (List.mem_of_getLast? last)⟩, front, back, rfl, inFront, inBack⟩

theorem trimBy_of_ends {drop : Char → Bool} {text : List Char}
    (first : ∀ c ∈ text.head?, drop c = false) (last : ∀ c ∈ text.getLast?, drop c = false) :
    trimBy drop text = text :=
  trimBy_eq_iff.mpr ⟨⟨first, last⟩, [], [], by simp, nofun, nofun⟩

section Cuts
variable {mark other : Char} {text before after front back : List Char}

theorem suffix_of_last (cut : text = before ++ mark :: after) (last : mark ∉ after)
    (otherCut : text = front ++ mark :: back) : after <:+ back := by
  have inText : mark :: after <:+ text := ⟨before, cut.symm⟩
  have alsoInText : mark :: back <:+ text := ⟨front, otherCut.symm⟩
  rcases List.suffix_or_suffix_of_suffix inText alsoInText with shorter | longer
  · rcases List.suffix_cons_iff.mp shorter with same | inside
    · rw [(List.cons.inj same).2]
    · exact (List.suffix_cons mark after).trans inside
  · rcases List.suffix_cons_iff.mp longer with same | inside
    · rw [(List.cons.inj same).2]
    · exact absurd (inside.subset List.mem_cons_self) last

theorem mem_or_mem_of_cuts (differ : mark ≠ other) (cut : text = before ++ mark :: after)
    (otherCut : text = front ++ other :: back) : mark ∈ back ∨ other ∈ after := by
  have inText : mark :: after <:+ text := ⟨before, cut.symm⟩
  have alsoInText : other :: back <:+ text := ⟨front, otherCut.symm⟩
  rcases List.suffix_or_suffix_of_suffix inText alsoInText with shorter | longer
  · rcases List.suffix_cons_iff.mp shorter with same | inside
    · exact absurd (List.cons.inj same).1 differ
    · exact .inl (inside.subset List.mem_cons_self)
  · rcases List.suffix_cons_iff.mp longer with same | inside
    · exact absurd (List.cons.inj same).1.symm differ
    · exact .inr (inside.subset List.mem_cons_self)

end Cuts

/-! ## Texts that have bytes -/

theorem all_codes_between {separator : List Char} (nonempty : separator ≠ [])
    (separates : ∀ c ∈ separator, c.toNat < Code.planeStart) (test : Code → Bool)
    (plain : ∀ c, test (.char c) = true) (before after : List Char) :
    (codes (before ++ (separator ++ after))).all test =
      ((codes before).all test && (codes after).all test) := by
  induction separator generalizing before with
  | nil => exact absurd rfl nonempty
  | cons c more ih =>
    rw [List.forall_mem_cons] at separates
    rw [List.cons_append, codes_append_cons separates.1, List.all_append, List.all_cons, plain,
      Bool.true_and]
    cases more with
    | nil => rfl
    | cons d more =>
      have rest := ih (List.cons_ne_nil d more) separates.2 []
      rw [List.nil_append] at rest
      rw [rest]
      rfl

/-- A text of characters that are kept as they are, also right after a mark. -/
def separates (text : String) : Bool :=
  !text.toList.isEmpty && text.toList.all fun c => c.toNat < Code.planeStart

theorem separates_iff {text : String} :
    separates text = true ↔ text.toList ≠ [] ∧ ∀ c ∈ text.toList, c.toNat < Code.planeStart := by
  simp [separates]

theorem separates_append {first second : String} (here : separates first = true)
    (there : separates second = true) : separates (first ++ second) = true := by
  rw [separates_iff] at here there ⊢
  rw [String.toList_append, List.forall_mem_append]
  exact ⟨List.append_ne_nil_of_left_ne_nil here.1 _, here.2, there.2⟩

theorem separates_nat (n : Nat) : separates (toString n) = true := by
  have digits : (toString n).toList = Nat.toDigits 10 n := by simp
  rw [separates_iff, digits]
  refine ⟨Nat.toDigits_ne_nil, fun c member => ?_⟩
  have digit := Nat.isDigit_of_mem_toDigits (by decide) (by decide) member
  simp only [Char.isDigit, Bool.and_eq_true, decide_eq_true_eq] at digit
  have bound : c.toNat ≤ 57 := digit.2
  rw [Code.planeStart]
  omega

theorem separates_int (n : Int) : separates (toString n) = true := by
  cases n with
  | ofNat n => exact separates_nat n
  | negSucc n => exact separates_append (by decide) (separates_nat (n + 1))

section Encodable
variable {separator : String} (apart : separates separator = true)
include apart

theorem isEncodable_between (before after : String) :
    isEncodable (before ++ separator ++ after) = (isEncodable before && isEncodable after) := by
  rw [isEncodable, String.toList_append, String.toList_append, List.append_assoc]
  have inside := separates_iff.mp apart
  exact all_codes_between inside.1 inside.2 _ (fun _ => rfl) _ _

theorem isEncodable_after (text : String) : isEncodable (separator ++ text) = isEncodable text := by
  simpa [isEncodable, codes] using isEncodable_between apart "" text

theorem isEncodable_of_separates : isEncodable separator = true := by
  simpa [isEncodable, codes] using isEncodable_after apart ""

theorem isEncodable_before (text : String) : isEncodable
    (text ++ separator) = isEncodable text := by
  simpa [isEncodable, codes] using isEncodable_between apart text ""

theorem isEncodable_intercalate (parts : List String) :
    isEncodable (separator.intercalate parts) = true ↔ ∀ part ∈ parts, isEncodable part = true := by
  induction parts with
  | nil => simp [isEncodable, codes]
  | cons first rest ih =>
    cases rest with
    | nil => simp
    | cons second rest =>
      rw [String.intercalate_cons_cons, isEncodable_between apart, Bool.and_eq_true, ih]
      exact (List.forall_mem_cons (p := (isEncodable · = true))).symm

end Encodable

theorem isEncodable_splitAll (text : String) :
    (∀ line ∈ splitAll '\n' text, isEncodable line = true) ↔ isEncodable text = true := by
  have lines : "\n".intercalate (splitAll '\n' text) = text := by
    refine String.ext ?_
    have strings : (splitAll '\n' text).map String.toList = pieces '\n' text.toList := by
      simp [splitAll, List.map_map, Function.comp_def]
    rw [String.toList_intercalate, strings]
    exact intercalate_pieces '\n' text.toList
  rw [← isEncodable_intercalate (by decide : separates "\n" = true), lines]

end SupplyLint.Text
