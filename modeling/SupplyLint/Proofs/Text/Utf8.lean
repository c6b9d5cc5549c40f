import SupplyLint.ConfigFile
import SupplyLint.Proofs.Outcome

/-! # UTF-8 in pieces

`textOf_of_decodes`: a content that is UTF-8 is the same text however it is cut into
pieces. A character that a cut goes through is reported as cut, at its first byte,
and is read with the next piece. -/
set_option autoImplicit false

namespace SupplyLint.Text

/-- The bytes of a character: they are read as it whatever follows them. -/
def IsChar (used : List UInt8) (c : Char) : Prop :=
  ∃ lead tail, used = lead :: tail ∧
    ∀ later, utf8Step lead (tail ++ later) = .char c used.length later

/-- The bytes of the characters of a text, one after another. -/
inductive Decodes : List UInt8 → List Char → Prop
  | nil : Decodes [] []
  | cons {used bytes : List UInt8} {c : Char} {text : List Char} (first : IsChar used c)
      (rest : Decodes bytes text) : Decodes (used ++ bytes) (c :: text)

/-! ## One character -/

section Continue
variable {read code count low high width : Nat} {c : Char}

theorem utf8Continue_char {rest after : List UInt8}
    (reads : utf8Continue read code count low high rest = .char c width after) :
    ∃ used, rest = used ++ after ∧ width = read + used.length ∧
      ∀ later, utf8Continue read code count low high (used ++ later) = .char c width later := by
  induction count generalizing read code low high rest with
  | zero =>
    simp only [utf8Continue, Utf8Step.char.injEq] at reads
    obtain ⟨rfl, rfl, rfl⟩ := reads
    exact ⟨[], rfl, rfl, fun later => rfl⟩
  | succ count ih =>
    cases rest with
    | nil => cases reads
    | cons byte rest =>
      simp only [utf8Continue] at reads
      split at reads
      · next inside =>
        obtain ⟨used, rfl, rfl, again⟩ := ih reads
        refine ⟨byte :: used, rfl, by simp only [List.length_cons]; omega, fun later => ?_⟩
        simp only [List.cons_append, utf8Continue, inside, if_true]
        exact again later
      · cases reads

theorem exists_count_of_reads {used : List UInt8} (more : used ≠ [])
    (reads : ∀ later, utf8Continue read code count low high (used ++ later) = .char c width later) :
    ∃ fewer, count = fewer + 1 := by
  refine Nat.exists_eq_succ_of_ne_zero ?_
  rintro rfl
  have none := reads []
  simp only [utf8Continue, List.append_nil, Utf8Step.char.injEq] at none
  exact more none.2.2

theorem utf8Continue_cut (first : List UInt8) {second : List UInt8} (more : second ≠ [])
    (reads : ∀ later, utf8Continue read code count low high (first ++ second ++ later) =
      .char c width later) :
    ∃ spoiled, utf8Continue read code count low high first = .bad .cut spoiled := by
  have left : first ++ second ≠ [] := by simp [more]
  obtain ⟨fewer, rfl⟩ := exists_count_of_reads left reads
  induction first generalizing read code fewer low high with
  | nil => exact ⟨read, rfl⟩
  | cons byte rest ih =>
    simp only [List.cons_append, utf8Continue] at reads ⊢
    split at reads
    · next inside =>
      have later : rest ++ second ≠ [] := by simp [more]
      obtain ⟨others, rfl⟩ := exists_count_of_reads later reads
      simp only [inside, if_true]
      exact ih later others reads
    · cases reads []

end Continue

section Step
variable {lead : UInt8} {rest after : List UInt8} {c : Char} {width : Nat}

theorem isChar_of_utf8Step (reads : utf8Step lead rest = .char c width after) :
    ∃ tail, rest = tail ++ after ∧ width = tail.length + 1 ∧ IsChar (lead :: tail) c := by
  by_cases single : lead.toNat < 0x80
  · simp only [utf8Step, if_pos single, Utf8Step.char.injEq] at reads
    obtain ⟨rfl, rfl, rfl⟩ := reads
    refine ⟨[], rfl, rfl, lead, [], rfl, fun later => ?_⟩
    rw [utf8Step, if_pos single]
    rfl
  · simp only [utf8Step, if_neg single] at reads
    cases follows : utf8Follow lead.toNat with
    | none =>
      rw [follows] at reads
      cases reads
    | some range =>
      obtain ⟨count, low, high⟩ := range
      rw [follows] at reads
      obtain ⟨used, rfl, rfl, again⟩ := utf8Continue_char reads
      refine ⟨used, rfl, Nat.add_comm 1 _, lead, used, rfl, fun later => ?_⟩
      simp only [utf8Step, if_neg single, follows, List.length_cons]
      rw [again later, Nat.add_comm 1]

theorem utf8Step_cut {first second : List UInt8} (isChar : IsChar (lead :: first ++ second) c)
    (more : second ≠ []) : ∃ spoiled, utf8Step lead first = .bad .cut spoiled := by
  obtain ⟨_, tail, same, reads⟩ := isChar
  obtain ⟨rfl, rfl⟩ := List.cons.inj same
  by_cases single : lead.toNat < 0x80
  · have all := reads []
    simp only [utf8Step, if_pos single, Utf8Step.char.injEq, List.append_nil] at all
    exact absurd all.2.2 (by simp [more])
  · simp only [utf8Step, if_neg single] at reads ⊢
    cases follows : utf8Follow lead.toNat with
    | none =>
      simp only [follows] at reads
      cases reads []
    | some range =>
      simp only [follows] at reads ⊢
      exact utf8Continue_cut first more reads

end Step

/-! ## Texts -/

section Texts
variable {bytes first second : List UInt8} {text : List Char}

theorem decodes_of_decodeUtf8From {budget position : Nat} (enough : bytes.length ≤ budget)
    (read : decodeUtf8From budget position bytes = .ok text) : Decodes bytes text := by
  induction budget generalizing position bytes text with
  | zero =>
    obtain rfl := List.length_eq_zero_iff.mp (Nat.le_zero.mp enough)
    obtain rfl := Except.ok.inj read
    exact .nil
  | succ budget ih =>
    cases bytes with
    | nil =>
      obtain rfl := Except.ok.inj read
      exact .nil
    | cons lead rest =>
      simp only [decodeUtf8From] at read
      split at read
      · cases read
      · next c width after step =>
        obtain ⟨others, readRest, rfl⟩ := map_eq_ok.mp read
        obtain ⟨tail, rfl, -, isChar⟩ := isChar_of_utf8Step step
        have less : after.length ≤ budget := by
          simp only [List.length_cons, List.length_append] at enough
          omega
        exact .cons isChar (ih less readRest)

theorem decodeUtf8From_cons {used later : List UInt8} {c : Char} (isChar : IsChar used c)
    (budget position : Nat) :
    decodeUtf8From (budget + 1) position (used ++ later) =
      (decodeUtf8From budget (position + used.length) later).map (c :: ·) := by
  obtain ⟨lead, tail, rfl, reads⟩ := isChar
  simp only [List.cons_append, decodeUtf8From, reads later]

theorem IsChar.ne_nil {used : List UInt8} {c : Char} (isChar : IsChar used c) : used ≠ [] := by
  obtain ⟨lead, tail, rfl, -⟩ := isChar
  exact List.cons_ne_nil lead tail

theorem Decodes.read (decodes : Decodes bytes text) {budget : Nat} (enough : bytes.length ≤ budget)
    (position : Nat) : decodeUtf8From budget position bytes = .ok text := by
  induction decodes generalizing budget position with
  | nil => cases budget <;> rfl
  | cons isChar rest ih =>
    have used := List.length_pos_iff.mpr isChar.ne_nil
    rw [List.length_append] at enough
    obtain ⟨fewer, rfl⟩ : ∃ fewer, budget = fewer + 1 := ⟨budget - 1, by omega⟩
    rw [decodeUtf8From_cons isChar, ih (by omega)]
    rfl

theorem decodeUtf8_eq_ok_iff : decodeUtf8 bytes = .ok text ↔ Decodes bytes text :=
  ⟨decodes_of_decodeUtf8From (Nat.le_refl _), fun decodes => decodes.read (Nat.le_refl _) 0⟩

/-- A content in two pieces. Either the cut is between two characters, or the first piece is read up
to the character that it goes through, and that one is reported as cut. -/
theorem Decodes.cut (decodes : Decodes (first ++ second) text) :
    ∃ whole spoiled earlier later, first = whole ++ spoiled ∧ Decodes whole earlier ∧
      Decodes (spoiled ++ second) later ∧ text = earlier ++ later ∧
      (spoiled ≠ [] → ∀ budget position, first.length ≤ budget → ∃ bytes,
        decodeUtf8From budget position first = .error ⟨.cut, position + whole.length, bytes⟩) := by
  generalize same : first ++ second = bytes at decodes
  induction decodes generalizing first with
  | nil =>
    obtain ⟨rfl, rfl⟩ := List.append_eq_nil_iff.mp same
    exact ⟨[], [], [], [], rfl, .nil, .nil, rfl, fun some => absurd rfl some⟩
  | @cons used bytes c text isChar rest ih =>
    rcases List.append_eq_append_iff.mp same with ⟨cutOff, rfl, rfl⟩ | ⟨more, rfl, rfl⟩
    · -- The cut is before the first character, behind it, or goes through it.
      cases first with
      | nil =>
        have all : Decodes (cutOff ++ bytes) (c :: text) := .cons isChar rest
        exact ⟨[], [], [], c :: text, rfl, .nil, all, rfl, fun some => absurd rfl some⟩
      | cons lead tail =>
        by_cases behind : cutOff = []
        · subst behind
          rw [List.append_nil] at isChar
          refine ⟨lead :: tail, [], [c], text, by simp, ?_, rest, rfl, fun some => absurd rfl some⟩
          simpa using Decodes.cons isChar .nil
        · obtain ⟨width, step⟩ := utf8Step_cut isChar behind
          refine ⟨[], lead :: tail, [], c :: text, rfl, .nil, ?_, rfl,
            fun _ budget position enough => ?_⟩
          · rw [← List.append_assoc]
            exact .cons isChar rest
          · obtain ⟨fewer, rfl⟩ : ∃ fewer, budget = fewer + 1 :=
              ⟨budget - 1, by rw [List.length_cons] at enough; omega⟩
            exact ⟨_, by simp only [decodeUtf8From, step]; rfl⟩
    · obtain ⟨whole, spoiled, earlier, later, rfl, wholeRead, laterRead, rfl, reports⟩ := ih rfl
      refine ⟨used ++ whole, spoiled, c :: earlier, later, by
        simp, .cons isChar wholeRead, laterRead, rfl, fun some budget position enough => ?_⟩
      have length := List.length_pos_iff.mpr isChar.ne_nil
      rw [List.length_append] at enough
      obtain ⟨fewer, rfl⟩ : ∃ fewer, budget = fewer + 1 := ⟨budget - 1, by omega⟩
      obtain ⟨bytes, reported⟩ := reports some fewer (position + used.length) (by omega)
      refine ⟨bytes, ?_⟩
      rw [decodeUtf8From_cons isChar, reported, List.length_append, Nat.add_assoc]
      rfl

theorem decodes_append {earlier later : List Char} (firstRead : Decodes first earlier)
    (secondRead : Decodes second later) : Decodes (first ++ second) (earlier ++ later) := by
  induction firstRead with
  | nil => exact secondRead
  | cons isChar rest ih =>
    rw [List.append_assoc]
    exact .cons isChar ih

end Texts

end SupplyLint.Text

namespace SupplyLint.ConfigFile

open SupplyLint.Text

theorem textFrom_of_decodes {budget : Nat} {pending content : List UInt8} {text : List Char}
    (decodes : Decodes (pending ++ content) text) (enough : content.length < budget) :
    textFrom budget pending content = .ok text := by
  induction budget generalizing pending content text with
  | zero => exact absurd enough (Nat.not_lt_zero _)
  | succ budget ih =>
    have pieces : pending ++ content =
        (pending ++ content.take pieceSize) ++ content.drop pieceSize := by
      rw [List.append_assoc, List.take_append_drop]
    rw [pieces] at decodes
    obtain ⟨whole, spoiled, earlier, later, piece, wholeRead, laterRead, rfl, reports⟩ :=
        decodes.cut
    simp only [textFrom]
    rw [piece] at reports ⊢
    by_cases last : content.drop pieceSize = []
    · rw [last, List.append_nil] at laterRead
      rw [decodeUtf8_eq_ok_iff.mpr (decodes_append wholeRead laterRead), last]
      rfl
    · have shorter : (content.drop pieceSize).length < budget := by
        have some := List.length_pos_iff.mpr last
        rw [List.length_drop] at some ⊢
        have size : 0 < pieceSize := by decide
        omega
      have goesOn : (content.drop pieceSize).isEmpty = false := by simpa using last
      by_cases between : spoiled = []
      · subst between
        have rest : textFrom budget [] (content.drop pieceSize) = .ok later := ih laterRead shorter
        rw [List.append_nil, decodeUtf8_eq_ok_iff.mpr wholeRead]
        simp only [goesOn, rest]
        rfl
      · obtain ⟨bytes, reported⟩ := reports between (whole ++ spoiled).length 0 (Nat.le_refl _)
        have cut : decodeUtf8 (whole ++ spoiled) = .error ⟨.cut, whole.length, bytes⟩ := by
          rw [decodeUtf8, reported, Nat.zero_add]
        have rest := ih laterRead shorter
        rw [cut]
        simp only [goesOn, List.take_left, List.drop_left, decodeUtf8_eq_ok_iff.mpr wholeRead, rest]
        rfl

/-- A content that is UTF-8 is read as its text. -/
theorem textOf_of_decodes {content : List UInt8} {text : List Char}
    (utf8 : decodeUtf8 content = .ok text) : textOf content = .ok text :=
  textFrom_of_decodes (decodeUtf8_eq_ok_iff.mp utf8) (Nat.lt_succ_self _)

end SupplyLint.ConfigFile
