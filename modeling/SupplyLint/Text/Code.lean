/-! The codes of a text. Besides characters a text may hold surrogates, the codes U+D800 to U+DFFF:
two of them in a row stand for one character in UTF-16, and alone they stand for none. A text keeps
a surrogate as two characters, the mark U+10FFFF and one of a private plane. It keeps the mark as
two marks, and every other character as it is. Whatever counts, orders, matches or writes codes
reads them back first. Main statement: the codes that a text keeps are read back as they are. -/
set_option autoImplicit false

namespace SupplyLint.Text

/-- A character, or a surrogate by its distance from the first one. -/
inductive Code
  | char (c : Char)
  | surrogate (distance : Fin 2048)
  deriving DecidableEq

namespace Code

def mark : Char :=
  Char.ofNat 0x10ffff

/-- The first character of the private plane. -/
def planeStart : Nat := 0xf0000

def number : Code → Nat
  | .char c => c.toNat
  | .surrogate distance => 0xd800 + distance

def ofNat (number : Nat) : Code :=
  if inside : 0xd800 ≤ number ∧ number < 0xe000 then
    .surrogate ⟨number - 0xd800, by omega⟩
  else .char (Char.ofNat number)

def isSurrogate : Code → Bool
  | .char _ => false
  | .surrogate _ => true

def kept : Code → List Char
  | .char c => if c = mark then [mark, mark] else [c]
  | .surrogate distance => [mark, Char.ofNat (planeStart + distance)]

/-- The code that is kept as the mark and a character. -/
def afterMark? (c : Char) : Option Code :=
  if c = mark then some (.char mark)
  else if inside : planeStart ≤ c.toNat ∧ c.toNat < planeStart + 2048 then
    some (.surrogate ⟨c.toNat - planeStart, by omega⟩)
  else none

/-- The character by which a code is shown; a surrogate has none of its own. -/
def shown : Code → Char
  | .char c => c
  | .surrogate _ => '?'

theorem afterMark?_mark : afterMark? mark = some (.char mark) := by
  simp [afterMark?]

theorem toNat_ofNat_plane (distance : Fin 2048) :
    (Char.ofNat (planeStart + distance)).toNat = planeStart + distance := by
  have bound := distance.isLt
  have valid : (planeStart + distance.val).isValidChar := by
    simp only [Nat.isValidChar, planeStart]
    omega
  rw [Char.ofNat, dif_pos valid]
  rfl

theorem afterMark?_plane (distance : Fin 2048) :
    afterMark? (Char.ofNat (planeStart + distance)) = some (.surrogate distance) := by
  have bound := distance.isLt
  have number := toNat_ofNat_plane distance
  have differs : Char.ofNat (planeStart + distance) ≠ mark := by
    intro same
    rw [same] at number
    have last : mark.toNat = 0x10ffff := by decide
    simp only [planeStart] at number
    omega
  rw [afterMark?, if_neg differs, dif_pos (by rw [number]; omega)]
  simp [number]

theorem ne_mark_of_lt {c : Char} (low : c.toNat < planeStart) : c ≠ mark := by
  rintro rfl
  revert low
  decide

theorem afterMark?_of_lt {c : Char} (low : c.toNat < planeStart) : afterMark? c = none := by
  rw [afterMark?, if_neg (ne_mark_of_lt low), dif_neg fun inside => absurd low (by omega)]

end Code

/-- The codes of a text. A mark that keeps nothing stands for itself. -/
def codes : List Char → List Code
  | [] => []
  | [c] => [.char c]
  | c :: d :: rest =>
    match if c = Code.mark then Code.afterMark? d else none with
    | some code => code :: codes rest
    | none => .char c :: codes (d :: rest)

theorem codes_mark (c : Char) (rest : List Char) (code : Code)
    (pair : Code.afterMark? c = some code) :
      codes (Code.mark :: c :: rest) = code :: codes rest := by
  simp [codes, pair]

theorem codes_char (c : Char) (rest : List Char) (plain : c ≠ Code.mark) :
    codes (c :: rest) = .char c :: codes rest := by
  cases rest with
  | nil => rfl
  | cons d rest => simp [codes, plain]

theorem codes_append_cons {c : Char} (low : c.toNat < Code.planeStart) (before after : List Char) :
    codes (before ++ c :: after) = codes before ++ .char c :: codes after := by
  have none := Code.afterMark?_of_lt low
  have plain := Code.ne_mark_of_lt low
  -- A low character is no half of a pair, so the walk ends a character right in front of it.
  induction before using codes.induct with
  | case1 => exact codes_char c after plain
  | case2 d =>
    by_cases marked : d = Code.mark
    · simp [codes, marked, none, codes_char c after plain]
    · simp [codes, marked, codes_char c after plain]
  | case3 d e rest code pair ih => simp [codes, pair, ih]
  | case4 d e rest pair ih =>
    simp only [List.cons_append] at ih ⊢
    rw [codes, codes, pair]
    simp [ih]

/-- The codes that a text keeps are read back as they are. -/
theorem codes_flatMap_kept (all : List Code) : codes (all.flatMap Code.kept) = all := by
  induction all with
  | nil => rfl
  | cons code rest ih =>
    rw [List.flatMap_cons]
    cases code with
    | char c =>
      by_cases marked : c = Code.mark
      · subst marked
        simpa [Code.kept, ih] using
          codes_mark Code.mark (rest.flatMap Code.kept) (.char Code.mark) Code.afterMark?_mark
      · simpa [Code.kept, marked, ih] using codes_char c (rest.flatMap Code.kept) marked
    | surrogate distance =>
      simpa [Code.kept, ih] using
        codes_mark (Char.ofNat (Code.planeStart + distance)) (rest.flatMap Code.kept)
          (.surrogate distance) (Code.afterMark?_plane distance)

/-- The text that keeps characters. -/
def keptChars (chars : List Char) : List Char :=
  chars.flatMap fun c => (Code.char c).kept

def keptText (text : String) : String :=
  String.ofList (keptChars text.toList)

def shownText (text : String) : String :=
  String.ofList ((codes text.toList).map Code.shown)

/-- Texts are ordered by the numbers of their codes. -/
def compareText (x y : String) : Ordering :=
  compare ((codes x.toList).map Code.number) ((codes y.toList).map Code.number)

/-- Surrogates in a row: the number of the first, and the positions of the first and the last. -/
structure SurrogateRun where
  number : Nat
  first : Nat
  last : Nat

/-- The first surrogate that is not spared, with those right after it; the codes start at a
position. -/
def surrogateRunFrom (spared : Code → Bool) (position : Nat) : List Code → Option SurrogateRun
  | [] => none
  | code :: rest =>
    let run := (code :: rest).takeWhile Code.isSurrogate
    match run.dropWhile spared with
    | [] => surrogateRunFrom spared (position + 1) rest
    | first :: more =>
      let last := position + run.length - 1
      some ⟨first.number, last - more.length, last⟩

/-- The first surrogates in a text, which UTF-8 has no bytes for. -/
def surrogateRun? (text : String) : Option SurrogateRun :=
  surrogateRunFrom (fun _ => false) 0 (codes text.toList)

def isEncodable (text : String) : Bool :=
  (codes text.toList).all fun code => !code.isSurrogate

theorem surrogateRunFrom_eq_none_iff (position : Nat) (all : List Code) :
    surrogateRunFrom (fun _ => false) position all = none ↔
      (all.all fun code => !code.isSurrogate) = true := by
  induction all generalizing position with
  | nil => simp [surrogateRunFrom]
  | cons code rest ih =>
    cases surrogate : code.isSurrogate with
    | true => simp [surrogateRunFrom, surrogate]
    | false => simp [surrogateRunFrom, surrogate, ih]

theorem surrogateRun?_eq_none_iff (text : String) :
    surrogateRun? text = none ↔ isEncodable text = true :=
  surrogateRunFrom_eq_none_iff 0 _

/-- The first surrogates in a name of a file. Those from U+DC80 to U+DCFF stand for single bytes. -/
def surrogateRunInName? (text : String) : Option SurrogateRun :=
  surrogateRunFrom (fun code => 0xdc80 ≤ code.number && code.number < 0xdd00) 0 (codes text.toList)

end SupplyLint.Text
