import SupplyLint.Text.Code

/-! How alike two texts are. The longest run of characters that both have is matched, then what
stands before it in both, and then what stands after it. Two texts are alike when the matched
characters make up three fifths of them. -/
set_option autoImplicit false

namespace SupplyLint.Text

def sharedHead : List Code → List Code → Nat
  | a :: s, b :: t => if a = b then sharedHead s t + 1 else 0
  | _, _ => 0

/-- A run of characters that stands in two texts, at a place in each. -/
structure SharedRun where
  first : Nat
  second : Nat
  length : Nat

/-- The longer of two runs, and of two equally long ones the one found before. -/
def SharedRun.longer (x y : SharedRun) : SharedRun :=
  if x.length < y.length then y else x

def sharedRuns (s t : List Code) : List SharedRun :=
  (List.range s.length).flatMap fun i =>
    (List.range t.length).map fun j => ⟨i, j, sharedHead (s.drop i) (t.drop j)⟩

def longestRun (s t : List Code) : SharedRun :=
  (sharedRuns s t).foldl SharedRun.longer ⟨0, 0, 0⟩

/-- The number of matched characters; `budget` bounds the runs, of which each takes a character. -/
def matchedFrom : Nat → List Code → List Code → Nat
  | 0, _, _ => 0
  | budget + 1, s, t =>
    let run := longestRun s t
    if run.length = 0 then 0
    else
      matchedFrom budget (s.take run.first) (t.take run.second) + run.length +
        matchedFrom budget (s.drop (run.first + run.length)) (t.drop (run.second + run.length))

def matchedCount (s t : List Code) : Nat :=
  matchedFrom s.length s t

/-- How alike a text is to another: twice the matched characters, and all characters of both. -/
structure Likeness where
  text : String
  matched : Nat
  total : Nat

def likeness (word text : String) : Likeness :=
  let (text', word') := (codes text.toList, codes word.toList)
  ⟨text, 2 * matchedCount text' word', text'.length + word'.length⟩

def Likeness.isEnough (likeness : Likeness) : Bool :=
  3 * likeness.total ≤ 5 * likeness.matched

/-- The most alike first; of two that are equally alike, the one later in the order of texts. -/
def Likeness.before (x y : Likeness) : Bool :=
  let left := x.matched * y.total
  let right := y.matched * x.total
  right < left || (left == right && !(x.text < y.text))

/-- The three texts that are most alike to a word, of those that are alike enough. -/
def closest (word : String) (texts : List String) : List String :=
  let alike := (texts.map (likeness word)).filter Likeness.isEnough
  ((alike.mergeSort Likeness.before).take 3).map (·.text)

end SupplyLint.Text
