import SupplyLint.Text.CaseTable

/-! Lower case and title case of text, and the comparison of letters without regard to case.

Lower case works on one character at a time, save for two: the capital I with a dot becomes two
characters, and the capital sigma becomes the final sigma at the end of a word, that is, when a
letter with case stands before it and none after it, ignorable characters in between not counted. -/
set_option autoImplicit false

namespace SupplyLint.Text

def hasCase (c : Char) : Bool :=
  cased.has c

/-- The nearest character that is not passed over has case. -/
def letterNext (text : List Char) : Bool :=
  match text.dropWhile caseIgnorable.has with
  | [] => false
  | c :: _ => hasCase c

/-- The lower case form of a character between the text before it, nearest first, and after it. -/
def lowerAt (before : List Char) (c : Char) (after : List Char) : List Char :=
  if c = 'Σ' then [if letterNext before && !letterNext after then 'ς' else 'σ']
  else if c = 'İ' then ['i', '\u0307']
  else [CaseRun.form lowerRuns c]

def titleForm (c : Char) : List Char :=
  match titleExpansions.find? (·.1 == c.toNat) with
  | some expansion => expansion.2.map Char.ofNat
  | none => [CaseRun.form titleRuns c]

def lowerFrom (before : List Char) : List Char → List Char
  | [] => []
  | c :: rest => lowerAt before c rest ++ lowerFrom (c :: before) rest

def lower (text : String) : String :=
  String.ofList (lowerFrom [] text.toList)

/-- A letter with case after another one is in lower case, the first of a run in title case. -/
def titleFrom (before : List Char) : List Char → List Char
  | [] => []
  | c :: rest =>
    let inWord := match before with
      | [] => false
      | last :: _ => hasCase last
    (if inWord then lowerAt before c rest else titleForm c) ++ titleFrom (c :: before) rest

def title (text : String) : String :=
  String.ofList (titleFrom [] text.toList)

/-- The ASCII letter that a character equals when case is ignored: the long s is an s, the Kelvin
sign a k, and the dotless and the dotted I are an i. -/
def foldCase (c : Char) : Char :=
  if c = 'ſ' then 's'
  else if c = '\u212a' then 'k'
  else if c = 'ı' || c = 'İ' then 'i'
  else c.toLower

end SupplyLint.Text
