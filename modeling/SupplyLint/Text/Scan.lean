import SupplyLint.Text.Split

/-! Finding the places where something stands in a text, from left to right and without overlaps. -/
set_option autoImplicit false

namespace SupplyLint.Text

/-- What is found at the head of a text, and how many characters it takes. -/
abbrev Finder (α : Type) := List Char → Option (α × Nat)

/-- All that is found in a text after the first `skipped` characters. What is found takes at least
one character. -/
def scanFrom {α : Type} (finder : Finder α) : Nat → List Char → List α
  | _, [] => []
  | skipped + 1, _ :: rest => scanFrom finder skipped rest
  | 0, c :: rest =>
    match finder (c :: rest) with
    | some (found, width) => found :: scanFrom finder (width - 1) rest
    | none => scanFrom finder 0 rest

def scan {α : Type} (finder : Finder α) (text : List Char) : List α :=
  scanFrom finder 0 text

/-- Whether a test holds somewhere in a text: before one of its characters, or at its end. -/
def anywhere {α : Type} (test : List α → Bool) : List α → Bool
  | [] => test []
  | c :: rest => test (c :: rest) || anywhere test rest

end SupplyLint.Text
