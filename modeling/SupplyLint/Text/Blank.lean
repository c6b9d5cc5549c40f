/-! Sets of characters, given by ranges of code points with both ends in them; blank characters and
trimming. Blanks are the white space of every script, the line and paragraph separators, and the
four information separators U+001C to U+001F. -/
set_option autoImplicit false

namespace SupplyLint.Text

abbrev CharSet := List (Nat × Nat)

def CharSet.has (set : CharSet) (c : Char) : Bool :=
  set.any fun range => range.1 ≤ c.toNat && c.toNat ≤ range.2

def blanks : CharSet :=
  [(0x9, 0xd), (0x1c, 0x20), (0x85, 0x85), (0xa0, 0xa0), (0x1680, 0x1680), (0x2000, 0x200a),
   (0x2028, 0x2029), (0x202f, 0x202f), (0x205f, 0x205f), (0x3000, 0x3000)]

def isBlank (c : Char) : Bool :=
  blanks.has c

def isNameLetter (c : Char) : Bool :=
  c.isAlpha || c = '_'

/-- The text without the characters of a class at either end. -/
def trimBy (drop : Char → Bool) (text : List Char) : List Char :=
  ((text.dropWhile drop).reverse.dropWhile drop).reverse

def trimEndBy (drop : Char → Bool) (text : List Char) : List Char :=
  (text.reverse.dropWhile drop).reverse

def trim (text : String) : String :=
  String.ofList (trimBy isBlank text.toList)

def trimChars (drop : List Char) (text : String) : String :=
  String.ofList (trimBy (fun c => drop.contains c) text.toList)

end SupplyLint.Text
