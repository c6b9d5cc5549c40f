import SupplyLint.Text.Code
import SupplyLint.Text.Scan

/-! Glob patterns. A star stands for any characters, slashes among them, and a question mark for
one. Brackets stand for one character of a set, or with a leading `!` for one outside of it. A
bracket that is not closed stands for itself, and a bracket first in a set belongs to it. In a set,
a hyphen between two characters makes a range; a range whose ends are in the wrong order is taken
out together with them. Characters here are codes, so that a surrogate counts as one. -/
set_option autoImplicit false

namespace SupplyLint.Text.Glob

/-- The characters of a set: single ones, and ranges with both ends in them. -/
structure Members where
  single : List Code
  ranges : List (Code × Code)

def Members.has (members : Members) (c : Code) : Bool :=
  members.single.contains c || members.ranges.any fun range =>
    range.1.number ≤ c.number && c.number ≤ range.2.number

inductive Part
  | star
  | any
  | never
  | exactly (c : Code)
  | oneOf (members : Members)
  | noneOf (members : Members)

def Part.accepts : Part → Code → Bool
  | .star, _ => false
  | .any, _ => true
  | .never, _ => false
  | .exactly c, d => c == d
  | .oneOf members, c => members.has c
  | .noneOf members, c => !members.has c

/-- The text of a set between its brackets, and what follows it. -/
def setText (text : List Code) : Option (List Code × List Code) :=
  let (mark, text) := match text with
    | .char '!' :: rest => ([Code.char '!'], rest)
    | _ => ([], text)
  let (first, text) := match text with
    | .char ']' :: rest => ([Code.char ']'], rest)
    | _ => ([], text)
  (cutFirst (.char ']') text).map fun halves => (mark ++ first ++ halves.1, halves.2)

/-- Cuts the text of a set at the hyphens that make ranges. The first `skipped` characters are none,
nor are the two after such a hyphen. -/
def cutRanges : Nat → List Code → List Code → List (List Code)
  | _, chunk, [] => [chunk]
  | skipped + 1, chunk, c :: rest => cutRanges skipped (chunk ++ [c]) rest
  | 0, chunk, c :: rest =>
    if c = .char '-' then chunk :: cutRanges 2 [] rest else cutRanges 0 (chunk ++ [c]) rest

/-- A hyphen at the end makes no range. -/
def closeLast : List (List Code) → List (List Code)
  | [] => []
  | [chunk, []] => [chunk ++ [.char '-']]
  | chunk :: rest => chunk :: closeLast rest

/-- Takes out the range between a piece and the next one if its ends are in the wrong order. -/
def joinPieces (chunk : List Code) : List (List Code) → List (List Code)
  | [] => [chunk]
  | next :: more =>
    match chunk.getLast?, next.head? with
    | some low, some high =>
      if high.number < low.number then (chunk.dropLast ++ next.tail) :: more
        else chunk :: next :: more
    | _, _ => chunk :: next :: more

def rangesBetween : List (List Code) → List (Code × Code)
  | chunk :: next :: more =>
    (match chunk.getLast?, next.head? with
      | some low, some high => [(low, high)]
      | _, _ => []) ++ rangesBetween (next :: more)
  | _ => []

def setPieces (text : List Code) : List (List Code) :=
  let skipped := if text.head? = some (.char '!') then 2 else 1
  (closeLast (cutRanges skipped [] text)).foldr joinPieces []

/-- What a set stands for. The mark counts after the ranges have been taken out; if the first hyphen
is next to it then, that hyphen has no low end and belongs to the set. -/
def setPart (text : List Code) : Part :=
  match setPieces text with
  | [] => .never
  | [[]] => .never
  | [[.char '!']] => .any
  | [.char '!'] :: more => .noneOf ⟨.char '-' :: more.flatten, rangesBetween more⟩
  | (.char '!' :: first) :: more => .noneOf ⟨(first :: more).flatten, rangesBetween (first :: more)⟩
  | parts => .oneOf ⟨parts.flatten, rangesBetween parts⟩

/-- Reads a pattern with a budget of one part for each character. -/
def partsWithin : Nat → List Code → List Part
  | _, [] => []
  | 0, _ :: _ => []
  | budget + 1, c :: rest =>
    if c = .char '*' then .star :: partsWithin budget rest
    else if c = .char '?' then .any :: partsWithin budget rest
    else if c = .char '[' then
      match setText rest with
      | some (inside, after) => setPart inside :: partsWithin budget after
      | none => .exactly c :: partsWithin budget rest
    else .exactly c :: partsWithin budget rest

def parts (pattern : List Code) : List Part :=
  partsWithin pattern.length pattern

def acceptParts : List Part → List Code → Bool
  | [], text => text.isEmpty
  | .star :: more, text => anywhere (acceptParts more) text
  | part :: more, c :: rest => part.accepts c && acceptParts more rest
  | _ :: _, [] => false

def accepts (pattern text : String) : Bool :=
  acceptParts (parts (codes pattern.toList)) (codes text.toList)

end SupplyLint.Text.Glob
