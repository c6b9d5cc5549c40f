import SupplyLint.Fault
import SupplyLint.Keyed

/-! A place in a YAML stream of `size` characters: what is still to be read, and the index, line and
column of its first character, all counted from zero. The end of the stream reads as the character
U+0000, which no stream holds. -/
set_option autoImplicit false

namespace SupplyLint.Yaml

/-- Why a stream could not be read: it is no YAML, or one of its scalars is no value of its kind. -/
inductive ReadFailure
  | malformed
  | fault (fault : Fault)

abbrev Reading (α : Type) := Except ReadFailure α

structure Cursor where
  rest : List Char
  size : Nat
  index : Nat := 0
  line : Nat := 0
  column : Nat := 0

def isBreak (c : Char) : Bool :=
  c = '\n' || c = '\r' || c = '\x85' || c = '\u2028' || c = '\u2029'

def isSpace (c : Char) : Bool :=
  c = ' ' || c = '\t'

def isEnd (c : Char) : Bool :=
  c = '\x00'

def isGap (c : Char) : Bool :=
  isSpace c || isBreak c || isEnd c

def isBreakOrEnd (c : Char) : Bool :=
  isBreak c || isEnd c

/-- The separators that end a directive, a tag or a header: the tab is not among them. -/
def isStop (c : Char) : Bool :=
  c = ' ' || isBreakOrEnd c

def isNameChar (c : Char) : Bool :=
  c.isAlphanum || c = '-' || c = '_'

def isHexChar (c : Char) : Bool :=
  c.isDigit || ('a' ≤ c && c ≤ 'f') || ('A' ≤ c && c ≤ 'F')

namespace Cursor

def peekAt (cursor : Cursor) (n : Nat) : Char :=
  cursor.rest.getD n '\x00'

def peek (cursor : Cursor) : Char :=
  cursor.peekAt 0

/-- Goes past one character. A carriage return before a line feed does not end the line, and a byte
order mark takes no column. -/
def next (cursor : Cursor) : Cursor :=
  match cursor.rest with
  | [] => cursor
  | c :: rest =>
    if isBreak c && !(c = '\r' && rest.head? = some '\n') then
      { cursor with rest := rest, index := cursor.index + 1, line := cursor.line + 1, column := 0 }
    else if c = '\ufeff' then { cursor with rest := rest, index := cursor.index + 1 }
    else { cursor with rest := rest, index := cursor.index + 1, column := cursor.column + 1 }

def budget (cursor : Cursor) : Nat :=
  cursor.size - cursor.index + 1

def skip : Nat → Cursor → Cursor
  | 0, cursor => cursor
  | count + 1, cursor => skip count cursor.next

/-- The characters of a class at the head, and the place after them. -/
def span (holds : Char → Bool) (cursor : Cursor) : List Char × Cursor :=
  let taken := cursor.rest.takeWhile holds
  (taken, cursor.skip taken.length)

def skipWhile (holds : Char → Bool) (cursor : Cursor) : Cursor :=
  (cursor.span holds).2

/-- The line break at the head as text: the line and paragraph separators stand for themselves, any
other break is a line feed. Nothing is read where there is none. -/
def lineBreak (cursor : Cursor) : List Char × Cursor :=
  let c := cursor.peek
  if c = '\r' && cursor.peekAt 1 = '\n' then (['\n'], cursor.skip 2)
  else if c = '\u2028' || c = '\u2029' then ([c], cursor.next)
  else if isBreak c then (['\n'], cursor.next)
  else ([], cursor)

/-- Three equal marks and then a gap: what starts or ends a document at the head of a line. -/
def atMarker (mark : Char) (cursor : Cursor) : Bool :=
  cursor.rest.take 3 == [mark, mark, mark] && isGap (cursor.peekAt 3)

def atDocumentMarker (cursor : Cursor) : Bool :=
  cursor.atMarker '-' || cursor.atMarker '.'

def skipComment (cursor : Cursor) : Cursor :=
  let cursor := cursor.skipWhile (· = ' ')
  if cursor.peek = '#' then cursor.skipWhile (!isBreakOrEnd ·) else cursor

end Cursor

end SupplyLint.Yaml
