import SupplyLint.Text.Code
import SupplyLint.Yaml.Cursor

/-! The text of YAML scalars in their five styles. Line breaks inside a plain or quoted scalar are
folded: a single one becomes a blank, further ones stay. A literal block keeps its breaks, a folded
one folds those between lines that do not start with a blank. -/
set_option autoImplicit false

namespace SupplyLint.Yaml

open SupplyLint.Text (Code keptChars)

abbrev Scanned := List Char × Cursor

/-- Breaks at the head of lines, the blanks before and between them left out. -/
def foldedBreaks (skipped : Char → Bool) : Nat → Cursor → Reading Scanned
  | 0, cursor => .ok ([], cursor)
  | budget + 1, cursor =>
    if cursor.atDocumentMarker then .error .malformed
    else
      let cursor := cursor.skipWhile skipped
      if isBreak cursor.peek then do
        let (text, after) := cursor.lineBreak
        let (more, after) ← foldedBreaks skipped budget after
        return (text ++ more, after)
      else .ok ([], cursor)

def folded (first more : List Char) : List Char :=
  if first ≠ ['\n'] then first ++ more
  else if more.isEmpty then [' ']
  else more

def escapeOf? : Char → Option Char
  | '0' => some '\x00'
  | 'a' => some '\x07'
  | 'b' => some '\x08'
  | 't' => some '\t'
  | '\t' => some '\t'
  | 'n' => some '\n'
  | 'v' => some '\x0b'
  | 'f' => some '\x0c'
  | 'r' => some '\r'
  | 'e' => some '\x1b'
  | ' ' => some ' '
  | '"' => some '"'
  | '\\' => some '\\'
  | '/' => some '/'
  | 'N' => some '\x85'
  | '_' => some '\xa0'
  | 'L' => some '\u2028'
  | 'P' => some '\u2029'
  | _ => none

def escapeWidth? : Char → Option Nat
  | 'x' => some 2
  | 'u' => some 4
  | 'U' => some 8
  | _ => none

def hexValue (digits : List Char) : Nat :=
  digits.foldl (fun number c =>
    number * 16 + (if c.isDigit then c.toNat - 48 else c.toLower.toNat - 87)) 0

def codeOf (code : Nat) : Reading Code :=
  if code < 0x110000 then .ok (.ofNat code)
  else .error (.fault (if code < Nat.pow 2 31 then .characterRange else .characterOverflow))

/-- The rest of a quoted scalar's line: characters and escapes up to a gap or the closing quote.
Only here can a surrogate be named. -/
def quotedRun (double : Bool) : Nat → Cursor → Reading Scanned
  | 0, cursor => .ok ([], cursor)
  | budget + 1, cursor =>
    let continued (text : List Char) (after : Cursor) : Reading Scanned := do
      let (more, after) ← quotedRun double budget after
      return (text ++ more, after)
    let plain (c : Char) : Bool := !(c = '\'' || c = '"' || c = '\\' || isGap c)
    let c := cursor.peek
    if plain c then
      let (text, after) := cursor.span plain
      continued (keptChars text) after
    else if !double && c = '\'' && cursor.peekAt 1 = '\'' then continued ['\''] (cursor.skip 2)
    else if (double && c = '\'') || (!double && (c = '"' || c = '\\')) then
      continued [c] cursor.next
    else if double && c = '\\' then
      let after := cursor.next
      let letter := after.peek
      match escapeOf? letter, escapeWidth? letter with
      | some char, _ => continued [char] after.next
      | none, some width =>
        let digits := after.next.rest.take width
        if digits.length = width && digits.all isHexChar then do
          let code ← codeOf (hexValue digits)
          continued code.kept (after.next.skip width)
        else .error .malformed
      | none, none =>
        if isBreak letter then do
          let (_, after) := after.lineBreak
          let (breaks, after) ← foldedBreaks isSpace after.budget after
          continued breaks after
        else .error .malformed
    else .ok ([], cursor)

def quotedGap (cursor : Cursor) : Reading Scanned :=
  let (spaces, after) := cursor.span isSpace
  if isEnd after.peek then .error .malformed
  else if isBreak after.peek then do
    let (first, after) := after.lineBreak
    let (more, after) ← foldedBreaks isSpace after.budget after
    return (folded first more, after)
  else .ok (spaces, after)

def quotedRest (double : Bool) : Nat → Cursor → Reading Scanned
  | 0, _ => .error .malformed
  | budget + 1, cursor => do
    let (text, after) ← quotedRun double cursor.budget cursor
    if after.peek = (if double then '"' else '\'') then return (text, after.next)
    let (gap, after) ← quotedGap after
    let (more, after) ← quotedRest double budget after
    return (text ++ gap ++ more, after)

def quotedScalar (double : Bool) (cursor : Cursor) : Reading Scanned :=
  quotedRest double cursor.budget cursor.next

/-- A colon inside a plain scalar ends it before a gap, and in a flow before punctuation. -/
def endsAtColon (inFlow : Bool) (rest : List Char) : Bool :=
  match rest with
  | [] => true
  | c :: _ => isGap c || (inFlow && [',', '[', ']', '\x7b', '\x7d'].contains c)

def plainRun (inFlow : Bool) : List Char → List Char
  | [] => []
  | c :: rest =>
    if isGap c || (c = ':' && endsAtColon inFlow rest) ||
        (inFlow && [',', '?', '[', ']', '\x7b', '\x7d'].contains c) then []
    else c :: plainRun inFlow rest

/-- Blank lines after the first break of a gap in a plain scalar; none if a document ends there. -/
def plainBreaks : Nat → Cursor → Option (List Char) × Cursor
  | 0, cursor => (some [], cursor)
  | budget + 1, cursor =>
    let cursor := cursor.skipWhile (· = ' ')
    if isBreak cursor.peek then
      let (text, after) := cursor.lineBreak
      if after.atDocumentMarker then (none, after)
      else
        let (more, after) := plainBreaks budget after
        (more.map (text ++ ·), after)
    else (some [], cursor)

/-- The gap after a run of a plain scalar, with whether it crosses a line. -/
def plainGap (cursor : Cursor) : List Char × Bool × Cursor :=
  let (spaces, after) := cursor.span (· = ' ')
  if isBreak after.peek then
    let (first, after) := after.lineBreak
    if after.atDocumentMarker then ([], true, after)
    else
      match plainBreaks after.budget after with
      | (none, after) => ([], true, after)
      | (some more, after) => (folded first more, true, after)
  else (spaces, false, after)

/-- A plain scalar from a place, the gap before that place given; the second part says whether the
last gap that was passed crosses a line. -/
def plainFrom (inFlow : Bool) (indent : Int) : Nat → List Char → Bool → Cursor →
    List Char × Bool × Cursor
  | 0, _, crossed, cursor => ([], crossed, cursor)
  | budget + 1, gap, crossed, cursor =>
    let run := plainRun inFlow cursor.rest
    if cursor.peek = '#' || run.isEmpty then ([], crossed, cursor)
    else
      let (spaces, crossed, after) := plainGap (cursor.skip run.length)
      if spaces.isEmpty || after.peek = '#' || (!inFlow && (after.column : Int) < indent) then
        (gap ++ run, crossed, after)
      else
        let (more, crossed, after) := plainFrom inFlow indent budget spaces crossed after
        (gap ++ run ++ more, crossed, after)

def plainScalar (inFlow : Bool) (indent : Int) (cursor : Cursor) : List Char × Bool × Cursor :=
  let (text, crossed, after) := plainFrom inFlow indent cursor.budget [] false cursor
  (keptChars text, crossed, after)

/-- What to do with the breaks at the end of a block: drop all, keep one, or keep all. -/
inductive Chomping
  | strip
  | clip
  | keep
  deriving DecidableEq

structure BlockHeader where
  chomping : Chomping := .clip
  increment : Option Nat := none

def chompingOf? : Char → Option Chomping
  | '+' => some .keep
  | '-' => some .strip
  | _ => none

def incrementAt (cursor : Cursor) : Reading (Option Nat × Cursor) :=
  let c := cursor.peek
  if c = '0' then .error .malformed
  else if c.isDigit then .ok (some (c.toNat - 48), cursor.next)
  else .ok (none, cursor)

/-- The indicators after `|` or `>`, in either order, and the rest of that line. -/
def blockHeader (cursor : Cursor) : Reading (BlockHeader × Cursor) := do
  let (header, cursor) ← match chompingOf? cursor.peek with
    | some chomping => do
      let (increment, after) ← incrementAt cursor.next
      pure (BlockHeader.mk chomping increment, after)
    | none => do
      let (increment, after) ← incrementAt cursor
      match increment, chompingOf? after.peek with
      | some _, some chomping => pure (BlockHeader.mk chomping increment, after.next)
      | _, _ => pure (BlockHeader.mk .clip increment, after)
  if !isStop cursor.peek then throw .malformed
  let cursor := cursor.skipComment
  if !isBreakOrEnd cursor.peek then throw .malformed
  return (header, cursor.lineBreak.2)

/-- Blank lines at the head of a block, and the deepest column that their blanks reach. -/
def blockIndentation : Nat → Nat → Cursor → List Char × Nat × Cursor
  | 0, deepest, cursor => ([], deepest, cursor)
  | budget + 1, deepest, cursor =>
    if cursor.peek = ' ' then
      let after := cursor.next
      blockIndentation budget (max deepest after.column) after
    else if isBreak cursor.peek then
      let (text, after) := cursor.lineBreak
      let (more, deepest, after) := blockIndentation budget deepest after
      (text ++ more, deepest, after)
    else ([], deepest, cursor)

def skipIndent (indent : Nat) (cursor : Cursor) : Cursor :=
  cursor.skip ((cursor.rest.take (indent - cursor.column)).takeWhile (· = ' ')).length

def blockBreaks (indent : Nat) : Nat → Cursor → Scanned
  | 0, cursor => ([], cursor)
  | budget + 1, cursor =>
    let cursor := skipIndent indent cursor
    if isBreak cursor.peek then
      let (text, after) := cursor.lineBreak
      let (more, after) := blockBreaks indent budget after
      (text ++ more, after)
    else ([], cursor)

/-- The lines of a block: their text, the last break, and the breaks after it. -/
def blockLines (folds : Bool) (indent : Nat) : Nat → List Char → Cursor →
    List Char × List Char × List Char × Cursor
  | 0, breaks, cursor => ([], [], breaks, cursor)
  | budget + 1, breaks, cursor =>
    if cursor.column = indent && !isEnd cursor.peek then
      let leading := isSpace cursor.peek
      let (line, after) := cursor.span (!isBreakOrEnd ·)
      let (last, after) := after.lineBreak
      let (following, after) := blockBreaks indent after.budget after
      if after.column = indent && !isEnd after.peek then
        let joint :=
          if folds && last = ['\n'] && !leading && !isSpace after.peek then
            if following.isEmpty then [' '] else []
          else last
        let (text, last, following, after) := blockLines folds indent budget following after
        (breaks ++ line ++ joint ++ text, last, following, after)
      else (breaks ++ line, last, following, after)
    else ([], [], breaks, cursor)

/-- A block scalar from its indicator on, inside a block of the given indentation. -/
def blockScalar (folds : Bool) (parent : Int) (cursor : Cursor) : Reading Scanned := do
  let (header, cursor) ← blockHeader cursor.next
  let least := max 1 (parent + 1).toNat
  let budget := cursor.budget
  let (indent, breaks, cursor) := match header.increment with
    | some increment =>
      let indent := least + increment - 1
      (indent, blockBreaks indent budget cursor)
    | none =>
      let (breaks, deepest, after) := blockIndentation budget 0 cursor
      (max least deepest, breaks, after)
  let (text, last, breaks, cursor) := blockLines folds indent budget breaks cursor
  let ending := match header.chomping with
    | .strip => []
    | .clip => last
    | .keep => last ++ breaks
  return (keptChars (text ++ ending), cursor)

end SupplyLint.Yaml
