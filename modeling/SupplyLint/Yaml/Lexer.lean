import SupplyLint.Decimal.Literal
import SupplyLint.Yaml.Cursor
import SupplyLint.Yaml.Scalar

/-! Cutting a YAML stream into tokens. Blocks are opened and closed by tokens of their own, put in
where the indentation changes. A key before its colon is recognised late: where one may start, its
place is kept, and when a colon follows on the same line within 1024 characters a key token is put
in at that place. The tokens are collected newest first, so a place is a count of tokens from the
front. -/
set_option autoImplicit false

namespace SupplyLint.Yaml

inductive Directive
  | version (major : Nat)
  | handle (name space : String)
  | unknown
  deriving DecidableEq

/-- A tag is a handle with a suffix, or only a suffix. -/
inductive Token
  | streamEnd
  | directive (directive : Directive)
  | documentStart
  | documentEnd
  | blockSequence
  | blockMapping
  | blockEnd
  | flowSequence
  | flowSequenceEnd
  | flowMapping
  | flowMappingEnd
  | flowEntry
  | blockEntry
  | key
  | value
  | alias (name : String)
  | anchor (name : String)
  | tag (handle : Option String) (suffix : String)
  | scalar (content : String) (plain : Bool)
  deriving DecidableEq

structure Located where
  token : Token
  line : Nat

/-- A place where a key may have started. A required one stands at the indentation of its block,
where nothing but a key can be. -/
structure KeyPlace where
  number : Nat
  required : Bool
  index : Nat
  line : Nat
  column : Nat

structure Lexer where
  cursor : Cursor
  flow : Nat := 0
  tokens : List Located := []
  count : Nat := 0
  indent : Int := -1
  outer : List Int := []
  keyAllowed : Bool := true
  places : Keyed Nat KeyPlace := []

namespace Lexer

def push (lexer : Lexer) (line : Nat) (token : Token) : Lexer :=
  { lexer with tokens := ⟨token, line⟩ :: lexer.tokens, count := lexer.count + 1 }

def insertBelow (located : Located) : Nat → List Located → List Located
  | depth + 1, newer :: older => newer :: insertBelow located depth older
  | _, tokens => located :: tokens

def insertAt (lexer : Lexer) (number line : Nat) (token : Token) : Lexer :=
  { lexer with
    tokens := insertBelow ⟨token, line⟩ (lexer.count - number) lexer.tokens
    count := lexer.count + 1 }

def isStale (lexer : Lexer) (place : KeyPlace) : Bool :=
  place.line ≠ lexer.cursor.line || place.index + 1024 < lexer.cursor.index

/-- Forgets the places that are too far back; a required one may not be. -/
def dropStale (lexer : Lexer) : Reading Lexer :=
  if lexer.places.any fun entry => lexer.isStale entry.2 && entry.2.required then .error .malformed
  else .ok { lexer with places := lexer.places.filter fun entry => !lexer.isStale entry.2 }

def dropPlace (lexer : Lexer) : Reading Lexer :=
  match lexer.places.get? lexer.flow with
  | none => .ok lexer
  | some place =>
    if place.required then .error .malformed
    else .ok { lexer with places := lexer.places.erase lexer.flow }

def savePlace (lexer : Lexer) : Reading Lexer :=
  if lexer.keyAllowed then do
    let cursor := lexer.cursor
    let required := lexer.flow = 0 && lexer.indent = cursor.column
    let place : KeyPlace := ⟨lexer.count, required, cursor.index, cursor.line, cursor.column⟩
    let lexer ← lexer.dropPlace
    return { lexer with places := lexer.places.put lexer.flow place }
  else .ok lexer

def closing (column : Int) (indent : Int) : List Int → Nat × Int × List Int
  | [] => (0, indent, [])
  | outer :: more =>
    if column < indent then
      let (count, indent, outer) := closing column outer more
      (count + 1, indent, outer)
    else (0, indent, outer :: more)

def closeBlocks (lexer : Lexer) (column : Int) : Lexer :=
  if lexer.flow ≠ 0 then lexer
  else
    let (count, indent, outer) := closing column lexer.indent lexer.outer
    let lexer := { lexer with indent := indent, outer := outer }
    (List.range count).foldl (fun lexer _ => lexer.push lexer.cursor.line .blockEnd) lexer

/-- A deeper column opens a block; a column of the present block or of an outer one does not. -/
def deepen (lexer : Lexer) (column : Nat) : Option Lexer :=
  if lexer.indent < column then
    some { lexer with indent := column, outer := lexer.indent :: lexer.outer }
  else none

def openBlock (lexer : Lexer) (token : Token) : Lexer :=
  match lexer.deepen lexer.cursor.column with
  | some lexer => lexer.push lexer.cursor.line token
  | none => lexer

def allow (lexer : Lexer) (allowed : Bool) : Lexer :=
  { lexer with keyAllowed := allowed }

def take (lexer : Lexer) (width : Nat) (token : Token) : Lexer :=
  let lexer := lexer.push lexer.cursor.line token
  { lexer with cursor := lexer.cursor.skip width }

def takeTo (lexer : Lexer) (token : Token) (after : Cursor) : Lexer :=
  { lexer.push lexer.cursor.line token with cursor := after }

/-- Passes over blanks, comments and line breaks. Outside flows a key may start on a new line. -/
def skipGap : Nat → Lexer → Lexer
  | 0, lexer => lexer
  | budget + 1, lexer =>
    let cursor := lexer.cursor.skipComment
    if isBreak cursor.peek then
      skipGap budget { lexer with
        cursor := cursor.lineBreak.2
        keyAllowed := lexer.keyAllowed || lexer.flow = 0 }
    else { lexer with cursor := cursor }

def name (cursor : Cursor) : Reading (String × Cursor) :=
  let (text, after) := cursor.span isNameChar
  if text.isEmpty then .error .malformed else .ok (String.ofList text, after)

def directiveNumber (cursor : Cursor) : Reading (Nat × Cursor) :=
  let (digits, after) := cursor.span Char.isDigit
  if digits.isEmpty then .error .malformed
  else if Decimal.maxDigits < digits.length then
    .error (.fault (.longInteger Decimal.maxDigits digits.length))
  else .ok (digits.foldl (fun number c => number * 10 + (c.toNat - 48)) 0, after)

/-- `!`, `!!` or `!name!`. -/
def tagHandle (cursor : Cursor) : Reading (String × Cursor) :=
  if cursor.peek ≠ '!' then .error .malformed
  else if cursor.peekAt 1 = ' ' then .ok ("!", cursor.next)
  else
    let (text, after) := cursor.next.span isNameChar
    if after.peek = '!' then .ok (String.ofList ('!' :: text ++ ['!']), after.next)
    else .error .malformed

def uriBytes : Nat → Cursor → Reading (List UInt8 × Cursor)
  | 0, cursor => .ok ([], cursor)
  | budget + 1, cursor =>
    if cursor.peek = '%' then do
      let digits := cursor.next.rest.take 2
      if digits.length ≠ 2 || !digits.all isHexChar then throw .malformed
      let (bytes, after) ← uriBytes budget (cursor.next.skip 2)
      return (UInt8.ofNat (hexValue digits) :: bytes, after)
    else .ok ([], cursor)

def isUriChar (c : Char) : Bool :=
  c.isAlphanum || "-;/?:@&=+$,_.!~*'()[]%".toList.contains c

def uriFrom : Nat → Cursor → Reading (List Char × Cursor)
  | 0, cursor => .ok ([], cursor)
  | budget + 1, cursor =>
    if cursor.peek = '%' then do
      let (bytes, after) ← uriBytes cursor.budget cursor
      match Text.decodeUtf8 bytes with
      | .error _ => throw .malformed
      | .ok text => do
        let (more, after) ← uriFrom budget after
        return (text ++ more, after)
    else
      let (text, after) := cursor.span fun c => isUriChar c && c ≠ '%'
      if text.isEmpty then .ok ([], cursor)
      else do
        let (more, after) ← uriFrom budget after
        return (text ++ more, after)

def uri (cursor : Cursor) : Reading (String × Cursor) := do
  if !isUriChar cursor.peek then throw .malformed
  let (text, after) ← uriFrom cursor.budget cursor
  return (String.ofList text, after)

def versionDirective (cursor : Cursor) : Reading (Directive × Cursor) := do
  let (major, after) ← directiveNumber (cursor.skipWhile (· = ' '))
  if after.peek ≠ '.' then throw .malformed
  let (_, after) ← directiveNumber after.next
  if !isStop after.peek then throw .malformed
  return (.version major, after)

def handleDirective (cursor : Cursor) : Reading (Directive × Cursor) := do
  let (handle, after) ← tagHandle (cursor.skipWhile (· = ' '))
  if after.peek ≠ ' ' then throw .malformed
  let (space, after) ← uri (after.skipWhile (· = ' '))
  if !isStop after.peek then throw .malformed
  return (.handle handle space, after)

/-- A directive line; directives of other names are passed over. -/
def directiveLine (cursor : Cursor) : Reading (Directive × Cursor) := do
  let (label, after) ← name cursor.next
  if !isStop after.peek then throw .malformed
  let (directive, after) ←
    if label = "YAML" then versionDirective after
    else if label = "TAG" then handleDirective after
    else pure (Directive.unknown, after.skipWhile (!isBreakOrEnd ·))
  let after := after.skipComment
  if !isBreakOrEnd after.peek then throw .malformed
  return (directive, after.lineBreak.2)

/-- The name after `&` or `*`; only some characters may follow it. -/
def anchorName (cursor : Cursor) : Reading (String × Cursor) := do
  let (label, after) ← name cursor.next
  let c := after.peek
  if isGap c || "?:,]\x7d%@`".toList.contains c then return (label, after)
  throw .malformed

/-- Whether an exclamation mark stands between the first one of a tag and its end. -/
def hasHandle : List Char → Bool
  | [] => false
  | c :: rest => if isStop c then false else c = '!' || hasHandle rest

def tagToken (cursor : Cursor) : Reading (Token × Cursor) := do
  let c := cursor.peekAt 1
  let (token, after) ←
    if c = '<' then do
      let (suffix, after) ← uri (cursor.skip 2)
      if after.peek ≠ '>' then throw .malformed
      pure (Token.tag none suffix, after.next)
    else if isGap c then pure (Token.tag none "!", cursor.next)
    else do
      let (handle, after) ←
        if hasHandle cursor.next.rest then tagHandle cursor else pure ("!", cursor.next)
      let (suffix, after) ← uri after
      pure (Token.tag (some handle) suffix, after)
  if !isStop after.peek then throw .malformed
  return (token, after)

def startsPlain (lexer : Lexer) : Bool :=
  let c := lexer.cursor.peek
  !(isGap c || "-?:,[]\x7b\x7d#&*!|>'\"%@`".toList.contains c) ||
    (!isGap (lexer.cursor.peekAt 1) && (c = '-' || (lexer.flow = 0 && (c = '?' || c = ':'))))

/-- Whether the mark at the head stands for itself; inside flows it needs no gap after it. -/
def standsAlone (lexer : Lexer) : Bool :=
  lexer.flow ≠ 0 || isGap (lexer.cursor.peekAt 1)

def lexDocumentMark (lexer : Lexer) (token : Token) : Reading Lexer := do
  let lexer ← (lexer.closeBlocks (-1)).dropPlace
  return (lexer.allow false).take 3 token

def lexDirective (lexer : Lexer) : Reading Lexer := do
  let lexer ← (lexer.closeBlocks (-1)).dropPlace
  let (directive, after) ← directiveLine lexer.cursor
  return (lexer.allow false).takeTo (.directive directive) after

def lexFlowStart (lexer : Lexer) (token : Token) : Reading Lexer := do
  let lexer ← lexer.savePlace
  return ({ lexer with flow := lexer.flow + 1 }.allow true).take 1 token

def lexFlowEnd (lexer : Lexer) (token : Token) : Reading Lexer := do
  let lexer ← lexer.dropPlace
  return ({ lexer with flow := lexer.flow - 1 }.allow false).take 1 token

def lexFlowEntry (lexer : Lexer) : Reading Lexer := do
  let lexer ← (lexer.allow true).dropPlace
  return lexer.take 1 .flowEntry

def lexBlockEntry (lexer : Lexer) : Reading Lexer := do
  let lexer ←
    if lexer.flow ≠ 0 then pure lexer
    else if lexer.keyAllowed then pure (lexer.openBlock .blockSequence)
    else throw .malformed
  let lexer ← (lexer.allow true).dropPlace
  return lexer.take 1 .blockEntry

def lexKey (lexer : Lexer) : Reading Lexer := do
  let lexer ←
    if lexer.flow ≠ 0 then pure lexer
    else if lexer.keyAllowed then pure (lexer.openBlock .blockMapping)
    else throw .malformed
  let lexer ← (lexer.allow (lexer.flow = 0)).dropPlace
  return lexer.take 1 .key

/-- A colon after a kept place makes what stands there a key; it may also open a block there. -/
def lexValue (lexer : Lexer) : Reading Lexer := do
  match lexer.places.get? lexer.flow with
  | some place =>
    let lexer := { lexer with places := lexer.places.erase lexer.flow }
    let lexer := lexer.insertAt place.number place.line .key
    let lexer :=
      if lexer.flow ≠ 0 then lexer
      else match lexer.deepen place.column with
        | some lexer => lexer.insertAt place.number place.line .blockMapping
        | none => lexer
    return (lexer.allow false).take 1 .value
  | none =>
    let lexer ←
      if lexer.flow ≠ 0 then pure lexer
      else if lexer.keyAllowed then pure (lexer.openBlock .blockMapping)
      else throw .malformed
    let lexer ← (lexer.allow (lexer.flow = 0)).dropPlace
    return lexer.take 1 .value

def lexAnchor (lexer : Lexer) (token : String → Token) : Reading Lexer := do
  let lexer ← lexer.savePlace
  let (label, after) ← anchorName lexer.cursor
  return (lexer.allow false).takeTo (token label) after

def lexTag (lexer : Lexer) : Reading Lexer := do
  let lexer ← lexer.savePlace
  let (token, after) ← tagToken lexer.cursor
  return (lexer.allow false).takeTo token after

def lexBlockScalar (lexer : Lexer) (folds : Bool) : Reading Lexer := do
  let lexer ← (lexer.allow true).dropPlace
  let (text, after) ← blockScalar folds lexer.indent lexer.cursor
  return lexer.takeTo (.scalar (String.ofList text) false) after

def lexQuoted (lexer : Lexer) (double : Bool) : Reading Lexer := do
  let lexer ← lexer.savePlace
  let (text, after) ← quotedScalar double lexer.cursor
  return (lexer.allow false).takeTo (.scalar (String.ofList text) false) after

def lexPlain (lexer : Lexer) : Reading Lexer := do
  let lexer ← lexer.savePlace
  let (text, crossed, after) := plainScalar (lexer.flow ≠ 0) (lexer.indent + 1) lexer.cursor
  return (lexer.allow crossed).takeTo (.scalar (String.ofList text) true) after

def lexEnd (lexer : Lexer) : Reading Lexer := do
  let lexer ← (lexer.closeBlocks (-1)).dropPlace
  return { (lexer.allow false).push lexer.cursor.line .streamEnd with places := [] }

/-- Reads the next token with the block tokens that come before it; true at the end of the
stream. -/
def step (lexer : Lexer) : Reading (Lexer × Bool) := do
  let lexer := skipGap lexer.cursor.budget lexer
  let lexer ← lexer.dropStale
  let lexer := lexer.closeBlocks lexer.cursor.column
  let cursor := lexer.cursor
  let more (read : Reading Lexer) : Reading (Lexer × Bool) := read.map (·, false)
  match cursor.peek with
  | '\x00' => lexer.lexEnd.map (·, true)
  | c =>
    if c = '%' && cursor.column = 0 then more lexer.lexDirective
    else if cursor.column = 0 && cursor.atMarker '-' then
      more (lexer.lexDocumentMark .documentStart)
    else if cursor.column = 0 && cursor.atMarker '.' then more (lexer.lexDocumentMark .documentEnd)
    else if c = '[' then more (lexer.lexFlowStart .flowSequence)
    else if c = '\x7b' then more (lexer.lexFlowStart .flowMapping)
    else if c = ']' then more (lexer.lexFlowEnd .flowSequenceEnd)
    else if c = '\x7d' then more (lexer.lexFlowEnd .flowMappingEnd)
    else if c = ',' then more lexer.lexFlowEntry
    else if c = '-' && isGap (cursor.peekAt 1) then more lexer.lexBlockEntry
    else if c = '?' && lexer.standsAlone then more lexer.lexKey
    else if c = ':' && lexer.standsAlone then more lexer.lexValue
    else if c = '*' then more (lexer.lexAnchor .alias)
    else if c = '&' then more (lexer.lexAnchor .anchor)
    else if c = '!' then more lexer.lexTag
    else if c = '|' && lexer.flow = 0 then more (lexer.lexBlockScalar false)
    else if c = '>' && lexer.flow = 0 then more (lexer.lexBlockScalar true)
    else if c = '\'' then more (lexer.lexQuoted false)
    else if c = '"' then more (lexer.lexQuoted true)
    else if lexer.startsPlain then more lexer.lexPlain
    else .error .malformed

/-- The tokens in front of every place that a key may still be put in at. -/
def settled (lexer : Lexer) : List Located :=
  let places := lexer.places.filter fun entry => !lexer.isStale entry.2
  let count := places.foldl (fun least entry => min least entry.2.number) lexer.count
  lexer.tokens.reverse.take count

/-- The tokens of a stream up to its end, or up to where no token can be read. -/
def run : Nat → Lexer → List Located × Option ReadFailure
  | 0, lexer => (lexer.settled, some .malformed)
  | budget + 1, lexer =>
    match lexer.step with
    | .error failure => (lexer.settled, some failure)
    | .ok (lexer, false) => run budget lexer
    | .ok (lexer, true) => (lexer.tokens.reverse, none)

end Lexer

/-- The tokens of a stream, and why it could not be read to its end. A byte order mark at its head
does not count. -/
def tokens (stream : List Char) : List Located × Option ReadFailure :=
  let cursor : Cursor := { rest := stream, size := stream.length }
  let cursor := if cursor.peek = '\ufeff' then cursor.next else cursor
  Lexer.run (stream.length + 2) { cursor := cursor }

end SupplyLint.Yaml
