import SupplyLint.Yaml.Lexer
import SupplyLint.Yaml.Tag

/-! The nodes of YAML documents. The nodes of a document are numbered, and collections hold numbers:
an alias stands for the number of the node with its anchor, so one node can be in several places,
and a collection can be inside itself. -/
set_option autoImplicit false

namespace SupplyLint.Yaml

abbrev NodeId := Nat

/-- Lines are counted from one. -/
inductive Node
  | scalar (tag : Tag) (content : String)
  | sequence (tag : Tag) (items : List NodeId)
  | mapping (tag : Tag) (line : Nat) (entries : List (NodeId × NodeId))
  deriving Inhabited

namespace Node

def tag : Node → Tag
  | .scalar tag _ => tag
  | .sequence tag _ => tag
  | .mapping tag _ _ => tag

def empty : Node :=
  .scalar .null ""

end Node

/-- The nodes of a document by number, and the number of the node that holds all others. -/
structure Document where
  nodes : Array Node
  root : NodeId

/-- The tokens still to be read, why there are no more, the tag handles of the document, its nodes
so far, and the numbers of those with anchors. -/
structure Parser where
  tokens : List Located
  failure : Option ReadFailure
  handles : Keyed String String := []
  nodes : Array Node := #[]
  anchors : Keyed String NodeId := []

abbrev Parse := StateT Parser (Except ReadFailure)

namespace Parse

def peek : Parse Located := do
  let state ← get
  match state.tokens with
  | located :: _ => return located
  | [] => throw (state.failure.getD .malformed)

def drop : Parse Unit :=
  modify fun state => { state with tokens := state.tokens.drop 1 }

def at? (token : Token) : Parse Bool := do
  return (← peek).token == token

def atAny (tokens : List Token) : Parse Bool := do
  return tokens.contains (← peek).token

def refuse {α : Type} : Parse α :=
  throw .malformed

def expect (token : Token) : Parse Unit := do
  if ← at? token then drop else refuse

/-- The properties before a node: its anchor and its tag in either order. -/
structure Properties where
  line : Nat
  anchor : Option String := none
  tag : Option String := none

def tagName (handle : Option String) (suffix : String) : Parse String := do
  match handle with
  | none => return suffix
  | some handle =>
    match (← get).handles.get? handle with
    | some space => return space ++ suffix
    | none => refuse

def properties : Parse Properties := do
  let first ← peek
  match first.token with
  | .anchor name => do
    drop
    match (← peek).token with
    | .tag handle suffix => do
      drop
      return ⟨first.line, some name, some (← tagName handle suffix)⟩
    | _ => return ⟨first.line, some name, none⟩
  | .tag handle suffix => do
    drop
    match (← peek).token with
    | .anchor name => do
      drop
      return ⟨first.line, some name, some (← tagName handle suffix)⟩
    | _ => return ⟨first.line, none, some (← tagName handle suffix)⟩
  | _ => return ⟨first.line, none, none⟩

def addNode (node : Node) : Parse NodeId :=
  modifyGet fun state => (state.nodes.size, { state with nodes := state.nodes.push node })

def setNode (id : NodeId) (node : Node) : Parse Unit :=
  modify fun state => { state with nodes := state.nodes.set! id node }

/-- An anchor may be given once in a document. From there on it stands for its node, also inside
it. -/
def nameNode (anchor : Option String) (id : NodeId) : Parse Unit := do
  match anchor with
  | none => return ()
  | some name =>
    if (← get).anchors.has name then refuse
    modify fun state => { state with anchors := state.anchors.put name id }

def scalarNode (found : Properties) (content : String) (plain : Bool) : Node :=
  match found.tag with
  | none => .scalar (if plain then Plain.kind content else .str) content
  | some "!" => .scalar (Plain.kind content) content
  | some name => .scalar (Tag.ofName name) content

def collectionTag (found : Properties) (default : Tag) : Tag :=
  match found.tag with
  | none => default
  | some "!" => default
  | some name => Tag.ofName name

def atFlowValueEnd (closing : Token) : Parse Bool :=
  atAny [.flowEntry, closing]

mutual

/-- A node. Blocks may start only where `block` says so, and a sequence without an indentation of
its own only as the value or the key of a block mapping. -/
def node (block indentless : Bool) : Nat → Parse NodeId
  | 0 => refuse
  | budget + 1 => do
    match (← peek).token with
    | .alias name => do
      drop
      match (← get).anchors.get? name with
      | none => refuse
      | some id => return id
    | _ => do
      let found ← properties
      let _ ← peek
      let id ← addNode .empty
      nameNode found.anchor id
      setNode id (← content block indentless found budget)
      return id

def content (block indentless : Bool) (found : Properties) : Nat → Parse Node
  | 0 => refuse
  | budget + 1 => do
    let bare := found.anchor.isNone && found.tag.isNone
    match (← peek).token with
    | .scalar text plain => do
      drop
      return scalarNode found text plain
    | .flowSequence => do
      drop
      return .sequence (collectionTag found .seq) (← flowItems true budget)
    | .flowMapping => do
      drop
      return .mapping (collectionTag found .map) (found.line + 1) (← flowEntries true budget)
    | .blockEntry =>
      if indentless then
        return .sequence (collectionTag found .seq) (← looseItems budget)
      else if bare then refuse
      else return scalarNode found "" true
    | .blockSequence =>
      if block then do
        drop
        return .sequence (collectionTag found .seq) (← blockItems budget)
      else if bare then refuse
      else return scalarNode found "" true
    | .blockMapping =>
      if block then do
        drop
        return .mapping (collectionTag found .map) (found.line + 1) (← blockEntries budget)
      else if bare then refuse
      else return scalarNode found "" true
    | _ => if bare then refuse else return scalarNode found "" true

def blockItems : Nat → Parse (List NodeId)
  | 0 => refuse
  | budget + 1 => do
    if ← at? .blockEntry then
      drop
      let item ← if ← atAny [.blockEntry, .blockEnd] then addNode .empty
        else node true false budget
      return item :: (← blockItems budget)
    else
      expect .blockEnd
      return []

def looseItems : Nat → Parse (List NodeId)
  | 0 => refuse
  | budget + 1 => do
    if ← at? .blockEntry then
      drop
      let item ← if ← atAny [.blockEntry, .key, .value, .blockEnd] then addNode .empty
        else node true false budget
      return item :: (← looseItems budget)
    else return []

def blockEntries : Nat → Parse (List (NodeId × NodeId))
  | 0 => refuse
  | budget + 1 => do
    if ← at? .key then
      drop
      let key ← if ← atAny [.key, .value, .blockEnd] then addNode .empty
        else node true true budget
      let value ← if ← at? .value then
          drop
          if ← atAny [.key, .value, .blockEnd] then addNode .empty else node true true budget
        else addNode .empty
      return (key, value) :: (← blockEntries budget)
    else
      expect .blockEnd
      return []

def flowValue (closing : Token) : Nat → Parse NodeId
  | 0 => refuse
  | budget + 1 => do
    if ← at? .value then
      drop
      if ← atFlowValueEnd closing then addNode .empty else node false false budget
    else addNode .empty

def flowPair (closing : Token) : Nat → Parse (NodeId × NodeId)
  | 0 => refuse
  | budget + 1 => do
    let key ← if ← atAny [.value, .flowEntry, closing] then addNode .empty
      else node false false budget
    return (key, ← flowValue closing budget)

def flowItems (first : Bool) : Nat → Parse (List NodeId)
  | 0 => refuse
  | budget + 1 => do
    if ← at? .flowSequenceEnd then
      drop
      return []
    else
      if !first then expect .flowEntry
      let located ← peek
      match located.token with
      | .flowSequenceEnd => do
        drop
        return []
      | .key => do
        drop
        let pair ← flowPair .flowSequenceEnd budget
        let item ← addNode (.mapping .map (located.line + 1) [pair])
        return item :: (← flowItems false budget)
      | _ => do
        let item ← node false false budget
        return item :: (← flowItems false budget)

def flowEntries (first : Bool) : Nat → Parse (List (NodeId × NodeId))
  | 0 => refuse
  | budget + 1 => do
    if ← at? .flowMappingEnd then
      drop
      return []
    else
      if !first then expect .flowEntry
      match (← peek).token with
      | .flowMappingEnd => do
        drop
        return []
      | .key => do
        drop
        let pair ← flowPair .flowMappingEnd budget
        return pair :: (← flowEntries false budget)
      | _ => do
        let key ← node false false budget
        return (key, ← addNode .empty) :: (← flowEntries false budget)

end

def defaultHandles : Keyed String String :=
  [("!", "!"), ("!!", Tag.space)]

/-- The directives before a document: at most one version, of the first generation, and at most one
meaning for a handle. -/
def directives (versioned : Bool) : Nat → Parse Unit
  | 0 => refuse
  | budget + 1 => do
    match (← peek).token with
    | .directive directive => do
      drop
      match directive with
      | .version major =>
        if versioned || major ≠ 1 then refuse else directives true budget
      | .handle name space => do
        let state ← get
        if state.handles.has name then refuse
        set { state with handles := state.handles.put name space }
        directives versioned budget
      | .unknown => directives versioned budget
    | _ => return ()

def atDocumentEdge : Parse Bool := do
  match (← peek).token with
  | .directive _ => return true
  | .documentStart => return true
  | .documentEnd => return true
  | .streamEnd => return true
  | _ => return false

def dropDocumentEnds : Nat → Parse Unit
  | 0 => refuse
  | budget + 1 => do
    if ← at? .documentEnd then
      drop
      dropDocumentEnds budget

/-- Whether another document starts here, with whether it has a start mark; only the first can do
without it. -/
def start? (first : Bool) (budget : Nat) : Parse (Option Bool) := do
  let implied := first && !(← atDocumentEdge)
  if first && (← at? .documentEnd) then refuse
  if implied then
    modify fun state => { state with handles := defaultHandles }
    return some false
  else
    dropDocumentEnds budget
    if ← at? .streamEnd then return none
    modify fun state => { state with handles := [] }
    directives false budget
    expect .documentStart
    modify fun state => { state with
      handles := state.handles ++ defaultHandles.filter fun entry => !state.handles.has entry.1 }
    return some true

def body (explicit : Bool) (budget : Nat) : Parse Document := do
  modify fun state => { state with nodes := #[], anchors := [] }
  let root ← if explicit && (← atDocumentEdge) then addNode .empty else node true false budget
  if ← at? .documentEnd then drop
  return ⟨(← get).nodes, root⟩

def document? (first : Bool) : Parse (Option Document) := do
  let budget := 4 * (← get).tokens.length + 4
  match ← start? first budget with
  | none => return none
  | some explicit => return some (← body explicit budget)

def documents : Nat → Bool → Parser → List Document × Option ReadFailure
  | 0, _, _ => ([], some .malformed)
  | budget + 1, first, state =>
    match (document? first).run state with
    | .error failure => ([], some failure)
    | .ok (none, _) => ([], none)
    | .ok (some found, state) =>
      let (others, failure) := documents budget false state
      (found :: others, failure)

/-- The only document, if there is one at all; a second one is refused where it starts. -/
def only? : Parse (Option Document) := do
  match ← document? true with
  | none => return none
  | some found =>
    match ← start? false ((← get).tokens.length + 1) with
    | none => return some found
    | some _ => refuse

end Parse

def parserOf (stream : List Char) : Parser :=
  let (tokens, failure) := tokens stream
  { tokens := tokens, failure := failure }

def documents (stream : List Char) : List Document × Option ReadFailure :=
  let parser := parserOf stream
  Parse.documents (parser.tokens.length + 1) true parser

def onlyDocument? (stream : List Char) : Reading (Option Document) :=
  Parse.only?.run' (parserOf stream)

end SupplyLint.Yaml
