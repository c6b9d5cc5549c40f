import SupplyLint.Yaml.Node
import SupplyLint.Yaml.ScalarValue

/-! What the nodes of a document are made into. A node is made once, wherever it is named. A
collection is filled at once or it waits until everything around it has been looked at; of two
faults the one that is met first counts. With `marked`, every mapping is filled at once, with all
that it holds, and keeps its line.

A mapping takes over the entries of others by merge keys when its own entries are looked at, and
from then on it has them: a node that names it later sees the merged entries. In the same way the
key `=` is a plain text from the time when a mapping with it has been looked at. -/
set_option autoImplicit false

namespace SupplyLint.Yaml

/-- What a node has been made into. A collection holds the numbers of nodes, as it may be inside
itself; keys and the items of sets are scalars. -/
inductive Made
  | leaf (value : Value)
  | list (items : List NodeId)
  | pairs (items : List (NodeId × NodeId))
  | set (items : List Value)
  | map (line : Option Nat) (entries : Keyed Value NodeId)
  deriving Inhabited

/-- The nodes as they are by now, what has been made of them, and the collections that wait to be
filled, newest first. No step goes deeper than `depth`. -/
structure Builder where
  nodes : Array Node
  made : Array (Option Made)
  waiting : List NodeId := []
  depth : Nat

abbrev Build := StateT Builder (Except ReadFailure)

namespace Build

def malformed {α : Type} : Build α :=
  throw .malformed

def nodeAt (id : NodeId) : Build Node := do
  return (← get).nodes.getD id .empty

def setNode (id : NodeId) (node : Node) : Build Unit :=
  modify fun builder => { builder with nodes := builder.nodes.set! id node }

def madeAt? (id : NodeId) : Build (Option Made) := do
  return (← get).made.getD id none

def setMade (id : NodeId) (made : Made) : Build Unit :=
  modify fun builder => { builder with made := builder.made.set! id (some made) }

def await (id : NodeId) : Build Unit :=
  modify fun builder => { builder with waiting := id :: builder.waiting }

/-! Merge keys -/

def entriesAt (id : NodeId) : Build (List (NodeId × NodeId)) := do
  match ← nodeAt id with
  | .mapping _ _ entries => return entries
  | _ => return []

def setEntries (id : NodeId) (entries : List (NodeId × NodeId)) : Build Unit := do
  match ← nodeAt id with
  | .mapping tag line _ => setNode id (.mapping tag line entries)
  | _ => return ()

/-- The value of the first merge key among some entries, and the entries without it. -/
def withoutMerge? : List (NodeId × NodeId) → Build (Option (NodeId × List (NodeId × NodeId)))
  | [] => return none
  | (key, value) :: rest => do
    if (← nodeAt key).tag = .merge then return some (value, rest)
    match ← withoutMerge? rest with
    | some (target, others) => return some (target, (key, value) :: others)
    | none => return none

/-- A key of the kind `=` is a plain text from now on. -/
def plainKey (id : NodeId) : Build Unit := do
  match ← nodeAt id with
  | .scalar .value content => setNode id (.scalar .str content)
  | .sequence .value items => setNode id (.sequence .str items)
  | .mapping .value line entries => setNode id (.mapping .str line entries)
  | _ => return ()

mutual

/-- Takes the merge keys out of a mapping, one after another, and gives the entries that they
bring. -/
def takeMerges : Nat → NodeId → Build (List (NodeId × NodeId))
  | 0, _ => malformed
  | budget + 1, id => do
    match ← withoutMerge? (← entriesAt id) with
    | none => return []
    | some (target, others) => do
      setEntries id others
      let brought ← broughtBy budget target
      return brought ++ (← takeMerges budget id)

/-- What a merge key brings: the entries of a mapping or of several; of several, those of the last
come first, so that those of the first win. -/
def broughtBy : Nat → NodeId → Build (List (NodeId × NodeId))
  | 0, _ => malformed
  | budget + 1, target => do
    match ← nodeAt target with
    | .mapping _ _ _ => mergedEntries budget target
    | .sequence _ items => do
      let groups ← items.mapM (mergedEntries budget)
      return groups.reverse.flatten
    | .scalar _ _ => malformed

/-- The entries of a mapping after those that its merge keys bring have been put in front of its
own. -/
def mergedEntries : Nat → NodeId → Build (List (NodeId × NodeId))
  | 0, _ => malformed
  | budget + 1, id => do
    match ← nodeAt id with
    | .mapping _ _ _ => do
      let brought ← takeMerges budget id
      let own ← entriesAt id
      own.forM fun entry => plainKey entry.1
      setEntries id (brought ++ own)
      entriesAt id
    | _ => malformed

end

/-! Values -/

/-- The text of a scalar, or of the value under the first key `=` of a mapping. There is none in a
mapping that has itself there. -/
def contentOf (nodes : Array Node) : Nat → NodeId → Reading String
  | 0, _ => .error (.fault .endless)
  | budget + 1, id =>
    match nodes.getD id .empty with
    | .scalar _ content => .ok content
    | .sequence _ _ => .error .malformed
    | .mapping _ _ entries =>
      match entries.find? fun entry => (nodes.getD entry.1 .empty).tag = .value with
      | some entry => contentOf nodes budget entry.2
      | none => .error .malformed

/-- The value of a node of a scalar kind. The text of a time must be its own. What is no number is
marked with its node. -/
def leafOf (nodes : Array Node) (id : NodeId) : Reading Value := do
  let node := nodes.getD id .empty
  if !node.tag.isScalar then throw .malformed
  let content ← contentOf nodes (nodes.size + 1) id
  match node with
  | .mapping .timestamp _ _ => refuse (.notSearchable "list")
  | _ => scalarValue (id + 1) node.tag content

/-- The value of a key that has been made; lists, sets and mappings are refused. -/
def keyAt (id : NodeId) : Build Value := do
  match ← madeAt? id with
  | some (.leaf value) => return value
  | _ => malformed

mutual

/-- Makes a node inside others that are being made; it must not be one of them. -/
def make (marked atOnce : Bool) (around : List NodeId) : Nat → NodeId → Build Unit
  | 0, _ => malformed
  | budget + 1, id => do
    if (← madeAt? id).isSome then return ()
    if around.contains id then malformed
    let tag := (← nodeAt id).tag
    match tag with
    | .seq | .omap | .pairs | .set | .map =>
      if atOnce || (marked && tag = .map) then
        setMade id (← fill marked true (id :: around) budget id)
      else
        setMade id (.list [])
        await id
    | _ => setMade id (.leaf (← leafOf (← get).nodes id))

/-- The contents of a collection by its kind. An ordered mapping is a sequence of mappings of one
entry each. -/
def fill (marked atOnce : Bool) (around : List NodeId) : Nat → NodeId → Build Made
  | 0, _ => malformed
  | budget + 1, id => do
    match ← nodeAt id with
    | .scalar _ _ => malformed
    | .sequence .seq items => do
      items.forM (make marked atOnce around budget)
      return .list items
    | .sequence .omap items => return .pairs (← items.mapM (makePair marked atOnce around budget))
    | .sequence .pairs items => return .pairs (← items.mapM (makePair marked atOnce around budget))
    | .sequence _ _ => malformed
    | .mapping .map line _ => do
      let entries ← makeEntries marked atOnce around budget id
      return .map (if marked then some line else none) entries
    | .mapping .set _ _ => return .set (← makeEntries marked atOnce around budget id).keys
    | .mapping _ _ _ => malformed

def makePair (marked atOnce : Bool) (around : List NodeId) : Nat → NodeId → Build (NodeId × NodeId)
  | 0, _ => malformed
  | budget + 1, id => do
    match ← nodeAt id with
    | .mapping _ _ [(key, value)] => do
      make marked atOnce around budget key
      make marked atOnce around budget value
      return (key, value)
    | _ => malformed

def makeEntries (marked atOnce : Bool) (around : List NodeId) : Nat → NodeId →
    Build (Keyed Value NodeId)
  | 0, _ => malformed
  | budget + 1, id => do
    let written ← mergedEntries (← get).depth id
    written.foldlM (fun entries entry => do
      make marked atOnce around budget entry.1
      let key ← keyAt entry.1
      make marked atOnce around budget entry.2
      return entries.put key entry.2) []

end

/-- Fills the collections that wait, oldest first, and then those that have come to wait
meanwhile. -/
def fillWaiting (marked : Bool) : Nat → Build Unit
  | 0 => return ()
  | rounds + 1 => do
    let builder ← get
    if builder.waiting.isEmpty then return ()
    set { builder with waiting := [] }
    builder.waiting.reverse.forM fun id => do
      setMade id (← fill marked false [] builder.depth id)
    fillWaiting marked rounds

end Build

/-- No way through the nodes of a document is longer than this: on it a node is made once and a
merge key is taken out once. -/
def Document.depth (document : Document) : Nat :=
  document.nodes.foldl (fun depth node =>
    match node with
    | .mapping _ _ entries => depth + 3 * entries.length + 3
    | _ => depth + 3) 3

def Document.made (document : Document) (marked : Bool) : Reading (Array (Option Made)) := do
  let start : Builder :=
    ⟨document.nodes, Array.replicate document.nodes.size none, [], document.depth⟩
  let build : Build Unit := do
    Build.make marked false [] start.depth document.root
    Build.fillWaiting marked (document.nodes.size + 1)
  let (_, done) ← build.run start
  return done.made

end SupplyLint.Yaml
