import Mathlib.Algebra.BigOperators.Group.Finset.Basic
import Mathlib.Logic.Relation
import SupplyLint.Proofs.Yaml.Made

/-! # What merge keys bring

A mapping takes the entries of others over when its own entries are looked at,
and the nodes change by this. What a mapping has in the end is said here of the
document as it was written (`Document.Flat`), and the nodes only ever have what
is written or what comes of it (`Document.Follows`). If no mapping takes itself
over, the order in which mappings are looked at makes no difference:
`goes_mergedEntries`. -/
set_option autoImplicit false

namespace SupplyLint.Yaml

namespace Node

def entries : Node → List (NodeId × NodeId)
  | .mapping _ _ entries => entries
  | _ => []

/-- A node with another tag and, if it is a mapping, other entries. -/
def become (tag : Tag) (entries : List (NodeId × NodeId)) : Node → Node
  | .scalar _ content => .scalar tag content
  | .sequence _ items => .sequence tag items
  | .mapping _ line _ => .mapping tag line entries

@[simp] theorem tag_become (node : Node) (tag : Tag) (entries : List (NodeId × NodeId)) :
    (node.become tag entries).tag = tag := by
  cases node <;> rfl

theorem become_self (node : Node) : node.become node.tag node.entries = node := by
  cases node <;> rfl

end Node

/-! ## The entries of a mapping with those it takes over -/

namespace Document

variable (document : Document)

def node (id : NodeId) : Node :=
  document.nodes.getD id .empty

def isMerge (entry : NodeId × NodeId) : Bool :=
  (document.node entry.1).tag = .merge

/-- The mappings that the value of a merge key stands for, in the order in which their entries
come. -/
def sources (target : NodeId) : List NodeId :=
  match document.node target with
  | .sequence _ items => items.reverse
  | _ => [target]

def takenBy (entries : List (NodeId × NodeId)) : List NodeId :=
  (entries.filter document.isMerge).flatMap fun entry => document.sources entry.2

def own (entries : List (NodeId × NodeId)) : List (NodeId × NodeId) :=
  entries.filter fun entry => !document.isMerge entry

/-- The entries of some mappings one after another, each with those that it takes over in front of
its own. -/
inductive Flat : List NodeId → List (NodeId × NodeId) → Prop
  | nil : Flat [] []
  | cons {id : NodeId} {ids : List NodeId} {tag : Tag} {line : Nat}
      {written brought others : List (NodeId × NodeId)}
      (isMapping : document.node id = .mapping tag line written)
      (takes : Flat (document.takenBy written) brought) (more : Flat ids others) :
      Flat (id :: ids) (brought ++ document.own written ++ others)

def TakesOver (id other : NodeId) : Prop :=
  other ∈ document.takenBy (document.node id).entries

/-- A mapping is looked at for its entries: because of its kind, or because another one takes it
over. -/
def IsFlattened (id : NodeId) : Prop :=
  (document.node id).tag = .map ∨ (document.node id).tag = .set ∨
    ∃ other, document.TakesOver other id

/-- A node is a key of a mapping that is looked at. -/
def IsPlained (key : NodeId) : Prop :=
  ∃ id value, document.IsFlattened id ∧ (key, value) ∈ (document.node id).entries

variable {document}

theorem lt_size_of_ne_empty {id : NodeId} (written : document.node id ≠ .empty) :
    id < document.nodes.size := by
  by_contra outside
  apply written
  simp [node, Array.getD_eq_getD_getElem?, Array.getElem?_eq_none (Nat.le_of_not_lt outside)]

theorem lt_size_of_mapping {id : NodeId} {tag : Tag} {line : Nat} {entries : List (NodeId × NodeId)}
    (isMapping : document.node id = .mapping tag line entries) : id < document.nodes.size :=
  lt_size_of_ne_empty (by rw [isMapping]; nofun)

theorem Flat.append {first second : List NodeId} {brought others : List (NodeId × NodeId)}
    (flat : document.Flat first brought) (more : document.Flat second others) :
    document.Flat (first ++ second) (brought ++ others) := by
  induction flat with
  | nil => exact more
  | cons isMapping takes _ _ ih =>
    rw [List.cons_append, List.append_assoc]
    exact .cons isMapping takes ih

theorem exists_flat_append {first second : List NodeId} :
    (∃ entries, document.Flat (first ++ second) entries) ↔
      (∃ entries, document.Flat first entries) ∧ ∃ entries, document.Flat second entries := by
  constructor
  · rintro ⟨entries, flat⟩
    induction first generalizing entries with
    | nil => exact ⟨⟨[], .nil⟩, entries, flat⟩
    | cons id ids ih =>
      cases flat with
      | cons isMapping takes more =>
        obtain ⟨⟨others, rest⟩, last⟩ := ih _ more
        exact ⟨⟨_, .cons isMapping takes rest⟩, last⟩
  · rintro ⟨⟨brought, flat⟩, others, more⟩
    exact ⟨_, flat.append more⟩

theorem Flat.of_each {ids : List NodeId} {groups : List (List (NodeId × NodeId))}
    (each : List.Forall₂ (fun id group => document.Flat [id] group) ids groups) :
    document.Flat ids groups.flatten := by
  induction each with
  | nil => exact .nil
  | cons first _ ih => exact first.append ih

theorem Flat.unique {ids : List NodeId} {entries : List (NodeId × NodeId)}
    (flat : document.Flat ids entries) :
    ∀ {others : List (NodeId × NodeId)}, document.Flat ids others → entries = others := by
  induction flat with
  | nil =>
    intro others other
    cases other
    rfl
  | cons isMapping _ _ same sameRest =>
    intro others other
    cases other with
    | cons isMappingToo takes more =>
      obtain ⟨rfl, rfl, rfl⟩ := Node.mapping.inj (isMapping.symm.trans isMappingToo)
      rw [same takes, sameRest more]

theorem isMerge_of_mem_own {entries : List (NodeId × NodeId)} :
    ∀ entry ∈ document.own entries, document.isMerge entry = false := by
  intro entry member
  simpa using (List.mem_filter.mp member).2

theorem Flat.isMerge_eq_false {ids : List NodeId} {entries : List (NodeId × NodeId)}
    (flat : document.Flat ids entries) : ∀ entry ∈ entries, document.isMerge entry = false := by
  induction flat with
  | nil => simp
  | cons _ _ _ brought others =>
    intro entry member
    rcases List.mem_append.mp member with front | later
    · rcases List.mem_append.mp front with taken | own
      · exact brought entry taken
      · exact isMerge_of_mem_own entry own
    · exact others entry later

theorem takenBy_eq_nil {entries : List (NodeId × NodeId)}
    (none : ∀ entry ∈ entries, document.isMerge entry = false) : document.takenBy entries = [] := by
  rw [takenBy, List.filter_eq_nil_iff.mpr fun entry member => by simp [none entry member]]
  rfl

theorem own_eq_self {entries : List (NodeId × NodeId)}
    (none : ∀ entry ∈ entries, document.isMerge entry = false) : document.own entries = entries :=
  List.filter_eq_self.mpr fun entry member => by simp [none entry member]

theorem Flat.isPlained {ids : List NodeId} {entries : List (NodeId × NodeId)}
    (flat : document.Flat ids entries) (flattened : ∀ id ∈ ids, document.IsFlattened id) :
    ∀ entry ∈ entries, document.IsPlained entry.1 := by
  induction flat with
  | nil => simp
  | @cons id _ tag line written _ _ isMapping _ _ brought others =>
    rw [List.forall_mem_cons] at flattened
    have entriesEq : (document.node id).entries = written := by rw [isMapping]; rfl
    intro entry member
    rcases List.mem_append.mp member with front | later
    · rcases List.mem_append.mp front with taken | own
      · refine brought (fun other inside => .inr (.inr ⟨id, ?_⟩)) entry taken
        rw [TakesOver, entriesEq]
        exact inside
      · exact ⟨id, entry.2, flattened.1, entriesEq ▸ (List.mem_filter.mp own).1⟩
    · exact others flattened.2 entry later

/-! ## How the nodes may have changed -/

/-- The tag that a node may have by now: its own, or that of a text once it has been seen as a key
`=`. -/
def HasTag (document : Document) (id : NodeId) (tag : Tag) : Prop :=
  tag = (document.node id).tag ∨
    (document.node id).tag = .value ∧ tag = .str ∧ document.IsPlained id

/-- The entries that mappings have while they are being looked at. -/
abbrev Held := NodeId → Option (List (NodeId × NodeId))

/-- What a node may be by now. Its entries are those that it has while it is being looked at, and
otherwise those that are written, or those with what it takes over. Some nodes are no longer of the
kind `=`. -/
structure MayBe (document : Document) (held : Held) (plained : NodeId → Prop)
    (id : NodeId) (tag : Tag)
    (entries : List (NodeId × NodeId)) : Prop where
  hasTag : document.HasTag id tag
  busy : ∀ current, held id = some current → entries = current
  free : held id = none → entries = (document.node id).entries ∨
    document.IsFlattened id ∧ document.Flat [id] entries
  plain : plained id → tag ≠ .value

def Becomes (document : Document) (held : Held) (plained : NodeId → Prop) (id : NodeId)
    (node : Node) : Prop :=
  ∃ tag entries, node = (document.node id).become tag entries ∧
    document.MayBe held plained id tag entries

structure Follows (document : Document) (held : Held) (plained : NodeId → Prop)
    (nodes : Array Node) :
    Prop where
  size : nodes.size = document.nodes.size
  each : ∀ id, document.Becomes held plained id (nodes.getD id .empty)

theorem follows_self : document.Follows (fun _ => none) (fun _ => False) document.nodes where
  size := rfl
  each _ := ⟨_, _, (Node.become_self _).symm, .inl rfl, nofun, fun _ => .inl rfl, False.elim⟩

theorem MayBe.merge_iff {held : Held} {plained : NodeId → Prop} {id : NodeId} {tag : Tag}
    {entries : List (NodeId × NodeId)} (may : document.MayBe held plained id tag entries) :
    tag = .merge ↔ (document.node id).tag = .merge := by
  rcases may.hasTag with rfl | ⟨own, rfl, -⟩
  · rfl
  · simp [own]

theorem Follows.imp {held : Held} {plained fewer : NodeId → Prop} {nodes : Array Node}
    (follows : document.Follows held plained nodes) (implies : ∀ id, fewer id → plained id) :
    document.Follows held fewer nodes := by
  refine ⟨follows.size, fun id => ?_⟩
  obtain ⟨tag, entries, is, may⟩ := follows.each id
  exact ⟨tag, entries, is, may.hasTag, may.busy, may.free, fun plain =>
    may.plain (implies id plain)⟩

theorem Follows.set {held later : Held} {plained plainer : NodeId → Prop} {nodes : Array Node}
    (follows : document.Follows held plained nodes) {id : NodeId}
    (inside : id < document.nodes.size)
    {tag : Tag} {entries : List (NodeId × NodeId)}
    (may : document.MayBe later plainer id tag entries)
    (others : ∀ other, other ≠ id → later other = held other ∧ (plainer other → plained other)) :
    document.Follows later plainer (nodes.set! id ((document.node id).become tag entries)) := by
  refine ⟨by simp [follows.size], fun other => ?_⟩
  by_cases same : other = id
  · subst same
    refine ⟨tag, entries, ?_, may⟩
    simp [Array.set!_eq_setIfInBounds, Array.getD_eq_getD_getElem?, follows.size, inside]
  · obtain ⟨ownTag, ownEntries, is, own⟩ := follows.each other
    obtain ⟨sameHeld, plain⟩ := others other same
    refine ⟨ownTag, ownEntries, ?_, own.hasTag, ?_, ?_, fun isPlain => own.plain (plain isPlain)⟩
    · rw [← is]
      simp [Array.set!_eq_setIfInBounds, Array.getD_eq_getD_getElem?, Ne.symm same]
    · rw [sameHeld]
      exact own.busy
    · rw [sameHeld]
      exact own.free

/-- What a mapping may have when it is going to be looked at. -/
def AtRest (document : Document) (id : NodeId) (entries : List (NodeId × NodeId)) : Prop :=
  entries = (document.node id).entries ∨ document.IsFlattened id ∧ document.Flat [id] entries

theorem Follows.seize {held : Held} {plained : NodeId → Prop} {nodes : Array Node}
    (follows : document.Follows held plained nodes) {id : NodeId} (free : held id = none) :
    ∃ entries, document.AtRest id entries ∧
      document.Follows (Function.update held id (some entries)) plained nodes := by
  obtain ⟨tag, entries, is, may⟩ := follows.each id
  refine ⟨entries, may.free free, follows.size, fun other => ?_⟩
  by_cases same : other = id
  · subst same
    refine ⟨tag, entries, is, may.hasTag, ?_, ?_, may.plain⟩
    · simp
    · simp
  · obtain ⟨ownTag, now, own, may⟩ := follows.each other
    have sameHeld : Function.update held id (some entries) other = held other :=
        Function.update_of_ne same ..
    exact ⟨ownTag, now, own, may.hasTag, sameHeld ▸ may.busy, sameHeld ▸ may.free, may.plain⟩

theorem Follows.release {held : Held} {plained : NodeId → Prop} {nodes : Array Node} {id : NodeId}
    {entries : List (NodeId × NodeId)}
    (follows : document.Follows (Function.update held id (some entries)) plained nodes)
    (free : held id = none) (flattened : document.IsFlattened id)
    (flat : document.Flat [id] entries) :
    document.Follows held plained nodes := by
  refine ⟨follows.size, fun other => ?_⟩
  obtain ⟨tag, now, is, may⟩ := follows.each other
  refine ⟨tag, now, is, ?_⟩
  by_cases same : other = id
  · subst same
    obtain rfl := may.busy entries (Function.update_self ..)
    exact ⟨may.hasTag, by simp [free], fun _ => .inr ⟨flattened, flat⟩, may.plain⟩
  · have sameHeld : Function.update held id (some entries) other = held other :=
        Function.update_of_ne same ..
    exact ⟨may.hasTag, sameHeld ▸ may.busy, sameHeld ▸ may.free, may.plain⟩

/-- What may be of a mapping at rest: either it has not been looked at yet, or nothing is left to
take over. -/
theorem AtRest.cases {id : NodeId} {tag : Tag} {line : Nat}
    {written current : List (NodeId × NodeId)}
    (rest : document.AtRest id current) (isMapping : document.node id = .mapping tag line written) :
    current = written ∨ document.Flat [id] current ∧ document.takenBy current = [] ∧
      document.own current = current := by
  rcases rest with same | ⟨-, flat⟩
  · exact .inl (by rw [same, isMapping]; rfl)
  · have none := flat.isMerge_eq_false
    exact .inr ⟨flat, takenBy_eq_nil none, own_eq_self none⟩

theorem AtRest.takes {id : NodeId} {tag : Tag} {line : Nat}
    {written current : List (NodeId × NodeId)}
    (rest : document.AtRest id current) (isMapping : document.node id = .mapping tag line written)
    (all : ∃ entries, document.Flat [id] entries) :
    (∃ entries, document.Flat (document.takenBy current) entries) ∧
      (current.filter document.isMerge).length ≤ written.length := by
  rcases rest.cases isMapping with rfl | ⟨flat, none, -⟩
  · obtain ⟨entries, flat⟩ := all
    cases flat with
    | cons isMappingToo takes _ =>
      obtain ⟨rfl, rfl, rfl⟩ := Node.mapping.inj (isMapping.symm.trans isMappingToo)
      exact ⟨⟨_, takes⟩, List.length_filter_le _ _⟩
  · have noMerge : current.filter document.isMerge = [] :=
      List.filter_eq_nil_iff.mpr fun entry member => by simp [flat.isMerge_eq_false entry member]
    exact ⟨⟨[], none ▸ .nil⟩, by simp [noMerge]⟩

/-! ## Room for going deeper -/

/-- What looking at a mapping can take at most. -/
def weight (document : Document) (id : NodeId) : Nat :=
  3 * (document.node id).entries.length + 3

/-- What looking at all mappings can take that are not being looked at. -/
def room (document : Document) (held : NodeId → Option (List (NodeId × NodeId))) : Nat :=
  ∑ id ∈ (Finset.range document.nodes.size).filter (fun id => held id = none), document.weight id

theorem room_update {held : NodeId → Option (List (NodeId × NodeId))} {id : NodeId}
    (inside : id < document.nodes.size) (free : held id = none) (entries : List (NodeId × NodeId)) :
    document.room held = document.weight id + document.room
      (Function.update held id (some entries)) := by
  have member : id ∈ (Finset.range document.nodes.size).filter fun id => held id = none := by
    simp [inside, free]
  have rest : ((Finset.range document.nodes.size).filter fun other =>
      Function.update held id (some entries) other = none) =
      ((Finset.range document.nodes.size).filter fun id => held id = none).erase id := by
    ext other
    by_cases same : other = id
    · simp [same]
    · simp [same]
  rw [room, room, rest, Finset.add_sum_erase _ _ member]

theorem room_update_again {held : NodeId → Option (List (NodeId × NodeId))} {id : NodeId}
    {current : List (NodeId × NodeId)} (busy : held id = some current)
    (entries : List (NodeId × NodeId)) :
    document.room (Function.update held id (some entries)) = document.room held := by
  rw [room, room]
  congr 1
  ext other
  by_cases same : other = id
  · simp [same, busy]
  · simp [Function.update_of_ne same]

theorem foldl_add_eq_sum (nodes : List Node) (start : Nat) (size : Node → Nat) (default : Node) :
    nodes.foldl (fun total node => total + size node) start =
      start + ∑ id ∈ Finset.range nodes.length, size (nodes.getD id default) := by
  induction nodes generalizing start with
  | nil => rfl
  | cons node rest ih =>
    rw [List.foldl_cons, ih, List.length_cons, Finset.sum_range_succ', Nat.add_assoc,
      Nat.add_comm (size node)]
    rfl

theorem room_add_three (document : Document) : document.room
    (fun _ => none) + 3 = document.depth := by
  have depth : document.depth =
      document.nodes.foldl (fun depth node => depth + (3 * node.entries.length + 3)) 3 := by
    rw [Document.depth]
    congr 1
    funext depth node
    cases node <;> rfl
  rw [depth, ← Array.foldl_toList, foldl_add_eq_sum _ _ _ .empty, Nat.add_comm, room]
  simp only [Finset.filter_true, Array.length_toList]
  refine congrArg (3 + ·) (Finset.sum_congr rfl fun id _ => ?_)
  simp [weight, node, Array.getD_eq_getD_getElem?, List.getD_eq_getElem?_getD]

end Document

namespace Build

open SupplyLint.Yaml.Document (Held)

variable {document : Document}

/-- A state that differs from another one in the nodes only, and these follow the document. -/
def Over (document : Document) (base : Builder) (held : Held) (plained : NodeId → Prop)
    (builder : Builder) : Prop :=
  ∃ nodes, builder = { base with nodes := nodes } ∧ document.Follows held plained nodes

section Steps
variable {base : Builder} {held : Held} {plained : NodeId → Prop} {mayFail : Prop}

theorem Over.imp {builder : Builder} {fewer : NodeId → Prop}
    (isOver : Over document base held plained builder)
    (implies : ∀ id, fewer id → plained id) : Over document base held fewer builder := by
  obtain ⟨nodes, same, follows⟩ := isOver
  exact ⟨nodes, same, follows.imp implies⟩

theorem Over.seize {builder : Builder} (isOver : Over document base held plained builder)
    {id : NodeId}
    (free : held id = none) : ∃ entries, document.AtRest id entries ∧
      Over document base (Function.update held id (some entries)) plained builder := by
  obtain ⟨nodes, same, follows⟩ := isOver
  obtain ⟨entries, rest, seized⟩ := follows.seize free
  exact ⟨entries, rest, nodes, same, seized⟩

theorem Over.release {builder : Builder} {id : NodeId} {entries : List (NodeId × NodeId)}
    (isOver : Over document base (Function.update held id (some entries)) plained builder)
    (free : held id = none) (flattened : document.IsFlattened id)
    (flat : document.Flat [id] entries) :
    Over document base held plained builder := by
  obtain ⟨nodes, same, follows⟩ := isOver
  exact ⟨nodes, same, follows.release free flattened flat⟩

theorem goes_becomes (id : NodeId) : Goes mayFail (Over document base held plained) (nodeAt id)
    fun node builder => document.Becomes held plained id node ∧
      Over document base held plained builder := by
  refine (goes_nodeAt id).mono_after ?_
  rintro _ _ ⟨rfl, nodes, rfl, follows⟩
  exact ⟨follows.each id, nodes, rfl, follows⟩

theorem goes_setNode {id : NodeId} {tag : Tag} {entries : List (NodeId × NodeId)} {later : Held}
    {plainer : NodeId → Prop} (inside : id < document.nodes.size)
    (may : document.MayBe later plainer id tag entries)
    (others : ∀ other, other ≠ id → later other = held other ∧ (plainer other → plained other)) :
    Goes mayFail (Over document base held plained)
      (setNode id ((document.node id).become tag entries))
      fun _ => Over document base later plainer := by
  rintro _ ⟨nodes, rfl, follows⟩
  exact ⟨_, rfl, follows.set inside may others⟩

section Mapping
variable {id : NodeId} {tag : Tag} {line : Nat} {written : List (NodeId × NodeId)}

theorem goes_entriesAt (isMapping : document.node id = .mapping tag line written)
    {current : List (NodeId × NodeId)} (busy : held id = some current) :
    Goes mayFail (Over document base held plained) (entriesAt id)
      fun entries builder => entries = current ∧ Over document base held plained builder := by
  refine (goes_becomes id).bind fun node => goes_of ?_
  rintro ⟨tag, entries, rfl, may⟩
  rw [isMapping]
  exact goes_pure fun builder isOver => ⟨may.busy current busy, isOver⟩

theorem goes_setEntries (isMapping : document.node id = .mapping tag line written)
    (entries : List (NodeId × NodeId)) :
    Goes mayFail (Over document base held plained) (setEntries id entries)
      fun _ => Over document base (Function.update held id (some entries)) plained := by
  refine (goes_becomes id).bind fun node => goes_of ?_
  rintro ⟨tag, old, rfl, may⟩
  have become : (document.node id).become tag entries = .mapping tag line entries := by
    rw [isMapping]
    rfl
  rw [isMapping, Node.become]
  dsimp only
  rw [← become]
  refine goes_setNode (Document.lt_size_of_mapping isMapping)
    ⟨may.hasTag, ?_, ?_, may.plain⟩ fun other differs =>
    ⟨Function.update_of_ne differs .., fun plain => plain⟩
  · simp
  · simp

end Mapping

theorem plainKey_run {id : NodeId} {builder : Builder} {node : Node} {tag : Tag}
    {entries : List (NodeId × NodeId)}
    (is : builder.nodes.getD id .empty = node.become tag entries) :
    (plainKey id).run builder = .ok ((), if tag = .value then
      { builder with nodes := builder.nodes.set! id (node.become .str entries) } else builder) := by
  have read : (nodeAt id).run builder = .ok (node.become tag entries, builder) := by rw [← is]; rfl
  rw [plainKey, StateT.run_bind, read, ok_bind]
  by_cases same : tag = .value
  · rw [if_pos same, same]
    cases node <;> rfl
  · rw [if_neg same]
    cases node <;> simp only [Node.become]
    all_goals
      split
      all_goals simp_all
      rfl

theorem goes_plainKey {id : NodeId} (isKey : document.IsPlained id) :
    Goes mayFail (Over document base held plained) (plainKey id)
      fun _ => Over document base held fun other => plained other ∨ other = id := by
  rintro _ ⟨nodes, rfl, follows⟩
  obtain ⟨tag, entries, is, may⟩ := follows.each id
  rw [plainKey_run is]
  show Over document base held _ (if tag = .value then _ else _)
  by_cases same : tag = .value
  · subst same
    have own : (document.node id).tag = .value := by
      rcases may.hasTag with own | ⟨own, -⟩
      · exact own.symm
      · exact own
    have written : document.node id ≠ .empty := fun empty => by rw [empty] at own; cases own
    rw [if_pos rfl]
    refine ⟨_, rfl, follows.set (Document.lt_size_of_ne_empty written) ?_ fun other differs => ?_⟩
    · exact ⟨.inr ⟨own, rfl, isKey⟩, may.busy, may.free, fun _ => nofun⟩
    · exact ⟨rfl, fun plain => plain.resolve_right differs⟩
  · rw [if_neg same]
    refine ⟨nodes, rfl, follows.size, fun other => ?_⟩
    by_cases here : other = id
    · subst here
      exact ⟨tag, entries, is, may.hasTag, may.busy, may.free, fun _ => same⟩
    · obtain ⟨ownTag, ownEntries, own, may⟩ := follows.each other
      exact ⟨ownTag, ownEntries, own, may.hasTag, may.busy, may.free, fun plain =>
        may.plain (plain.resolve_right here)⟩

theorem goes_plainKeys (entries : List (NodeId × NodeId))
    (areKeys : ∀ entry ∈ entries, document.IsPlained entry.1) :
    Goes mayFail (Over document base held plained) (entries.forM fun entry => plainKey entry.1)
      fun _ => Over document base held fun id => plained id ∨ id ∈ entries.map (·.1) := by
  refine (goes_forM entries (fun front => Over document base held fun id =>
    plained id ∨ id ∈ front.map (·.1)) ?_).mono_before fun builder isOver => ?_
  · intro front entry rest same
    refine (goes_plainKey (areKeys entry (by simp [same]))).mono_after fun _ builder isOver =>
      isOver.imp fun id plain => ?_
    rw [List.map_append, List.mem_append, List.map_singleton, List.mem_singleton] at plain
    rwa [or_assoc]
  · exact isOver.imp fun id plain => plain.resolve_right (by simp)

/-- What is found by looking for a merge key: there is none, or the first one is cut out. -/
def Cuts (document : Document) (entries : List (NodeId × NodeId)) :
    Option (NodeId × List (NodeId × NodeId)) → Prop
  | none => document.takenBy entries = [] ∧ document.own entries = entries
  | some (target, others) =>
    document.takenBy entries = document.sources target ++ document.takenBy others ∧
      document.own entries = document.own others ∧
      (entries.filter document.isMerge).length = (others.filter document.isMerge).length + 1

theorem goes_withoutMerge? (entries : List (NodeId × NodeId)) :
    Goes mayFail (Over document base held plained) (withoutMerge? entries)
      fun found builder => Cuts document entries found ∧
        Over document base held plained builder := by
  induction entries with
  | nil => exact goes_pure fun _ isOver => ⟨⟨rfl, rfl⟩, isOver⟩
  | cons entry rest ih =>
    obtain ⟨key, value⟩ := entry
    refine (goes_becomes key).bind fun node => goes_of ?_
    rintro ⟨tag, entries, rfl, may⟩
    rw [Node.tag_become]
    by_cases merge : tag = .merge
    · have isMerge : document.isMerge (key, value) = true := by
        simpa [Document.isMerge] using may.merge_iff.mp merge
      rw [if_pos merge]
      refine goes_pure fun _ isOver => ⟨⟨?_, ?_, ?_⟩, isOver⟩
      · simp [Document.takenBy, isMerge]
      · simp [Document.own, isMerge]
      · simp [isMerge]
    · have isMerge : document.isMerge (key, value) = false := by
        simpa [Document.isMerge] using fun own => merge (may.merge_iff.mpr own)
      rw [if_neg merge]
      refine ih.bind fun found => goes_of fun cuts => ?_
      match found with
      | none =>
        obtain ⟨takes, own⟩ := cuts
        refine goes_pure fun _ isOver => ⟨⟨?_, ?_⟩, isOver⟩
        · simpa [Document.takenBy, isMerge] using takes
        · simpa [Document.own, isMerge] using own
      | some (target, others) =>
        obtain ⟨takes, own, fewer⟩ := cuts
        refine goes_pure fun _ isOver => ⟨⟨?_, ?_, ?_⟩, isOver⟩
        · simpa [Document.takenBy, isMerge] using takes
        · simpa [Document.own, isMerge] using own
        · simpa [isMerge] using fewer

end Steps

/-! ## The three ways into merge keys -/

/-- All mappings that are being looked at take a mapping over, at once or by others. -/
def Below (document : Document) (held : Held) (id : NodeId) : Prop :=
  ∀ busy, held busy ≠ none → Relation.TransGen document.TakesOver busy id

theorem Below.free {held : Held} {id : NodeId} (below : Below document held id)
    (acyclic : ∀ id, ¬ Relation.TransGen document.TakesOver id id) : held id = none := by
  by_contra busy
  exact acyclic id (below id busy)

theorem Below.deeper {held : Held} {id other : NodeId} (below : Below document held id)
    (takes : document.TakesOver id other) (entries : List (NodeId × NodeId)) :
    Below document (Function.update held id (some entries)) other := by
  intro busy isBusy
  by_cases same : busy = id
  · exact same ▸ .single takes
  · rw [Function.update_of_ne same] at isBusy
    exact (below busy isBusy).tail takes

theorem Below.again {held : Held} {id other : NodeId} {current : List (NodeId × NodeId)}
    (below : Below document held other) (isBusy : held id = some current)
    (entries : List (NodeId × NodeId)) :
    Below document (Function.update held id (some entries)) other := by
  intro busy busyToo
  by_cases same : busy = id
  · exact below busy (by simp [same, isBusy])
  · rw [Function.update_of_ne same] at busyToo
    exact below busy busyToo

/-- What some mappings bring: their entries with those that they take over, after which all keys of
these are plain. -/
def Brings (document : Document) (base : Builder) (held : Held)
    (plained : NodeId → Prop) (ids : List NodeId)
    (entries : List (NodeId × NodeId)) (builder : Builder) : Prop :=
  document.Flat ids entries ∧
    Over document base held (fun id => plained id ∨ id ∈ entries.map (·.1)) builder

def CanFlatten (document : Document) (held : Held) (ids : List NodeId) : Prop :=
  ∀ id ∈ ids, Below document held id ∧ document.IsFlattened id

def TakesWell (document : Document) (base : Builder) (budget : Nat) : Prop :=
  ∀ id tag line written held plained current, document.node id = .mapping tag line written →
    held id = some current → CanFlatten document held (document.takenBy current) →
    Goes (¬ ((∃ entries, document.Flat (document.takenBy current) entries) ∧
        document.room held + (current.filter document.isMerge).length + 2 ≤ budget))
      (Over document base held plained) (takeMerges budget id)
      (Brings document base (Function.update held id (some (document.own current))) plained
        (document.takenBy current))

def BringsWell (document : Document) (base : Builder) (budget : Nat) : Prop :=
  ∀ target held plained, CanFlatten document held (document.sources target) →
    Goes (¬ ((∃ entries, document.Flat (document.sources target) entries) ∧
        document.room held + 1 ≤ budget))
      (Over document base held plained) (broughtBy budget target)
      (Brings document base held plained (document.sources target))

def FlattensWell (document : Document) (base : Builder) (budget : Nat) : Prop :=
  ∀ id held plained, CanFlatten document held [id] →
    Goes (¬ ((∃ entries, document.Flat [id] entries) ∧ document.room held ≤ budget))
      (Over document base held plained) (mergedEntries budget id)
      (Brings document base held plained [id])

variable {base : Builder} {budget : Nat}

theorem takesWell_succ (brings : BringsWell document base budget)
    (takes : TakesWell document base budget) :
    TakesWell document base (budget + 1) := by
  intro id tag line written held plained current isMapping busy can
  rw [takeMerges]
  refine (goes_entriesAt isMapping busy).bind fun found => goes_of ?_
  rintro rfl
  refine (goes_withoutMerge? found).bind fun cut => goes_of fun cuts => ?_
  match cut with
  | none =>
    obtain ⟨none, own⟩ := cuts
    refine goes_pure fun builder isOver => ⟨none ▸ .nil, ?_⟩
    have same : Function.update held id (some (document.own found)) = held := by
      rw [own, ← busy, Function.update_eq_self]
    rw [same]
    exact isOver.imp fun id plain => plain.resolve_right (by simp)
  | some (target, others) =>
    obtain ⟨first, own, fewer⟩ := cuts
    rw [first] at can ⊢
    have busyAfter : Function.update held id (some others) id = some others :=
        Function.update_self ..
    refine (goes_setEntries isMapping others).bind fun _ => ?_
    -- The mapping has fewer entries while its first merge key is followed, which makes room.
    refine Goes.bind ((brings target _ plained ?_).mono_fail ?_) fun brought =>
      goes_of fun flat => ?_
    · intro other inside
      obtain ⟨below, flattened⟩ := can other (List.mem_append_left _ inside)
      exact ⟨below.again busy others, flattened⟩
    · rintro stuck ⟨all, room⟩
      refine stuck ⟨(Document.exists_flat_append.mp all).1, ?_⟩
      rw [Document.room_update_again busy]
      omega
    refine Goes.bind ((takes id tag line written _ _ others isMapping busyAfter ?_).mono_fail ?_)
      fun more => goes_of fun flatMore => goes_pure fun builder isOver => ?_
    · intro other inside
      obtain ⟨below, flattened⟩ := can other (List.mem_append_right _ inside)
      exact ⟨below.again busy others, flattened⟩
    · rintro stuck ⟨all, room⟩
      refine stuck ⟨(Document.exists_flat_append.mp all).2, ?_⟩
      rw [Document.room_update_again busy]
      omega
    refine ⟨flat.append flatMore, ?_⟩
    rw [own]
    rw [Function.update_idem] at isOver
    exact isOver.imp fun id plain => by simpa [or_assoc] using plain

theorem bringsWell_succ (flattens : FlattensWell document base budget) :
    BringsWell document base (budget + 1) := by
  intro target held plained can
  rw [broughtBy]
  refine (goes_becomes target).bind fun node => goes_of ?_
  rintro ⟨tag, entries, rfl, may⟩
  cases is : document.node target with
  | scalar _ _ =>
    refine goes_malformed fun _ _ => ?_
    rintro ⟨⟨_, flat⟩, -⟩
    rw [Document.sources, is] at flat
    cases flat with
    | cons isMapping _ _ => cases is.symm.trans isMapping
  | mapping _ _ _ =>
    have one : document.sources target = [target] := by rw [Document.sources, is]
    rw [one] at can ⊢
    refine (flattens target held plained can).mono_fail ?_
    rintro stuck ⟨all, room⟩
    exact stuck ⟨all, by omega⟩
  | sequence _ items =>
    have reversed : document.sources target = items.reverse := by rw [Document.sources, is]
    rw [reversed] at can ⊢
    refine Goes.bind ((goes_mapM items (fun front groups builder =>
      List.Forall₂ (fun id group => document.Flat [id] group) front groups ∧
        Over document base held (fun id => plained id ∨ id ∈ groups.flatten.map (·.1)) builder)
      ?_).mono_before ?_) fun groups => goes_of fun each => goes_pure fun builder isOver => ?_
    · intro front item rest groups same
      refine goes_of fun each => ?_
      refine ((flattens item held _ ?_).mono_fail ?_).mono_after fun group builder brought => ?_
      · intro other inside
        obtain rfl := List.mem_singleton.mp inside
        exact can other (by simp [same])
      · rintro stuck ⟨all, room⟩
        refine stuck ⟨?_, by omega⟩
        rw [same, List.reverse_append, List.reverse_cons, List.append_assoc] at all
        exact (Document.exists_flat_append.mp (Document.exists_flat_append.mp all).2).1
      · obtain ⟨flat, isOver⟩ := brought
        refine ⟨List.rel_append each (.cons flat .nil), isOver.imp fun id plain => ?_⟩
        simpa [or_assoc] using plain
    · intro builder isOver
      exact ⟨.nil, isOver.imp fun id plain => plain.resolve_right (by simp)⟩
    · refine ⟨Document.Flat.of_each (List.forall₂_reverse_iff.mpr each),
        isOver.imp fun id plain => ?_⟩
      simpa [List.mem_flatten] using plain

theorem flattensWell_succ (acyclic : ∀ id, ¬ Relation.TransGen document.TakesOver id id)
    (takes : TakesWell document base budget) : FlattensWell document base (budget + 1) := by
  intro id held plained can
  obtain ⟨below, flattened⟩ := can id (List.mem_singleton_self id)
  have free := below.free acyclic
  rw [mergedEntries]
  cases is : document.node id with
  | scalar _ _ | sequence _ _ =>
    refine (goes_becomes id).bind fun node => goes_of ?_
    rintro ⟨tag, entries, rfl, may⟩
    rw [is]
    refine goes_malformed fun _ _ => ?_
    rintro ⟨⟨_, flat⟩, -⟩
    cases flat with
    | cons isMapping _ _ => cases is.symm.trans isMapping
  | mapping tag line written =>
    refine Goes.mono_before
      (goes_exists fun current => goes_of fun rest : document.AtRest id current => ?_)
      fun _ isOver => isOver.seize free
    -- it may have been looked at before, and then nothing is left to take over
    have cases := rest.cases is
    refine (goes_becomes id).bind fun node => goes_of ?_
    rintro ⟨_, entries, rfl, -⟩
    rw [is]
    refine Goes.bind
      ((takes id tag line written _ plained current is (Function.update_self ..) ?_).mono_fail ?_)
      fun brought => goes_of fun flat => ?_
    · intro other inside
      rcases cases with rfl | ⟨-, none, -⟩
      · have takesOver : document.TakesOver id other := by rw [Document.TakesOver, is]; exact inside
        exact ⟨below.deeper takesOver _, .inr (.inr ⟨id, takesOver⟩)⟩
      · rw [none] at inside
        cases inside
    · rintro stuck ⟨all, room⟩
      obtain ⟨again, merges⟩ := rest.takes is all
      rw [Document.room_update (Document.lt_size_of_mapping is) free current, Document.weight, is]
        at room
      exact stuck ⟨again, by simp only [Node.entries] at room; omega⟩
    refine (goes_entriesAt is (Function.update_self ..)).bind fun own => goes_of ?_
    rintro rfl
    refine (goes_plainKeys _ ?_).bind fun _ => (goes_setEntries is _).bind fun _ =>
      (goes_entriesAt is (Function.update_self ..)).mono_after ?_
    · intro entry inside
      have member := (List.mem_filter.mp inside).1
      rcases cases with rfl | ⟨flatBefore, -, -⟩
      · exact ⟨id, entry.2, flattened, by rw [is]; exact member⟩
      · exact flatBefore.isPlained (by simpa using flattened) entry member
    · rintro _ builder ⟨rfl, isOver⟩
      have whole : document.Flat [id] (brought ++ document.own current) := by
        rcases cases with rfl | ⟨flatBefore, none, own⟩
        · simpa using Document.Flat.cons is flat .nil
        · rw [none] at flat
          cases flat
          rwa [own]
      rw [Function.update_idem, Function.update_idem] at isOver
      refine ⟨whole, (isOver.release free flattened whole).imp fun id plain => ?_⟩
      simpa [or_assoc] using plain

/-- Whatever merge keys bring is what the written document says, however the nodes have changed by
then. The budget counts the entries of the mappings that are not being looked at; no cycle can use
it up. -/
theorem goes_merges (acyclic : ∀ id, ¬ Relation.TransGen document.TakesOver id id) (budget : Nat) :
    TakesWell document base budget ∧ BringsWell document base budget ∧
      FlattensWell document base budget := by
  induction budget with
  | zero =>
    refine ⟨?_, ?_, ?_⟩
    · intro id tag line written held plained current _ _ _
      exact goes_malformed fun _ _ ⟨_, room⟩ => by omega
    · intro target held plained _
      exact goes_malformed fun _ _ ⟨_, room⟩ => by omega
    · intro id held plained can
      refine goes_malformed fun _ _ ⟨⟨_, flat⟩, room⟩ => ?_
      cases flat with
      | cons isMapping _ _ =>
        have free := (can id (List.mem_singleton_self id)).1.free acyclic
        rw [Document.room_update (Document.lt_size_of_mapping isMapping) free [], Document.weight]
          at room
        omega
  | succ budget ih =>
    obtain ⟨takes, brings, flattens⟩ := ih
    exact ⟨takesWell_succ brings takes, bringsWell_succ flattens, flattensWell_succ acyclic takes⟩

theorem goes_mergedEntries (acyclic : ∀ id, ¬ Relation.TransGen document.TakesOver id id)
    {id : NodeId}
    (flattened : document.IsFlattened id) {plained : NodeId → Prop} :
    Goes (¬ ∃ entries, document.Flat [id] entries) (Over document base (fun _ => none) plained)
      (mergedEntries document.depth id) (Brings document base (fun _ => none) plained [id]) := by
  refine ((goes_merges acyclic document.depth).2.2 id _ plained ?_).mono_fail ?_
  · rintro other inside
    obtain rfl := List.mem_singleton.mp inside
    exact ⟨fun busy isBusy => absurd rfl isBusy, flattened⟩
  · intro stuck all
    have room := document.room_add_three
    exact stuck ⟨all, by omega⟩

end Build

end SupplyLint.Yaml
