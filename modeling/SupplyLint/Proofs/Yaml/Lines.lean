import Mathlib.Data.List.Perm.Subperm
import Mathlib.Data.List.Zip
import Mathlib.Logic.Relation
import SupplyLint.Proofs.Merge
import SupplyLint.Proofs.Yaml.Made
import SupplyLint.Yaml.Load

/-! # The lines of loaded mappings

Every value that is loaded is what the root of a document is seen as
(`value_seenAs`), leaf by leaf and entry by entry. So each mapping in it stands at
the place of a node (`exists_placedIn_of_isPart`), and under the key for its line
it has the line at which that node starts (`PlacedIn.starts`). -/
set_option autoImplicit false

namespace SupplyLint.Yaml

def Made.shape? : Made → Option Shape
  | .leaf _ | .set _ => none
  | .list _ | .pairs _ => some .list
  | .map _ _ => some .map

def HoldsNode (made : Array (Option Made)) (id child : NodeId) : Prop :=
  ∃ found, made.getD id none = some found ∧ child ∈ found.children

/-- A node is seen as a value, given what all nodes are made into. A collection inside itself is
only named there. -/
inductive SeenAs (made : Array (Option Made)) : NodeId → Value → Prop
  | unmade {id : NodeId} (isUnmade : made.getD id none = none) : SeenAs made id .null
  | leaf {id : NodeId} {value : Value} (isLeaf : made.getD id none = some (.leaf value)) :
      SeenAs made id value
  | set {id : NodeId} {items : List Value} (isSet : made.getD id none = some (.set items)) :
      SeenAs made id (.set items)
  | list {id : NodeId} {ids : List NodeId} {items : List Value}
      (isList : made.getD id none = some (.list ids))
      (each : List.Forall₂ (SeenAs made) ids items) :
      SeenAs made id (.list items)
  | pairs {id : NodeId} {pairs : List (NodeId × NodeId)} {rows : List (Value × Value)}
      (arePairs : made.getD id none = some (.pairs pairs))
      (keys : List.Forall₂ (SeenAs made) (pairs.map (·.1)) (rows.map (·.1)))
      (values : List.Forall₂ (SeenAs made) (pairs.map (·.2)) (rows.map (·.2))) :
      SeenAs made id (.list (rows.map fun row => .tuple [row.1, row.2]))
  | map {id : NodeId} {line : Option Nat} {entries : Keyed Value NodeId} {viewed : Entries}
      (isMap : made.getD id none = some (.map line entries)) (keys : viewed.keys = entries.keys)
      (each : List.Forall₂ (SeenAs made) entries.values viewed.values) :
      SeenAs made id (.map (withLine line viewed))
  | inside {id : NodeId} {found : Made} {shape : Shape} (isFound : made.getD id none = some found)
      (hasShape : found.shape? = some shape) (again : Relation.TransGen (HoldsNode made) id id) :
      SeenAs made id (.enclosing shape)

/-! ## What is seen of a node -/

section Views
variable {made : Array (Option Made)}

def AllSeen (made : Array (Option Made)) (seen : Array (Option Value)) : Prop :=
  ∀ id value, seen.getD id none = some value → SeenAs made id value

/-- A step that sees values sees them as they are, if all values before are; what it gives has a
property. -/
def Shows (made : Array (Option Made)) {α : Type} (gives : α → Prop) (step : Seen α) : Prop :=
  ∀ seen, AllSeen made seen → gives (step.run seen).1 ∧ AllSeen made (step.run seen).2

section Steps
variable {α β : Type} {gives : α → Prop} {later : β → Prop}

theorem shows_pure {result : α} (given : gives result) : Shows made gives (pure result) :=
  fun _ all => ⟨given, all⟩

theorem Shows.bind {step : Seen α} {next : α → Seen β} (first : Shows made gives step)
    (second : ∀ a, gives a → Shows made later (next a)) : Shows made later (step >>= next) := by
  intro seen all
  obtain ⟨given, kept⟩ := first seen all
  exact second _ given _ kept

theorem Shows.result {step : Seen α} (shows : Shows made gives step) {seen : Array (Option Value)}
    (all : AllSeen made seen) : gives (step.run seen).run.1 :=
  (shows seen all).1

theorem shows_get : Shows made (AllSeen made) get :=
  fun _ all => ⟨all, all⟩

theorem shows_set (id : NodeId) {value : Value} (own : SeenAs made id value) :
    Shows made (fun _ => True) (modify fun values => values.set! id (some value)) := by
  intro seen all
  refine ⟨trivial, fun other found same => ?_⟩
  rcases getD_set! seen id other (some value) none with ⟨rfl, new⟩ | old
  · obtain rfl := Option.some.inj (new.symm.trans same)
    exact own
  · exact all other found (old.symm.trans same)

theorem shows_mapM {step : α → Seen β} {relates : α → β → Prop} (items : List α)
    (each : ∀ item ∈ items, Shows made (relates item) (step item)) :
    Shows made (List.Forall₂ relates items) (items.mapM step) := by
  induction items with
  | nil => exact shows_pure .nil
  | cons item rest ih =>
    rw [List.forall_mem_cons] at each
    rw [List.mapM_cons]
    exact each.1.bind fun first here => (ih each.2).bind fun others there =>
      shows_pure (.cons here there)

end Steps

abbrev IsSeen (made : Array (Option Made)) (id : NodeId) (view : View) : Prop :=
  SeenAs made id view.1

def PairSeen (made : Array (Option Made)) (pair : NodeId × NodeId) (view : View) : Prop :=
  ∃ row : Value × Value, view.1 = .tuple [row.1, row.2] ∧ SeenAs made pair.1 row.1 ∧
    SeenAs made pair.2 row.2

def EntrySeen (made : Array (Option Made)) (entry : Value × NodeId)
    (viewed : Value × Value) : Prop :=
  viewed.1 = entry.1 ∧ SeenAs made entry.2 viewed.2

theorem seenAs_map {id : NodeId} {line : Option Nat} {entries : Keyed Value NodeId}
    (isMap : made.getD id none = some (.map line entries)) {viewed : Entries}
    (each : List.Forall₂ (EntrySeen made) entries viewed) :
    SeenAs made id (.map (withLine line viewed)) := by
  refine .map isMap ?_ ?_
  · clear isMap
    induction each with
    | nil => rfl
    | cons here _ ih => simp [here.1, ih]
  · rw [Keyed.values, Keyed.values, List.forall₂_map_left_iff, List.forall₂_map_right_iff]
    exact each.imp fun _ _ seen => seen.2

theorem seenAs_pairs {id : NodeId} {pairs : List (NodeId × NodeId)}
    (arePairs : made.getD id none = some (.pairs pairs)) {views : List View}
    (each : List.Forall₂ (PairSeen made) pairs views) :
    SeenAs made id (View.collect views .list).1 := by
  obtain ⟨rows, same, keys, values⟩ : ∃ rows : List (Value × Value),
      views.map (·.1) = rows.map (fun row => .tuple [row.1, row.2]) ∧
      List.Forall₂ (SeenAs made) (pairs.map (·.1)) (rows.map (·.1)) ∧
      List.Forall₂ (SeenAs made) (pairs.map (·.2)) (rows.map (·.2)) := by
    clear arePairs
    induction each with
    | nil => exact ⟨[], rfl, .nil, .nil⟩
    | cons here _ ih =>
      obtain ⟨row, same, key, value⟩ := here
      obtain ⟨rows, others, keys, values⟩ := ih
      exact ⟨row :: rows, by simp [same, others], .cons key keys, .cons value values⟩
  rw [View.collect, same]
  exact .pairs arePairs keys values

theorem seenAs_list {id : NodeId} {ids : List NodeId}
    (isList : made.getD id none = some (.list ids)) {views : List View}
    (each : List.Forall₂ (IsSeen made) ids views) : SeenAs made id (View.collect views .list).1 :=
  .list isList (List.forall₂_map_right_iff.mpr each)

theorem shows_pair {step : NodeId → Seen View} {pair : NodeId × NodeId}
    (first : Shows made (IsSeen made pair.1) (step pair.1))
    (second : Shows made (IsSeen made pair.2) (step pair.2)) :
    Shows made (PairSeen made pair) (do
      let key ← step pair.1
      let value ← step pair.2
      return View.collect [key, value] .tuple) :=
  first.bind fun key keySeen => second.bind fun value valueSeen =>
    shows_pure ⟨(key.1, value.1), rfl, keySeen, valueSeen⟩

theorem shows_entry {step : NodeId → Seen View} {entry : Value × NodeId}
    (shows : Shows made (IsSeen made entry.2) (step entry.2)) :
    Shows made (fun view : (Value × Value) × Bool => EntrySeen made entry view.1) (do
      let (value, whole) ← step entry.2
      return ((entry.1, value), whole)) :=
  shows.bind fun _ seen => shows_pure ⟨rfl, seen⟩

theorem shows_rootEntry {step : NodeId → Seen View} {entry : Value × NodeId}
    (shows : Shows made (IsSeen made entry.2) (step entry.2)) :
    Shows made (EntrySeen made entry) (do return (entry.1, (← step entry.2).1)) :=
  shows.bind fun _ seen => shows_pure ⟨rfl, seen⟩

/-! ## The nodes around a node -/

theorem lt_size_of_holdsNode {id child : NodeId} (holds : HoldsNode made id child) :
    id < made.size := by
  obtain ⟨found, is, -⟩ := holds
  by_contra outside
  simp [Array.getD_eq_getD_getElem?, Array.getElem?_eq_none (Nat.le_of_not_lt outside)] at is

/-- The nodes around a node while it is looked at: they hold it, none of them twice, and they and
the steps that are left are more than all nodes. -/
structure Around (made : Array (Option Made)) (budget : Nat) (around : List NodeId) (id : NodeId) :
    Prop where
  nodup : around.Nodup
  holds : ∀ other ∈ around, Relation.TransGen (HoldsNode made) other id
  enough : made.size < around.length + budget

section Around
variable {budget : Nat} {around : List NodeId} {id : NodeId}

theorem around_nil (enough : made.size < budget) : Around made budget [] id :=
  ⟨List.nodup_nil, by simp, by simpa using enough⟩

theorem Around.length_le (here : Around made budget around id) : around.length ≤ made.size := by
  have nodes : around ⊆ List.range made.size := by
    intro other member
    obtain ⟨child, holds, -⟩ := Relation.TransGen.head'_iff.mp (here.holds other member)
    exact List.mem_range.mpr (lt_size_of_holdsNode holds)
  simpa using (here.nodup.subperm nodes).length_le

theorem Around.inner (here : Around made (budget + 1) around id) (new : around.contains id = false)
    {child : NodeId} (holds : HoldsNode made id child) :
      Around made budget (id :: around) child := by
  refine ⟨List.nodup_cons.mpr ⟨by simpa using new, here.nodup⟩, ?_, ?_⟩
  · rw [List.forall_mem_cons]
    exact ⟨.single holds, fun other member => (here.holds other member).tail holds⟩
  · have enough := here.enough
    rw [List.length_cons]
    omega

theorem Around.again (here : Around made budget around id) (inside : around.contains id = true) :
    Relation.TransGen (HoldsNode made) id id :=
  here.holds id (List.contains_iff_mem.mp inside)

end Around

theorem shows_view (budget : Nat) (around : List NodeId) (id : NodeId)
    (here : Around made budget around id) :
    Shows made (IsSeen made id) (view made around budget id) := by
  induction budget generalizing around id with
  | zero => exact absurd here.enough (Nat.not_lt.mpr here.length_le)
  | succ budget ih =>
    rw [view]
    refine shows_get.bind fun seen all => ?_
    split
    · next value found => exact shows_pure (all id value found)
    · extract_lets finish
      have finishes {view : View} (own : IsSeen made id view) :
          Shows made (IsSeen made id) (pure view >>= finish) := by
        rw [pure_bind]
        unfold finish
        dsimp only
        split
        · exact (shows_set id own).bind fun _ _ => shows_pure own
        · exact shows_pure own
      -- No node that is around itself is gone into again, so the budget lasts.
      have inner {found : Made} (is : made.getD id none = some found)
          (new : ¬ around.contains id = true) {child : NodeId} (part : child ∈ found.children) :
          Shows made (IsSeen made child) (view made (id :: around) budget child) :=
        ih _ child (here.inner (Bool.eq_false_iff.mpr new) ⟨found, is, part⟩)
      split
      · next isUnmade => exact finishes (.unmade isUnmade)
      · next value found => exact finishes (.leaf found)
      · next items found => exact finishes (.set found)
      · next ids found =>
        split
        · next again => exact finishes (.inside found rfl (here.again again))
        · next new =>
          exact (shows_mapM _ fun item member => inner found new member).bind fun views each =>
            finishes (seenAs_list found each)
      · next pairs found =>
        split
        · next again => exact finishes (.inside found rfl (here.again again))
        · next new =>
          have parts {pair : NodeId × NodeId} (member : pair ∈ pairs) {part : NodeId}
              (either : part ∈ [pair.1, pair.2]) : part ∈ (Made.pairs pairs).children :=
            List.mem_flatMap.mpr ⟨pair, member, either⟩
          exact (shows_mapM _ fun pair member =>
            shows_pair (inner found new (parts member (by simp)))
              (inner found new (parts member (by simp)))).bind fun views each =>
            finishes (seenAs_pairs found each)
      · next line entries found =>
        split
        · next again => exact finishes (.inside found rfl (here.again again))
        · next new =>
          exact (shows_mapM _ fun entry member =>
            shows_entry (inner found new (List.mem_map_of_mem member))).bind fun views each =>
            finishes (seenAs_map found (List.forall₂_map_right_iff.mpr each))

end Views

theorem value_seenAs {document : Document} {value : Value} (read : document.value true = .ok value)
    {made : Array (Option Made)} (makes : document.made true = .ok made) :
    SeenAs made document.root value := by
  simp only [Document.value, makes, ok_bind, pure_eq_ok] at read
  subst read
  have shows (id : NodeId) :
      Shows made (IsSeen made id) (view made [] (document.nodes.size + 1) id) :=
    shows_view _ _ id (around_nil (by rw [size_of_made makes]; exact Nat.lt_succ_self _))
  have empty : AllSeen made (Array.replicate document.nodes.size none) := by
    intro id value found
    rw [Array.getD_eq_getD_getElem?, Array.getElem?_replicate] at found
    split at found <;> cases found
  split
  · next line entries found =>
    refine Shows.result ?_ empty
    exact (shows_mapM _ fun entry _ => shows_rootEntry (shows entry.2)).bind fun viewed each =>
      shows_pure (seenAs_map found each)
  · have whole : Shows made (SeenAs made document.root) (do
        return (← view made [] (document.nodes.size + 1) document.root).1) :=
      (shows document.root).bind fun view seen => shows_pure seen
    exact whole.result empty

theorem exists_made {document : Document} {value : Value} (read : document.value true = .ok value) :
    ∃ made, document.made true = .ok made := by
  simp only [Document.value, bind_eq_ok] at read
  exact ⟨_, read.choose_spec.1⟩

/-! ## Parts of values -/

/-- A value is part of another one: it is that value, or part of an item, of a key or of a value in
it. -/
inductive IsPart (part : Value) : Value → Prop
  | whole : IsPart part part
  | item {items : List Value} {item : Value} (member : item ∈ items) (inner : IsPart part item) :
      IsPart part (.list items)
  | member {items : List Value} {item : Value} (member : item ∈ items) (inner : IsPart part item) :
      IsPart part (.tuple items)
  | element {items : List Value} {item : Value} (member : item ∈ items) (inner : IsPart part item) :
      IsPart part (.set items)
  | key {entries : Entries} {entry : Value × Value} (member : entry ∈ entries)
      (inner : IsPart part entry.1) : IsPart part (.map entries)
  | value {entries : Entries} {entry : Value × Value} (member : entry ∈ entries)
      (inner : IsPart part entry.2) : IsPart part (.map entries)

/-- Where nodes stand in what a root is seen as, each with what stands there. -/
inductive PlacedIn (made : Array (Option Made)) (root : NodeId)
    (whole : Value) : NodeId → Value → Prop
  | root : PlacedIn made root whole root whole
  | item {id child : NodeId} {ids : List NodeId} {items : List Value} {value : Value}
      (outer : PlacedIn made root whole id (.list items))
      (isList : made.getD id none = some (.list ids)) (inside : (child, value) ∈ ids.zip items) :
      PlacedIn made root whole child value
  | key {id : NodeId} {pairs : List (NodeId × NodeId)} {pair : NodeId × NodeId} {items : List Value}
      {key value : Value} (outer : PlacedIn made root whole id (.list items))
      (arePairs : made.getD id none = some (.pairs pairs))
      (inside : (pair, .tuple [key, value]) ∈ pairs.zip items) : PlacedIn made root whole pair.1 key
  | value {id : NodeId} {pairs : List (NodeId × NodeId)}
      {pair : NodeId × NodeId} {items : List Value}
      {key value : Value} (outer : PlacedIn made root whole id (.list items))
      (arePairs : made.getD id none = some (.pairs pairs))
      (inside : (pair, .tuple [key, value]) ∈ pairs.zip items) :
        PlacedIn made root whole pair.2 value
  | entry {id child : NodeId} {line : Option Nat} {nodes : Keyed Value NodeId} {entries : Entries}
      {key value : Value} (outer : PlacedIn made root whole id (.map entries))
      (isMap : made.getD id none = some (.map line nodes)) (node : nodes.get? key = some child)
      (own : entries.get? key = some value) (apart : key ≠ .text lineKey) :
      PlacedIn made root whole child value

theorem get?_withLine {key : Value} (apart : key ≠ .text lineKey) (line : Option Nat)
    (entries : Entries) : (withLine line entries).get? key = entries.get? key := by
  cases line with
  | none => rfl
  | some line =>
    refine Keyed.get?_put_of_differs (Bool.eq_false_iff.mpr fun same => ?_) _
    exact apart (Value.text_beq_iff.mp same)

theorem exists_related_of_get? {relates : NodeId → Value → Prop} {nodes : Keyed Value NodeId}
    {viewed : Entries} (keys : viewed.keys = nodes.keys)
    (each : List.Forall₂ relates nodes.values viewed.values) {key value : Value}
    (own : viewed.get? key = some value) : ∃ child, nodes.get? key = some child ∧
      relates child value := by
  induction nodes generalizing viewed with
  | nil =>
    obtain rfl := List.map_eq_nil_iff.mp keys
    cases own
  | cons first rest ih =>
    obtain ⟨k, id⟩ := first
    cases viewed with
    | nil => cases own
    | cons entry others =>
      obtain ⟨other, v⟩ := entry
      rw [Keyed.keys_cons, Keyed.keys_cons, List.cons.injEq] at keys
      obtain ⟨rfl, keys⟩ := keys
      obtain ⟨here, later⟩ := List.forall₂_cons.mp each
      rw [Keyed.get?] at own ⊢
      split at own
      · next same =>
        obtain rfl := Option.some.inj own
        exact ⟨id, if_pos same, here⟩
      · next differs =>
        rw [if_neg differs]
        exact ih keys later own

theorem related_of_row {relates : NodeId → Value → Prop} {f : NodeId × NodeId → NodeId}
    {g : Value × Value → Value} {pairs : List (NodeId × NodeId)} {rows : List (Value × Value)}
    (each : List.Forall₂ relates (pairs.map f) (rows.map g))
    {pair : NodeId × NodeId} {key value : Value}
    (inside : (pair, Value.tuple [key, value]) ∈
      pairs.zip (rows.map fun row => Value.tuple [row.1, row.2])) :
    relates (f pair) (g (key, value)) := by
  rw [List.zip_map_right, List.mem_map] at inside
  obtain ⟨⟨own, other⟩, member, same⟩ := inside
  cases same
  exact List.forall₂_zip each (by rw [List.zip_map]; exact List.mem_map_of_mem member)

section Places
variable {made : Array (Option Made)} {root : NodeId} {whole : Value}

theorem PlacedIn.seenAs (seen : SeenAs made root whole) {id : NodeId} {value : Value}
    (placed : PlacedIn made root whole id value) : SeenAs made id value := by
  induction placed with
  | root => exact seen
  | item _ isList inside ih =>
    cases ih with
    | list isToo each =>
      cases isList.symm.trans isToo
      exact List.forall₂_zip each inside
    | leaf isToo | pairs isToo _ _ => cases isList.symm.trans isToo
  | key _ arePairs inside ih =>
    cases ih with
    | pairs areToo keys _ =>
      cases arePairs.symm.trans areToo
      exact related_of_row keys inside
    | leaf isToo | list isToo _ => cases arePairs.symm.trans isToo
  | value _ arePairs inside ih =>
    cases ih with
    | pairs areToo _ values =>
      cases arePairs.symm.trans areToo
      exact related_of_row values inside
    | leaf isToo | list isToo _ => cases arePairs.symm.trans isToo
  | entry _ isMap node own apart ih =>
    cases ih with
    | map isToo keys each =>
      cases isMap.symm.trans isToo
      rw [get?_withLine apart] at own
      obtain ⟨other, nodeToo, related⟩ := exists_related_of_get? keys each own
      obtain rfl := Option.some.inj (node.symm.trans nodeToo)
      exact related
    | leaf isToo => cases isMap.symm.trans isToo

/-! ## Mappings in their places -/

/-- Something of a value: what stands at the place of a node, or a pair of such. -/
def IsOf (made : Array (Option Made)) (root : NodeId) (whole value : Value) : Prop :=
  (∃ id, PlacedIn made root whole id value) ∨
    ∃ items, value = .tuple items ∧ ∀ item ∈ items, ∃ id, PlacedIn made root whole id item

theorem not_isPart_of_isLeaf {entries : Entries} {value : Value} (leaf : IsLeaf value) :
    ¬ IsPart (.map entries) value := by
  intro part
  cases part <;> exact leaf

theorem exists_mem_zip {α β : Type} {items : List α} {others : List β}
    (same : items.length = others.length)
    {other : β} (member : other ∈ others) : ∃ item, (item, other) ∈ items.zip others := by
  rw [← List.map_snd_zip (Nat.le_of_eq same.symm), List.mem_map] at member
  obtain ⟨⟨item, _⟩, inside, rfl⟩ := member
  exact ⟨item, inside⟩

section Sound
variable {document : Document} (sound : AllSound document made) (seen : SeenAs made root whole)
include sound seen

theorem PlacedIn.isOf_item {id : NodeId} {items : List Value}
    (placed : PlacedIn made root whole id (.list items)) :
    ∀ item ∈ items, IsOf made root whole item := by
  intro item member
  cases placed.seenAs seen with
  | leaf isLeaf => exact (sound id _ isLeaf).elim
  | list isList each =>
    obtain ⟨child, inside⟩ := exists_mem_zip each.length_eq member
    exact .inl ⟨child, .item placed isList inside⟩
  | @pairs _ pairs rows arePairs keys _ =>
    have same : pairs.length = (rows.map fun row => Value.tuple [row.1, row.2]).length := by
      simpa using keys.length_eq
    obtain ⟨pair, inside⟩ := exists_mem_zip same member
    obtain ⟨row, -, rfl⟩ := List.mem_map.mp member
    refine .inr ⟨_, rfl, ?_⟩
    rw [List.forall_mem_cons, List.forall_mem_singleton]
    exact ⟨⟨pair.1, .key placed arePairs inside⟩, ⟨pair.2, .value placed arePairs inside⟩⟩

theorem PlacedIn.isLeaf_element {id : NodeId} {items : List Value}
    (placed : PlacedIn made root whole id (.set items)) : ∀ item ∈ items, IsLeaf item := by
  cases placed.seenAs seen with
  | leaf isLeaf => exact (sound id _ isLeaf).elim
  | set isSet => exact sound id _ isSet

/-- A mapping at the place of a node has the line at which the node starts under the key for its
line. -/
theorem PlacedIn.starts {id : NodeId} {entries : Entries}
    (placed : PlacedIn made root whole id (.map entries)) :
    ∃ line, document.StartsAt id line ∧ Keyed.get? entries (.text lineKey) = some (.int line) := by
  cases placed.seenAs seen with
  | leaf isLeaf => exact (sound id _ isLeaf).elim
  | map isMap _ _ =>
    obtain ⟨_, line, rfl, starts⟩ := sound id _ isMap
    exact ⟨line, starts, Keyed.get?_put_of_beq (Value.beq_text_iff.mpr rfl) _⟩

theorem PlacedIn.hasLeafKeys {id : NodeId} {entries : Entries}
    (placed : PlacedIn made root whole id (.map entries)) : HasLeafKeys entries := by
  cases placed.seenAs seen with
  | leaf isLeaf => exact (sound id _ isLeaf).elim
  | map isMap same _ =>
    obtain ⟨keys, line, rfl, -⟩ := sound id _ isMap
    exact (keys.of_keys same).put (show IsLeaf (.text lineKey) from trivial) _

theorem PlacedIn.exists_entry {id : NodeId} {entries : Entries}
    (placed : PlacedIn made root whole id (.map entries)) {entry : Value × Value}
    (member : entry ∈ entries)
    (apart : entry.1 ≠ .text lineKey) : ∃ child, PlacedIn made root whole child entry.2 := by
  have own := (placed.hasLeafKeys sound seen).proper.get?_of_mem member
  cases placed.seenAs seen with
  | leaf isLeaf => exact (sound id _ isLeaf).elim
  | map isMap keys each =>
    have ownToo := own
    rw [get?_withLine apart] at ownToo
    obtain ⟨child, node, -⟩ := exists_related_of_get? keys each ownToo
    exact ⟨child, .entry placed isMap node own apart⟩

/-- The keys of mappings and the items of sets are no mappings, and the rows of pairs are passed
through. -/
theorem IsOf.exists_placedIn {entries : Entries} {value : Value} (isOf : IsOf made root whole value)
    (part : IsPart (.map entries) value) : ∃ id, PlacedIn made root whole id (.map entries) := by
  induction part with
  | whole =>
    rcases isOf with placed | ⟨_, same, -⟩
    · exact placed
    · cases same
  | item member _ ih =>
    rcases isOf with ⟨id, placed⟩ | ⟨_, same, -⟩
    · exact ih (placed.isOf_item sound seen _ member)
    · cases same
  | member member _ ih =>
    rcases isOf with ⟨id, placed⟩ | ⟨_, same, each⟩
    · cases placed.seenAs seen with
      | leaf isLeaf => exact (sound id _ isLeaf).elim
    · obtain rfl := Value.tuple.inj same
      exact ih (.inl (each _ member))
  | element member inner _ =>
    rcases isOf with ⟨id, placed⟩ | ⟨_, same, -⟩
    · exact absurd inner (not_isPart_of_isLeaf (placed.isLeaf_element sound seen _ member))
    · cases same
  | key member inner _ =>
    rcases isOf with ⟨id, placed⟩ | ⟨_, same, -⟩
    · have leaf := (placed.hasLeafKeys sound seen).leaves _ (List.mem_map_of_mem member)
      exact absurd inner (not_isPart_of_isLeaf leaf)
    · cases same
  | @value others entry member inner ih =>
    rcases isOf with ⟨id, placed⟩ | ⟨_, same, -⟩
    · by_cases marker : entry.1 = .text lineKey
      · have own := (placed.hasLeafKeys sound seen).proper.get?_of_mem member
        obtain ⟨line, -, found⟩ := placed.starts sound seen
        rw [marker, found, Option.some.injEq] at own
        rw [← own] at inner
        cases inner
      · exact ih (.inl (placed.exists_entry sound seen member marker))
    · cases same

theorem exists_placedIn_of_isPart {entries : Entries} (part : IsPart (.map entries) whole) :
    ∃ id, PlacedIn made root whole id (.map entries) :=
  IsOf.exists_placedIn sound seen (.inl ⟨root, .root⟩) part

end Sound

end Places

/-! ## Loaded documents -/

/-- A value is what the root of a document is seen as. Each mapping in it stands at the place of a
node, and it has the line at which this node starts. -/
structure Document.IsLined (document : Document) (made : Array (Option Made))
    (value : Value) : Prop where
  seen : SeenAs made document.root value
  placed : ∀ entries, IsPart (.map entries) value →
    ∃ id, PlacedIn made document.root value id (.map entries)
  lines : ∀ id entries, PlacedIn made document.root value id (.map entries) →
    ∃ line, document.StartsAt id line ∧ Keyed.get? entries (.text lineKey) = some (.int line)

theorem documentValues_eq_ok {found : List Document} {failure : Option ReadFailure}
    {values : List Value} (read : documentValues true found failure = .ok values) :
    List.Forall₂ (fun document value => document.value true = .ok value) found values := by
  induction found generalizing values with
  | nil =>
    cases failure with
    | none =>
      obtain rfl := Except.ok.inj read
      exact .nil
    | some failure => cases read
  | cons document rest ih =>
    simp only [documentValues, bind_eq_ok, pure_eq_ok] at read
    obtain ⟨first, firstRead, others, othersRead, rfl⟩ := read
    exact .cons firstRead (ih othersRead)

/-- A content has a document with a value, and its nodes are made into what is given. -/
structure Reads (content : List UInt8) (document : Document) (value : Value)
    (made : Array (Option Made)) : Prop where
  listed : ∃ stream, decodeStream content = .ok stream ∧ document ∈ (documents stream).1
  read : document.value true = .ok value
  makes : document.made true = .ok made

/-- A value stands at the place of a node in a document of a content. -/
def Holds (content : List UInt8) (value : Value) : Prop :=
  ∃ document whole made id, Reads content document whole made ∧
    PlacedIn made document.root whole id value

/-- A mapping stands in a document of a content, at the place of a node that starts at a line. -/
def StartsIn (content : List UInt8) (line : Nat) (entries : Entries) : Prop :=
  ∃ document whole made id, Reads content document whole made ∧
    PlacedIn made document.root whole id (.map entries) ∧ document.StartsAt id line

section Holds
variable {content : List UInt8} {document : Document} {whole : Value} {made : Array (Option Made)}

theorem Reads.sound (reads : Reads content document whole made) : AllSound document made :=
  made_isSound reads.makes

theorem Reads.seen (reads : Reads content document whole made) : SeenAs made document.root whole :=
  value_seenAs reads.read reads.makes

theorem Reads.isLined (reads : Reads content document whole made) : document.IsLined made whole :=
  ⟨reads.seen, fun _ part => exists_placedIn_of_isPart reads.sound reads.seen part,
    fun _ _ placed => placed.starts reads.sound reads.seen⟩

theorem load_reads {values : List Value} (read : load content = .ok values) :
    ∃ stream, decodeStream content = .ok stream ∧
      List.Forall₂ (fun document value => ∃ made, Reads content document value made)
        (documents stream).1 values := by
  simp only [load, bind_eq_ok] at read
  obtain ⟨stream, decoded, read⟩ := read
  refine ⟨stream, decoded, ?_⟩
  have each := (List.forall₂_and_left ..).mpr ⟨fun _ inside => inside, documentValues_eq_ok read⟩
  refine each.imp fun document value ⟨inside, valueRead⟩ => ?_
  obtain ⟨made, makes⟩ := exists_made valueRead
  exact ⟨made, ⟨stream, decoded, inside⟩, valueRead, makes⟩

theorem load_holds {values : List Value} (read : load content = .ok values) :
    ∀ value ∈ values, Holds content value := by
  intro value member
  obtain ⟨stream, -, each⟩ := load_reads read
  obtain ⟨document, -, made, reads⟩ := exists_of_mem_forall₂ each member
  exact ⟨document, value, made, document.root, reads, .root⟩

variable {entries : Entries}

theorem Holds.starts (holds : Holds content (.map entries)) :
    ∃ line, StartsIn content line entries ∧
      Keyed.get? entries (.text lineKey) = some (.int line) := by
  obtain ⟨document, whole, made, id, reads, placed⟩ := holds
  obtain ⟨line, starts, marker⟩ := placed.starts reads.sound reads.seen
  exact ⟨line, ⟨document, whole, made, id, reads, placed, starts⟩, marker⟩

theorem Holds.hasLeafKeys (holds : Holds content (.map entries)) : HasLeafKeys entries := by
  obtain ⟨document, whole, made, id, reads, placed⟩ := holds
  exact placed.hasLeafKeys reads.sound reads.seen

theorem Holds.distinct (holds : Holds content (.map entries)) : Keyed.Distinct entries :=
  holds.hasLeafKeys.distinct

theorem Holds.entry (holds : Holds content (.map entries)) {entry : Value × Value}
    (member : entry ∈ entries) (inner : ¬ IsScalar entry.2) : Holds content entry.2 := by
  obtain ⟨line, -, marker⟩ := holds.starts
  have own := holds.hasLeafKeys.proper.get?_of_mem member
  obtain ⟨document, whole, made, id, reads, placed⟩ := holds
  have apart : entry.1 ≠ .text lineKey := by
    intro same
    rw [same, marker, Option.some.injEq] at own
    rw [← own] at inner
    exact inner trivial
  obtain ⟨child, there⟩ := placed.exists_entry reads.sound reads.seen member apart
  exact ⟨document, whole, made, child, reads, there⟩

theorem Holds.item {items : List Value} (holds : Holds content (.list items))
    (member : Value.map entries ∈ items) : Holds content (.map entries) := by
  obtain ⟨document, whole, made, id, reads, placed⟩ := holds
  rcases placed.isOf_item reads.sound reads.seen _ member with ⟨child, there⟩ | ⟨_, same, -⟩
  · exact ⟨document, whole, made, child, reads, there⟩
  · cases same

theorem holds_of_isPart {values : List Value} (read : load content = .ok values) {value : Value}
    (member : value ∈ values) (part : IsPart (.map entries) value) :
      Holds content (.map entries) := by
  obtain ⟨stream, -, each⟩ := load_reads read
  obtain ⟨document, -, made, reads⟩ := exists_of_mem_forall₂ each member
  obtain ⟨id, placed⟩ := reads.isLined.placed entries part
  exact ⟨document, value, made, id, reads, placed⟩

end Holds

end SupplyLint.Yaml
