import Mathlib.Data.List.Find
import SupplyLint.Proofs.Yaml.Flattening

/-! # What the nodes of steady documents are made into

A node may be looked at before or after other mappings have changed the nodes.
In a steady document this makes no difference: its kind, its text and its entries
are read as they are written (`Follows.leafOf_eq`), and what it is made into is
said of the written document (`Document.Makes`), save for the line the same with
lines and without them (`Makes.unlined_unique`). -/
set_option autoImplicit false

namespace SupplyLint.Yaml

def Tag.isCollection (tag : Tag) : Bool :=
  [.seq, .omap, .pairs, .set, .map].contains tag

namespace Document

variable (document : Document)

/-- A node is an item of another one, or the value of an entry of it. -/
def IsIn (other id : NodeId) : Prop :=
  match document.node id with
  | .scalar _ _ => False
  | .sequence _ items => other ∈ items
  | .mapping _ _ entries => other ∈ entries.map (·.2)

/-- What is read as a text: a mapping of a scalar kind or of the kind `=`, and what stands under a
key `=` in what is read as a text. -/
inductive IsReadAsText : NodeId → Prop
  | own {id : NodeId} {tag : Tag} {line : Nat} {entries : List (NodeId × NodeId)}
      (is : document.node id = .mapping tag line entries)
      (kind : tag.isScalar = true ∨ tag = .value) :
      IsReadAsText id
  | inner {id : NodeId} {entry : NodeId × NodeId} (outer : IsReadAsText id)
      (member : entry ∈ (document.node id).entries) (value : (document.node entry.1).tag = .value) :
      IsReadAsText entry.2

/-- What a node is read as does not depend on which mappings have been looked at before: no mapping
takes itself over; what an ordered mapping lists has no merge key and no key `=`; a mapping that is
read as a text is not looked at as a mapping, nor are its keys `=` keys of such; and a key `=` of a
mapping that is looked at is nothing but a key. -/
structure IsSteady : Prop where
  acyclic : ∀ id, ¬ Relation.TransGen document.TakesOver id id
  rows : ∀ id tag items, document.node id = .sequence tag items → tag = .omap ∨ tag = .pairs →
    ∀ row ∈ items, ∀ entry ∈ (document.node row).entries,
      (document.node entry.1).tag ≠ .merge ∧ (document.node entry.1).tag ≠ .value
  texts : ∀ id tag line entries, document.IsReadAsText id →
    document.node id = .mapping tag line entries →
    ¬ document.IsFlattened id ∧
      ∀ entry ∈ entries, (document.node entry.1).tag = .value → ¬ document.IsPlained entry.1
  keys : ∀ key, (document.node key).tag = .value → document.IsPlained key →
    key ≠ document.root ∧ ∀ id, ¬ document.IsIn key id

variable {document}

theorem isIn_of_mem {id : NodeId} {entry : NodeId × NodeId}
    (member : entry ∈ (document.node id).entries) :
    document.IsIn entry.2 id := by
  unfold IsIn
  cases own : document.node id with
  | scalar _ _ | sequence _ _ =>
    rw [own] at member
    cases member
  | mapping _ _ entries =>
    rw [own] at member
    exact List.mem_map_of_mem member

theorem Flat.exists_written {ids : List NodeId} {entries : List (NodeId × NodeId)}
    (flat : document.Flat ids entries) : ∀ entry ∈ entries, ∃ id,
      entry ∈ (document.node id).entries := by
  induction flat with
  | nil => simp
  | @cons id _ tag line written _ _ isMapping _ _ brought others =>
    intro entry member
    rcases List.mem_append.mp member with front | later
    · rcases List.mem_append.mp front with taken | own
      · exact brought entry taken
      · exact ⟨id, by rw [isMapping]; exact (List.mem_filter.mp own).1⟩
    · exact others entry later

/-! ## Scalars -/

variable (document) in
def leafAs (id : NodeId) (tag : Tag) : Reading Value :=
  if tag.isScalar then do
    let content ← Build.contentOf document.nodes (document.nodes.size + 1) id
    match document.node id, tag with
    | .mapping _ _ _, .timestamp => refuse (.notSearchable "list")
    | _, _ => scalarValue (id + 1) tag content
  else .error .malformed

variable (document) in
def IsLeafOf (id : NodeId) (value : Value) : Prop :=
  ∃ tag, document.HasTag id tag ∧ document.leafAs id tag = .ok value

theorem isScalar_of_leafAs {id : NodeId} {tag : Tag} {value : Value}
    (read : document.leafAs id tag = .ok value) : tag.isScalar = true := by
  unfold leafAs at read
  split at read
  · assumption
  · cases read

theorem HasTag.unique {id : NodeId} {first second : Tag} (has : document.HasTag id first)
    (hasToo : document.HasTag id second) (scalar : first.isScalar = true)
    (scalarToo : second.isScalar = true) :
    first = second := by
  rcases has with rfl | ⟨own, rfl, -⟩ <;> rcases hasToo with rfl | ⟨ownToo, rfl, -⟩
  · rfl
  · rw [ownToo] at scalar
    cases scalar
  · rw [own] at scalarToo
    cases scalarToo
  · rfl

theorem IsLeafOf.unique {id : NodeId} {value other : Value} (leaf : document.IsLeafOf id value)
    (leafToo : document.IsLeafOf id other) : value = other := by
  obtain ⟨tag, has, read⟩ := leaf
  obtain ⟨tagToo, hasToo, readToo⟩ := leafToo
  obtain rfl := has.unique hasToo (isScalar_of_leafAs read) (isScalar_of_leafAs readToo)
  exact Except.ok.inj (read.symm.trans readToo)

theorem IsLeafOf.not_isCollection {id : NodeId} {value : Value}
    (leaf : document.IsLeafOf id value) :
    (document.node id).tag.isCollection = false := by
  obtain ⟨tag, has, read⟩ := leaf
  have scalar := isScalar_of_leafAs read
  rcases has with rfl | ⟨own, -⟩
  · revert scalar
    cases (document.node id).tag <;> decide
  · rw [own]
    rfl

section Follows
variable {plained : NodeId → Prop} {nodes : Array Node}

theorem Follows.value_iff (follows : document.Follows (fun _ => none) plained nodes) {id : NodeId}
    (notPlained : (document.node id).tag = .value → ¬ document.IsPlained id) :
    (nodes.getD id .empty).tag = .value ↔ (document.node id).tag = .value := by
  obtain ⟨tag, entries, is, may⟩ := follows.each id
  rw [is, Node.tag_become]
  rcases may.hasTag with rfl | ⟨own, -, isPlained⟩
  · rfl
  · exact absurd isPlained (notPlained own)

theorem Follows.contentOf_eq (follows : document.Follows (fun _ => none) plained nodes)
    {id : NodeId}
    (single : ∀ tag line entries, document.node id ≠ .mapping tag line entries) (budget : Nat) :
    Build.contentOf nodes budget id = Build.contentOf document.nodes budget id := by
  cases budget with
  | zero => rfl
  | succ budget =>
    obtain ⟨tag, entries, is, -⟩ := follows.each id
    cases own : document.node id with
    | mapping _ _ _ => exact absurd own (single _ _ _)
    | scalar _ _ | sequence _ _ =>
      have here : document.nodes.getD id .empty = _ := own
      rw [Build.contentOf, Build.contentOf, is, own, here]
      rfl

theorem Follows.contentOf_text (follows : document.Follows (fun _ => none) plained nodes)
    (steady : document.IsSteady) {id : NodeId} (text : document.IsReadAsText id) (budget : Nat) :
    Build.contentOf nodes budget id = Build.contentOf document.nodes budget id := by
  induction budget generalizing id with
  | zero => rfl
  | succ budget ih =>
    cases own : document.node id with
    | scalar _ _ | sequence _ _ => exact follows.contentOf_eq (by rw [own]; nofun) _
    | mapping ownTag line written =>
      obtain ⟨notFlattened, notPlained⟩ := steady.texts id ownTag line written text own
      obtain ⟨tag, entries, is, may⟩ := follows.each id
      obtain rfl : entries = written := by
        rcases may.free rfl with same | ⟨flattened, -⟩
        · rw [same, own]
          rfl
        · exact absurd flattened notFlattened
      have here : document.nodes.getD id .empty = .mapping ownTag line entries := own
      have sameKey : entries.find? (fun entry => (nodes.getD entry.1 .empty).tag = .value) =
          entries.find? fun entry => (document.nodes.getD entry.1 .empty).tag = .value :=
        List.find?_congr fun entry member => decide_eq_decide.mpr
          (follows.value_iff (notPlained entry member))
      rw [Build.contentOf, Build.contentOf, is, own, here, Node.become]
      dsimp only
      rw [sameKey]
      cases found : entries.find? fun entry =>
        (document.nodes.getD entry.1 .empty).tag = .value with
      | none => rfl
      | some entry =>
        have isValue := List.find?_some found
        exact ih (.inner text (by rw [own]; exact List.mem_of_find?_eq_some found)
          (of_decide_eq_true isValue))

/-- A node of a scalar kind has the same value whenever it is read. -/
theorem Follows.leafOf_eq (follows : document.Follows (fun _ => none) plained nodes)
    (steady : document.IsSteady) (id : NodeId) :
    Build.leafOf nodes id = document.leafAs id (nodes.getD id .empty).tag := by
  obtain ⟨tag, entries, is, may⟩ := follows.each id
  rw [Build.leafOf, leafAs, is, Node.tag_become]
  by_cases scalar : tag.isScalar = true
  · have content : Build.contentOf nodes (nodes.size + 1) id =
        Build.contentOf document.nodes (document.nodes.size + 1) id := by
      rw [follows.size]
      cases own : document.node id with
      | mapping ownTag line written =>
        refine follows.contentOf_text steady (.own own ?_) _
        rcases may.hasTag with rfl | ⟨value, -⟩
        · exact .inl (by rw [own] at scalar; exact scalar)
        · exact .inr (by rw [own] at value; exact value)
      | scalar _ _ => exact follows.contentOf_eq (by rw [own]; nofun) _
      | sequence _ _ => exact follows.contentOf_eq (by rw [own]; nofun) _
    rw [if_pos scalar, content]
    cases own : document.node id with
    | scalar _ _ | sequence _ _ => simp [scalar, Node.become]
    | mapping _ _ _ => cases tag <;> first | rfl | cases scalar
  · rw [if_neg scalar]
    simp [scalar]
    rfl

end Follows

/-! ## What a node is made into -/

def KeyedBy (document : Document) : List (NodeId × NodeId) → List (Value × NodeId) → Prop :=
  List.Forall₂ fun entry keyed =>
    entry.1 < document.nodes.size ∧ document.IsLeafOf entry.1 keyed.1 ∧ keyed.2 = entry.2

/-- What a node is made into, by what is written in the document. -/
inductive Makes (document : Document) (marked : Bool) (id : NodeId) : Made → Prop
  | leaf {value : Value} (reads : document.IsLeafOf id value) :
      Makes document marked id (.leaf value)
  | list {items : List NodeId} (is : document.node id = .sequence .seq items) :
      Makes document marked id (.list items)
  | pairs {tag : Tag} {items : List NodeId} {pairs : List (NodeId × NodeId)}
      (is : document.node id = .sequence tag items) (kind : tag = .omap ∨ tag = .pairs)
      (rows : List.Forall₂ (fun row pair => (document.node row).entries = [pair]) items pairs) :
      Makes document marked id (.pairs pairs)
  | map {line : Nat} {written entries : List (NodeId × NodeId)} {keyed : List (Value × NodeId)}
      (is : document.node id = .mapping .map line written) (flat : document.Flat [id] entries)
      (keys : document.KeyedBy entries keyed) :
      Makes document marked id (.map (if marked then some line else none) (Keyed.ofPairs keyed))
  | set {line : Nat} {written entries : List (NodeId × NodeId)} {keyed : List (Value × NodeId)}
      (is : document.node id = .mapping .set line written) (flat : document.Flat [id] entries)
      (keys : document.KeyedBy entries keyed) :
      Makes document marked id (.set (Keyed.keys (Keyed.ofPairs keyed)))

/-- The nodes that are made when a node is made, if it is a collection. -/
inductive Part (document : Document) (id : NodeId) : NodeId → Prop
  | item {items : List NodeId} (is : document.node id = .sequence .seq items) {item : NodeId}
      (member : item ∈ items) : Part document id item
  | pair {tag : Tag} {items : List NodeId} (is : document.node id = .sequence tag items)
      (kind : tag = .omap ∨ tag = .pairs) {row : NodeId} (member : row ∈ items)
      {pair : NodeId × NodeId}
      (single : (document.node row).entries = [pair]) {part : NodeId}
      (either : part = pair.1 ∨ part = pair.2) :
      Part document id part
  | entry {tag : Tag} {line : Nat} {written entries : List (NodeId × NodeId)}
      (is : document.node id = .mapping tag line written) (kind : tag = .map ∨ tag = .set)
      (flat : document.Flat [id] entries) {entry : NodeId × NodeId}
      (member : entry ∈ entries) {part : NodeId}
      (either : part = entry.1 ∨ part = entry.2) : Part document id part

theorem KeyedBy.unique {entries : List (NodeId × NodeId)} {first second : List (Value × NodeId)}
    (keyed : document.KeyedBy entries first) (keyedToo : document.KeyedBy entries second) :
    first = second := by
  induction keyed generalizing second with
  | nil =>
    cases keyedToo
    rfl
  | cons here _ ih =>
    cases keyedToo with
    | cons hereToo laterToo =>
      obtain ⟨-, leaf, value⟩ := here
      obtain ⟨-, leafToo, valueToo⟩ := hereToo
      rw [ih laterToo, Prod.ext (leaf.unique leafToo) (value.trans valueToo.symm)]

end Document

/-- What a node is made into, without the line. -/
def Made.unlined : Made → Made
  | .map _ entries => .map none entries
  | made => made

namespace Document

variable {document : Document}

theorem Makes.isCollection_iff {marked : Bool} {id : NodeId} {made : Made}
    (makes : document.Makes marked id made) :
    (document.node id).tag.isCollection = true ↔ ∀ value, made ≠ .leaf value := by
  cases makes with
  | leaf reads =>
    rw [reads.not_isCollection]
    simp
  | list is | map is _ _ | set is _ _ => simp [is, Node.tag, Tag.isCollection]
  | pairs is kind rows =>
    clear rows
    rcases kind with rfl | rfl <;> simp [is, Node.tag, Tag.isCollection]

theorem Makes.leaf_of_single {marked : Bool} {id : NodeId} {made : Made}
    (makes : document.Makes marked id made) (single : (document.node id).tag.isCollection = false) :
    ∃ value, document.IsLeafOf id value := by
  cases makes with
  | leaf reads => exact ⟨_, reads⟩
  | list is | map is _ _ | set is _ _ => simp [is, Node.tag, Tag.isCollection] at single
  | pairs is kind _ =>
    rcases kind with rfl | rfl <;> simp [is, Node.tag, Tag.isCollection] at single

theorem rows_unique {items : List NodeId} {first second : List (NodeId × NodeId)}
    (rows : List.Forall₂ (fun row pair => (document.node row).entries = [pair]) items first)
    (rowsToo : List.Forall₂ (fun row pair => (document.node row).entries = [pair]) items second) :
    first = second := by
  induction rows generalizing second with
  | nil =>
    cases rowsToo
    rfl
  | cons here _ ih =>
    cases rowsToo with
    | cons hereToo laterToo =>
      obtain rfl := List.singleton_injective (here.symm.trans hereToo)
      rw [ih laterToo]

/-- A node is made into one thing, save for the line. -/
theorem Makes.unlined_unique {marked other : Bool} {id : NodeId} {first second : Made}
    (makes : document.Makes marked id first) (makesToo : document.Makes other id second) :
    first.unlined = second.unlined := by
  have collection : (∀ value, first ≠ .leaf value) ↔ ∀ value, second ≠ .leaf value :=
    makes.isCollection_iff.symm.trans makesToo.isCollection_iff
  -- What is written at a node decides the shape of what it is made into.
  cases makes with
  | leaf reads =>
    obtain ⟨value, rfl⟩ : ∃ value, second = .leaf value := by
      by_contra none
      exact collection.mpr (fun value same => none ⟨value, same⟩) _ rfl
    cases makesToo with
    | leaf readsToo => rw [reads.unique readsToo]
  | list is =>
    cases makesToo with
    | leaf _ => exact absurd rfl (collection.mp nofun _)
    | list isToo =>
      cases is.symm.trans isToo
      rfl
    | pairs isToo kind =>
      cases is.symm.trans isToo
      rcases kind with kind | kind <;> cases kind
    | map isToo | set isToo => cases is.symm.trans isToo
  | pairs is kind rows =>
    cases makesToo with
    | leaf _ => exact absurd rfl (collection.mp nofun _)
    | list isToo =>
      cases is.symm.trans isToo
      rcases kind with kind | kind <;> cases kind
    | pairs isToo _ rowsToo =>
      cases is.symm.trans isToo
      rw [rows_unique rows rowsToo]
    | map isToo | set isToo => cases is.symm.trans isToo
  | map is flat keys =>
    cases makesToo with
    | leaf _ => exact absurd rfl (collection.mp nofun _)
    | map _ flatToo keysToo =>
      obtain rfl := flat.unique flatToo
      rw [keys.unique keysToo]
      rfl
    | list isToo | pairs isToo | set isToo => cases is.symm.trans isToo
  | set is flat keys =>
    cases makesToo with
    | leaf _ => exact absurd rfl (collection.mp nofun _)
    | set _ flatToo keysToo =>
      obtain rfl := flat.unique flatToo
      rw [keys.unique keysToo]
    | list isToo | pairs isToo | map isToo => cases is.symm.trans isToo

theorem Makes.unmarked {id : NodeId} {made : Made} (makes : document.Makes true id made) :
    document.Makes false id made.unlined := by
  cases makes with
  | leaf reads => exact .leaf reads
  | list is => exact .list is
  | pairs is kind rows => exact .pairs is kind rows
  | map is flat keys => exact .map is flat keys
  | set is flat keys => exact .set is flat keys

theorem Makes.part {marked : Bool} {id : NodeId} {made : Made}
    (makes : document.Makes marked id made) :
    ∀ child ∈ made.children, document.Part id child := by
  intro child member
  cases makes with
  | leaf _ | set _ _ _ => cases member
  | list is => exact .item is member
  | pairs is kind rows =>
    obtain ⟨pair, inside, either⟩ := List.mem_flatMap.mp member
    obtain ⟨row, rowInside, single⟩ := exists_of_mem_forall₂ rows inside
    exact .pair is kind rowInside single (by simpa using either)
  | map is flat keys =>
    obtain ⟨entry, inside, rfl⟩ := List.mem_map.mp member
    obtain ⟨keyed, inKeyed, same⟩ := Keyed.exists_of_mem_ofPairs inside
    obtain ⟨source, inEntries, -, -, value⟩ := exists_of_mem_forall₂ keys inKeyed
    exact .entry is (.inl rfl) flat inEntries (.inr (by rw [← value, same]))

/-! ## Nodes by now -/

theorem Part.isCollection {id part : NodeId} (isPart : document.Part id part) :
    (document.node id).tag.isCollection = true := by
  cases isPart with
  | item is _ => simp [is, Node.tag, Tag.isCollection]
  | pair is kind _ _ _ => rcases kind with rfl | rfl <;> simp [is, Node.tag, Tag.isCollection]
  | entry is kind _ _ _ => rcases kind with rfl | rfl <;> simp [is, Node.tag, Tag.isCollection]

theorem Part.exists_entry {id part : NodeId} (isPart : document.Part id part)
    {tag : Tag} {line : Nat}
    {written entries : List (NodeId × NodeId)} (is : document.node id = .mapping tag line written)
    (flat : document.Flat [id] entries) : ∃ entry ∈ entries, part = entry.1 ∨ part = entry.2 := by
  cases isPart with
  | item isToo | pair isToo => cases is.symm.trans isToo
  | entry _ _ flatToo member either =>
    obtain rfl := flat.unique flatToo
    exact ⟨_, member, either⟩

theorem HasTag.eq_of_isCollection {id : NodeId} {tag : Tag} (has : document.HasTag id tag)
    (collection : tag.isCollection = true) : tag = (document.node id).tag := by
  rcases has with same | ⟨-, rfl, -⟩
  · exact same
  · cases collection

theorem lt_size_of_isCollection {id : NodeId}
    (collection : (document.node id).tag.isCollection = true) :
    id < document.nodes.size :=
  lt_size_of_ne_empty fun empty => by
    rw [empty] at collection
    cases collection

section Follows
variable {plained : NodeId → Prop} {nodes : Array Node}

theorem Follows.hasTag (follows : document.Follows (fun _ => none) plained nodes) (id : NodeId) :
    document.HasTag id (nodes.getD id .empty).tag := by
  obtain ⟨tag, entries, is, may⟩ := follows.each id
  rw [is, Node.tag_become]
  exact may.hasTag

theorem Follows.single (follows : document.Follows (fun _ => none) plained nodes) (id : NodeId)
    (single : (nodes.getD id .empty).tag.isCollection = false) :
    (document.node id).tag.isCollection = false := by
  rcases follows.hasTag id with same | ⟨own, -⟩
  · rw [← same, single]
  · rw [own]
    rfl

theorem Follows.is_sequence (follows : document.Follows (fun _ => none) plained nodes)
    {id : NodeId} {tag : Tag}
    {items : List NodeId} (is : nodes.getD id .empty = .sequence tag items)
    (collection : tag.isCollection = true) :
    document.node id = .sequence tag items := by
  have has := follows.hasTag id
  rw [is] at has
  have same : tag = (document.node id).tag := has.eq_of_isCollection collection
  obtain ⟨_, _, become, -⟩ := follows.each id
  cases own : document.node id with
  | scalar _ _ | mapping _ _ _ =>
    rw [own, is] at become
    cases become
  | sequence _ _ =>
    rw [own, is] at become
    rw [own] at same
    cases become
    rw [same]
    rfl

theorem Follows.is_mapping (follows : document.Follows (fun _ => none) plained nodes)
    {id : NodeId} {tag : Tag}
    {line : Nat} {entries : List (NodeId × NodeId)}
    (is : nodes.getD id .empty = .mapping tag line entries)
    (collection : tag.isCollection = true) :
      ∃ written, document.node id = .mapping tag line written := by
  have has := follows.hasTag id
  rw [is] at has
  have same : tag = (document.node id).tag := has.eq_of_isCollection collection
  obtain ⟨_, _, become, -⟩ := follows.each id
  cases own : document.node id with
  | scalar _ _ | sequence _ _ =>
    rw [own, is] at become
    cases become
  | mapping _ _ written =>
    rw [own, is] at become
    rw [own] at same
    cases become
    exact ⟨written, by rw [same]; rfl⟩

theorem Follows.leafOf_eq_ok (follows : document.Follows (fun _ => none) plained nodes)
    (steady : document.IsSteady) {id : NodeId} {value : Value} (leaf : document.IsLeafOf id value)
    (plain : (document.node id).tag = .value → plained id) : Build.leafOf nodes id = .ok value := by
  obtain ⟨tag, has, read⟩ := leaf
  obtain ⟨now, entries, is, may⟩ := follows.each id
  rw [follows.leafOf_eq steady, is, Node.tag_become]
  suffices same : now = tag from same ▸ read
  rcases may.hasTag with rfl | ⟨own, rfl, isPlained⟩
  · rcases has with rfl | ⟨own, -, -⟩
    · rfl
    · exact absurd own (may.plain (plain own))
  · exact HasTag.unique (.inr ⟨own, rfl, isPlained⟩) has rfl (isScalar_of_leafAs read)

end Follows

end Document

end SupplyLint.Yaml
