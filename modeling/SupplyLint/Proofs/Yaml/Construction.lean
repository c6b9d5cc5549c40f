import SupplyLint.Proofs.Yaml.Steady

/-! # Making steady documents

Whatever has been made of a node is what it should be (`Builder.Builds`), in the
four ways into making a node and while collections wait to be filled. What can be
made with lines can be made without them (`exists_unmarked`): each step of it goes
on as long as the budget lasts, and the budget lasts because collections wait
instead of being filled inside others. -/
set_option autoImplicit false

namespace SupplyLint.Yaml

/-! ## States of building -/

def HasMade (made : Array (Option Made)) (id : NodeId) : Prop :=
  made.size ≤ id ∨ (made.getD id none).isSome = true

def Builder.unmade (builder : Builder) : Nat :=
  builder.made.toList.countP (·.isNone)

/-- How a document is made: with the lines of mappings or without. If it must not fail, then for the
nodes that are sought. -/
structure Plan where
  document : Document
  marked : Bool
  mustGo : Prop
  sought : NodeId → Prop

/-- What must not fail is to be made without lines, and whatever is sought can be made with all its
parts. -/
structure Plan.IsSound (plan : Plan) : Prop where
  steady : plan.document.IsSteady
  unmarked : plan.mustGo → plan.marked = false
  closed : plan.mustGo → ∀ id, plan.sought id →
    (∃ made, plan.document.Makes false id made) ∧ ∀ part, plan.document.Part id part →
      plan.sought part

/-- What holds while a document is made. Every node that has been made is what it should be, and its
parts have been made, save for those that wait to be filled or are just being filled. Each node that
waits has been made for the first time, so no more nodes come to wait than were unmade. -/
structure Builder.Builds (plan : Plan) (exempt : List NodeId) (limit : Nat)
    (known plained : NodeId → Prop)
    (builder : Builder) : Prop where
  nodes : plan.document.Follows (fun _ => none) plained builder.nodes
  size : builder.made.size = plan.document.nodes.size
  depth : builder.depth = plan.document.depth
  made : ∀ id made, builder.made.getD id none = some made →
    (plan.document.Makes plan.marked id made ∧ ∀ part, plan.document.Part id part →
      HasMade builder.made part) ∨
      made = .list [] ∧ (id ∈ exempt ∨ id ∈ builder.waiting) ∧
        (plan.document.node id).tag.isCollection = true
  known : ∀ id, known id → HasMade builder.made id
  waiting : ∀ id ∈ builder.waiting,
    (plan.document.node id).tag.isCollection = true ∧ (plan.mustGo → plan.sought id)
  limit : builder.unmade + builder.waiting.length ≤ limit

theorem countP_isNone_set (items : List (Option Made)) (place : Nat) (made : Made) :
    (items.set place (some made)).countP (·.isNone) +
      (items[place]?.getD (some made)).isNone.toNat = items.countP (·.isNone) := by
  induction items generalizing place with
  | nil => simp
  | cons item rest ih =>
    cases place with
    | zero => cases item <;> simp
    | succ place =>
      have later := ih place
      simp only [List.set_cons_succ, List.countP_cons, List.getElem?_cons_succ]
      omega

namespace Builder

section States
variable {plan : Plan} {exempt : List NodeId} {limit : Nat}
    {known plained : NodeId → Prop} {builder : Builder}

def withMade (builder : Builder) (id : NodeId) (made : Made) : Builder :=
  { builder with made := builder.made.set! id (some made) }

theorem getD_withMade_eq_some {id other : NodeId} {made found : Made}
    (is : (builder.withMade id made).made.getD other none = some found) :
    other = id ∧ found = made ∨ other ≠ id ∧ builder.made.getD other none = some found := by
  rw [withMade, Array.set!_eq_setIfInBounds, Array.getD_eq_getD_getElem?,
    Array.getElem?_setIfInBounds] at is
  by_cases same : other = id
  · subst same
    by_cases inside : other < builder.made.size
    · exact .inl ⟨rfl, by simpa [inside, eq_comm] using is⟩
    · simp [inside] at is
  · rw [if_neg (Ne.symm same), ← Array.getD_eq_getD_getElem?] at is
    exact .inr ⟨same, is⟩

theorem hasMade_withMade {other : NodeId} (has : HasMade builder.made other)
    (id : NodeId) (made : Made) :
    HasMade (builder.withMade id made).made other := by
  rcases has with outside | inside
  · exact .inl (by simpa [Builder.withMade] using outside)
  · refine .inr ?_
    rcases getD_set! builder.made id other (some made) none with ⟨-, new⟩ | old
    · exact new ▸ rfl
    · exact old ▸ inside

theorem has_withMade_self (builder : Builder) (id : NodeId) (made : Made) :
    HasMade (builder.withMade id made).made id := by
  by_cases inside : id < builder.made.size
  · exact .inr (by simp [withMade, Array.getD_eq_getD_getElem?, inside])
  · exact .inl (by simpa [withMade] using Nat.le_of_not_lt inside)

theorem unmade_withMade (builder : Builder) (id : NodeId) (made : Made) :
    (builder.withMade id made).unmade + (builder.made[id]?.getD (some made)).isNone.toNat =
      builder.unmade := by
  simpa [unmade, withMade] using countP_isNone_set builder.made.toList id made

theorem Builds.imp (builds : Builds plan exempt limit known plained builder) {fewer : NodeId → Prop}
    (implies : ∀ id, fewer id → known id) : Builds plan exempt limit fewer plained builder :=
  ⟨builds.nodes, builds.size, builds.depth, builds.made, fun id isKnown =>
    builds.known id (implies id isKnown), builds.waiting, builds.limit⟩

theorem Builds.forget {more : NodeId → Prop}
    (builds : Builds plan exempt limit known (fun id => plained id ∨ more id) builder) :
    Builds plan exempt limit known plained builder :=
  { builds with nodes := builds.nodes.imp fun _ plain => .inl plain }

theorem Builds.withMade (builds : Builds plan exempt limit known plained builder)
    {id : NodeId} {made : Made}
    (makes : plan.document.Makes plan.marked id made)
    (parts : ∀ part, plan.document.Part id part → HasMade builder.made part) {rest : List NodeId}
    (others : ∀ other ∈ exempt, other ≠ id → other ∈ rest) :
    Builds plan rest limit (fun other => known other ∨ other = id) plained
      (builder.withMade id made) where
  nodes := builds.nodes
  size := by simpa [Builder.withMade] using builds.size
  depth := builds.depth
  made other found is := by
    rcases getD_withMade_eq_some is with ⟨rfl, rfl⟩ | ⟨differs, old⟩
    · exact .inl ⟨makes, fun part isPart => hasMade_withMade (parts part isPart) _ _⟩
    · rcases builds.made other found old with ⟨makesToo, partsToo⟩ | ⟨empty, waits, collection⟩
      · exact .inl ⟨makesToo, fun part isPart => hasMade_withMade (partsToo part isPart) _ _⟩
      · exact .inr ⟨empty, waits.imp_left fun inside => others other inside differs, collection⟩
  known other isKnown := by
    rcases isKnown with old | rfl
    · exact hasMade_withMade (builds.known other old) _ _
    · exact builder.has_withMade_self _ _
  waiting := builds.waiting
  limit := by
    have counted := builder.unmade_withMade id made
    have bound := builds.limit
    simp only [Builder.unmade, Builder.withMade] at counted bound ⊢
    omega

theorem Builds.await (builds : Builds plan exempt limit known plained builder) {id : NodeId}
    (inside : id < plan.document.nodes.size) (new : builder.made.getD id none = none)
    (collection : (plan.document.node id).tag.isCollection = true)
    (sought : plan.mustGo → plan.sought id) :
    Builds plan exempt limit (fun other => known other ∨ other = id) plained
      { builder.withMade id (.list []) with waiting := id :: builder.waiting } where
  nodes := builds.nodes
  size := by simpa [Builder.withMade] using builds.size
  depth := builds.depth
  made other found is := by
    rcases getD_withMade_eq_some is with ⟨rfl, rfl⟩ | ⟨-, old⟩
    · exact .inr ⟨rfl, .inr List.mem_cons_self, collection⟩
    · rcases builds.made other found old with ⟨makesToo, partsToo⟩ | ⟨empty, waits, own⟩
      · exact .inl ⟨makesToo, fun part isPart => hasMade_withMade (partsToo part isPart) _ _⟩
      · exact .inr ⟨empty, waits.imp_right (List.mem_cons_of_mem _), own⟩
  known other isKnown := by
    rcases isKnown with old | rfl
    · exact hasMade_withMade (builds.known other old) _ _
    · exact builder.has_withMade_self _ _
  waiting other member := by
    rcases List.mem_cons.mp member with rfl | old
    · exact ⟨collection, sought⟩
    · exact builds.waiting other old
  limit := by
    have counted := builder.unmade_withMade id (.list [])
    have bound := builds.limit
    have isNew : builder.made[id]?.getD (some (.list [])) = none := by
      rw [← builds.size] at inside
      simpa [Array.getD_eq_getD_getElem?, inside] using new
    rw [isNew] at counted
    simp only [Builder.unmade, Builder.withMade, List.length_cons,
      Option.isNone_none, Bool.toNat_true]
      at counted bound ⊢
    omega

theorem Builds.release (builds : Builds plan [] limit known plained builder) :
    Builds plan builder.waiting.reverse (limit - builder.waiting.length) known plained
      { builder with waiting := [] } where
  nodes := builds.nodes
  size := builds.size
  depth := builds.depth
  made id made is := by
    rcases builds.made id made is with whole | ⟨empty, waits, collection⟩
    · exact .inl whole
    · refine .inr ⟨empty, .inl ?_, collection⟩
      simpa using waits
  known := builds.known
  waiting := nofun
  limit := by
    have bound := builds.limit
    simp only [Builder.unmade, List.length_nil] at bound ⊢
    omega

end States

end Builder

namespace Build

open Builder (Builds)

variable {plan : Plan} {budget : Nat}

/-- A step that must not fail is made at its time, outside all that is being made. -/
def MustGo (plan : Plan) (atOnce : Bool) (around : List NodeId) (least budget : Nat) : Prop :=
  plan.mustGo ∧ atOnce = false ∧ around = [] ∧ least ≤ budget

def MakesWell (plan : Plan) (budget : Nat) : Prop :=
  ∀ atOnce around id exempt limit known plained, (plan.mustGo → plan.sought id) →
    Goes (¬ (MustGo plan atOnce around 1 budget ∧
      ((plan.document.node id).tag = .value → plained id)))
      (Builds plan exempt limit known plained) (make plan.marked atOnce around budget id)
      fun _ => Builds plan exempt limit (fun other => known other ∨ other = id) plained

def FillsWell (plan : Plan) (budget : Nat) : Prop :=
  ∀ atOnce around id exempt limit known plained, (plan.mustGo → plan.sought id) →
    Goes (¬ (MustGo plan atOnce around 3 budget ∧ (plan.document.node id).tag.isCollection = true))
      (Builds plan exempt limit known plained) (fill plan.marked atOnce around budget id)
      fun made builder => plan.document.Makes plan.marked id made ∧
        Builds plan exempt limit (fun other => known other ∨ plan.document.Part id other)
          plained builder

theorem goes_setMade {mayFail : Prop} {exempt rest : List NodeId} {limit : Nat}
    {known plained : NodeId → Prop}
    {id : NodeId} {made : Made} (makes : plan.document.Makes plan.marked id made)
    (parts : ∀ part, plan.document.Part id part → known part)
    (others : ∀ other ∈ exempt, other ≠ id → other ∈ rest) :
    Goes mayFail (Builds plan exempt limit known plained) (setMade id made)
      fun _ => Builds plan rest limit (fun other => known other ∨ other = id) plained :=
  goes_modify fun _ builds => builds.withMade makes
    (fun part isPart => builds.known part (parts part isPart)) others

section Nodes
variable {mayFail : Prop} {around : List NodeId} {id : NodeId} {node : Node}
    {exempt : List NodeId} {limit : Nat}
  {known plained : NodeId → Prop}

theorem goes_collection (fills : FillsWell plan budget) {now : Bool} (fails : now = true → mayFail)
    (collection : node.tag.isCollection = true) (sought : plan.mustGo → plan.sought id) :
    Goes mayFail (fun builder => node = builder.nodes.getD id .empty ∧
      builder.made.getD id none = none ∧
        Builds plan exempt limit known plained builder)
      (if now = true then do
        setMade id (← fill plan.marked true (id :: around) budget id)
      else do
        setMade id (.list [])
        await id)
      fun _ => Builds plan exempt limit (fun other => known other ∨ other = id) plained := by
  cases now with
  | true =>
    rw [if_pos rfl]
    have filled := (fills true (id :: around) id exempt limit known plained sought).mono_fail
        fun _ => fails rfl
    refine (filled.mono_before fun _ start => start.2.2).bind fun made => goes_of fun makes => ?_
    refine (goes_setMade makes (fun part isPart => .inr isPart) fun _ inside _ => inside).mono_after
      fun _ builder builds => builds.imp ?_
    rintro other (old | rfl)
    · exact .inl (.inl old)
    · exact .inr rfl
  | false =>
    rintro builder ⟨rfl, isNew, builds⟩
    have own := (builds.nodes.hasTag id).eq_of_isCollection collection
    rw [own] at collection
    exact builds.await (Document.lt_size_of_isCollection collection) isNew collection sought

theorem goes_leaf (valid : plan.IsSound) (single : node.tag.isCollection = false)
    (sought : plan.mustGo → plan.sought id) :
    Goes (¬ (plan.mustGo ∧ ((plan.document.node id).tag = .value → plained id)))
      (fun builder => node = builder.nodes.getD id .empty ∧
        Builds plan exempt limit known plained builder)
      (do setMade id (.leaf (← leafOf (← get).nodes id)))
      fun _ => Builds plan exempt limit (fun other => known other ∨ other = id) plained := by
  refine goes_get.bind fun builder => ?_
  have reads : Goes (¬ (plan.mustGo ∧ ((plan.document.node id).tag = .value → plained id)))
      (fun state => builder = state ∧ node = state.nodes.getD id .empty ∧
        Builds plan exempt limit known plained state)
      (liftM (leafOf builder.nodes id) : Build Value)
      fun value state => plan.document.IsLeafOf id value ∧
        Builds plan exempt limit known plained state := by
    refine goes_lift ?_ ?_
    · rintro value read state ⟨rfl, -, builds⟩
      rw [builds.nodes.leafOf_eq valid.steady] at read
      exact ⟨⟨_, builds.nodes.hasTag id, read⟩, builds⟩
    · rintro failure failed state ⟨rfl, rfl, builds⟩ ⟨must, plain⟩
      obtain ⟨⟨made, makes⟩, -⟩ := valid.closed must id (sought must)
      obtain ⟨value, leaf⟩ := makes.leaf_of_single (builds.nodes.single id single)
      rw [builds.nodes.leafOf_eq_ok valid.steady leaf plain] at failed
      cases failed
  refine reads.bind fun value => goes_of fun leaf =>
    goes_setMade (.leaf leaf) ?_ fun _ inside _ => inside
  intro part isPart
  have collection := isPart.isCollection
  rw [leaf.not_isCollection] at collection
  cases collection

end Nodes

theorem makesWell_succ (valid : plan.IsSound) (fills : FillsWell plan budget) :
    MakesWell plan (budget + 1) := by
  intro atOnce around id exempt limit known plained sought
  rw [make]
  refine (goes_madeAt? id).bind fun found => ?_
  split
  · next isMade =>
    refine goes_pure ?_
    rintro builder ⟨rfl, builds⟩
    refine { builds with known := fun other isKnown => ?_ }
    rcases isKnown with old | rfl
    · exact builds.known other old
    · exact .inr isMade
  next isNew =>
  split
  · next inside =>
    refine goes_malformed fun _ _ => ?_
    rintro ⟨⟨-, -, rfl, -⟩, -⟩
    cases inside
  refine (goes_nodeAt id).bind fun node => ?_
  dsimp only
  split
  case h_6 noSeq noOmap noPairs noSet noMap =>
    have single : node.tag.isCollection = false := by
      cases same : node.tag <;> first | rfl | contradiction
    refine ((goes_leaf valid single sought).mono_fail ?_).mono_before fun _ start =>
      ⟨start.1, start.2.2⟩
    rintro stuck ⟨⟨must, -⟩, plain⟩
    exact stuck ⟨must, plain⟩
  all_goals
    next tag same =>
    refine (goes_collection fills (fun now => ?_) (by rw [same]; rfl) sought).mono_before ?_
    · -- what must not fail is not made at once
      rintro ⟨⟨must, rfl, -, -⟩, -⟩
      simp [valid.unmarked must] at now
    · rintro _ ⟨is, rfl, builds⟩
      exact ⟨is, by simpa using isNew, builds⟩

theorem known_of_concat {known : NodeId → Prop} {front : List (NodeId × NodeId)}
    {pair : NodeId × NodeId}
    {other : NodeId}
    (isKnown : known other ∨ ∃ entry ∈ front ++ [pair], other = entry.1 ∨ other = entry.2) :
    (known other ∨ ∃ entry ∈ front, other = entry.1 ∨ other = entry.2) ∨
      other = pair.1 ∨ other = pair.2 := by
  rcases isKnown with old | ⟨entry, member, either⟩
  · exact .inl (.inl old)
  · rcases List.mem_append.mp member with earlier | here
    · exact .inl (.inr ⟨entry, earlier, either⟩)
    · obtain rfl := List.mem_singleton.mp here
      exact .inr either

/-! ## Ordered mappings -/

theorem tag_ne_value (valid : plan.IsSound) (must : plan.mustGo) {id : NodeId}
    (sought : plan.sought id)
    (place : id = plan.document.root ∨ ∃ other, plan.document.IsIn id other) :
    (plan.document.node id).tag ≠ .value := by
  intro value
  obtain ⟨⟨made, makes⟩, -⟩ := valid.closed must id sought
  obtain ⟨leaf, tag, has, read⟩ := makes.leaf_of_single (by rw [value]; rfl)
  -- the kind `=` has no value of its own
  rcases has with rfl | ⟨-, -, isPlained⟩
  · have scalar := Document.isScalar_of_leafAs read
    rw [value] at scalar
    cases scalar
  · obtain ⟨notRoot, notIn⟩ := valid.steady.keys id value isPlained
    rcases place with root | ⟨other, isIn⟩
    · exact notRoot root
    · exact notIn other isIn

def IsRow (document : Document) (row : NodeId) : Prop :=
  ∀ entry ∈ (document.node row).entries,
    (document.node entry.1).tag ≠ .merge ∧ (document.node entry.1).tag ≠ .value

theorem entries_of_isRow {document : Document} {plained : NodeId → Prop} {nodes : Array Node}
    (follows : document.Follows (fun _ => none) plained nodes) {row : NodeId}
    (isRow : IsRow document row) :
    (nodes.getD row .empty).entries = (document.node row).entries := by
  obtain ⟨tag, entries, is, may⟩ := follows.each row
  cases own : document.node row with
  | scalar _ _ | sequence _ _ =>
    rw [is, own]
    rfl
  | mapping ownTag line written =>
    rw [IsRow, own] at isRow
    have none : ∀ entry ∈ written, document.isMerge entry = false := fun entry inside => by
      simpa [Document.isMerge] using (isRow entry inside).1
    rw [is, own]
    show entries = written
    rcases (show document.AtRest row entries from may.free rfl).cases own with same | ⟨flat, -, -⟩
    · exact same
    · cases flat with
      | cons isMapping takes more =>
        cases own.symm.trans isMapping
        rw [Document.takenBy_eq_nil none] at takes
        cases takes
        cases more
        simp [Document.own_eq_self none]

def PairsWell (plan : Plan) (budget : Nat) : Prop :=
  ∀ atOnce around row exempt limit known plained, IsRow plan.document row →
    (∀ pair, (plan.document.node row).entries = [pair] → plan.mustGo →
      plan.sought pair.1 ∧ plan.sought pair.2) →
    Goes (¬ (MustGo plan atOnce around 2 budget ∧
      ∃ pair, (plan.document.node row).entries = [pair]))
      (Builds plan exempt limit known plained) (makePair plan.marked atOnce around budget row)
      fun pair builder => (plan.document.node row).entries = [pair] ∧
        Builds plan exempt limit (fun other => known other ∨ other = pair.1 ∨ other = pair.2)
          plained builder

theorem pairsWell_succ (valid : plan.IsSound) (makes : MakesWell plan budget) :
    PairsWell plan (budget + 1) := by
  intro atOnce around row exempt limit known plained isRow sought
  rw [makePair]
  refine (goes_nodeAt row).bind fun node => ?_
  split
  · next tag line key value =>
    have single : ∀ builder : Builder,
        .mapping tag line [(key, value)] = builder.nodes.getD row .empty ∧
          Builds plan exempt limit known plained builder →
        (plan.document.node row).entries = [(key, value)] ∧
          Builds plan exempt limit known plained builder := by
      rintro builder ⟨is, builds⟩
      rw [← entries_of_isRow builds.nodes isRow, ← is]
      exact ⟨rfl, builds⟩
    refine goes_knowing single fun single => ?_
    have inside : (key, value) ∈ (plan.document.node row).entries := by
        rw [single]; exact List.mem_cons_self
    refine Goes.bind ((makes atOnce around key exempt limit known plained
      fun must => (sought _ single must).1).mono_fail ?_) fun _ => ?_
    · rintro stuck ⟨⟨must, now, top, enough⟩, -⟩
      exact stuck ⟨⟨must, now, top, by omega⟩, fun own => absurd own (isRow _ inside).2⟩
    refine Goes.bind ((makes atOnce around value exempt limit _ plained
      fun must => (sought _ single must).2).mono_fail ?_) fun _ =>
        goes_pure fun builder builds => ⟨single, builds.imp ?_⟩
    · rintro stuck ⟨⟨must, now, top, enough⟩, -⟩
      refine stuck ⟨⟨must, now, top, by omega⟩, fun own => absurd own ?_⟩
      exact tag_ne_value valid must (sought _ single must).2
        (.inr ⟨row, Document.isIn_of_mem inside⟩)
    rintro other (old | rfl | rfl)
    · exact .inl (.inl old)
    · exact .inl (.inr rfl)
    · exact .inr rfl
  · next noPair =>
    refine goes_malformed ?_
    rintro builder ⟨rfl, builds⟩ ⟨-, pair, single⟩
    rw [← entries_of_isRow builds.nodes isRow] at single
    cases is : builder.nodes.getD row .empty with
    | scalar _ _ | sequence _ _ =>
      rw [is] at single
      cases single
    | mapping tag line entries =>
      rw [is] at single
      obtain rfl : entries = [pair] := single
      exact noPair tag line pair.1 pair.2 is

/-! ## Mappings -/

theorem goes_flattened (valid : plan.IsSound) {id : NodeId}
    (flattened : plan.document.IsFlattened id)
    {exempt : List NodeId} {limit : Nat} {known plained : NodeId → Prop} :
    Goes (¬ ∃ entries, plan.document.Flat [id] entries) (Builds plan exempt limit known plained)
      (mergedEntries plan.document.depth id)
      fun entries builder => plan.document.Flat [id] entries ∧
        Builds plan exempt limit known (fun other => plained other ∨ other ∈ entries.map (·.1))
          builder := by
  intro builder builds
  have start : Over plan.document builder (fun _ => none) plained builder :=
      ⟨builder.nodes, rfl, builds.nodes⟩
  have goes := goes_mergedEntries valid.steady.acyclic flattened builder start
  revert goes
  cases (mergedEntries plan.document.depth id).run builder with
  | error failure => exact fun stuck => stuck
  | ok result =>
    obtain ⟨entries, later⟩ := result
    rintro ⟨flat, nodes, rfl, follows⟩
    exact ⟨flat, follows, builds.size, builds.depth, builds.made, builds.known,
      builds.waiting, builds.limit⟩

theorem goes_keyAt {id : NodeId} {exempt : List NodeId} {limit : Nat}
    {known plained : NodeId → Prop}
    (isKnown : known id) :
    Goes (¬ (id < plan.document.nodes.size ∧ ∃ value, plan.document.IsLeafOf id value))
      (Builds plan exempt limit known plained) (keyAt id)
      fun value builder => (id < plan.document.nodes.size ∧ plan.document.IsLeafOf id value) ∧
        Builds plan exempt limit known plained builder := by
  refine (goes_madeAt? id).bind fun found => ?_
  split
  · next value =>
    refine goes_pure ?_
    rintro builder ⟨is, builds⟩
    refine ⟨⟨?_, ?_⟩, builds⟩
    · by_contra outside
      rw [← builds.size] at outside
      simp [Array.getD_eq_getD_getElem?, outside] at is
    · rcases builds.made id _ is.symm with ⟨makes, -⟩ | ⟨empty, -⟩
      · cases makes with
        | leaf reads => exact reads
      · cases empty
  · next noLeaf =>
    refine goes_malformed ?_
    rintro builder ⟨rfl, builds⟩ ⟨inside, value, leaf⟩
    rcases builds.known id isKnown with outside | isMade
    · exact absurd inside (Nat.not_lt.mpr (builds.size ▸ outside))
    · obtain ⟨made, is⟩ := Option.isSome_iff_exists.mp isMade
      rcases builds.made id made is with ⟨makes, -⟩ | ⟨-, -, collection⟩
      · refine absurd (makes.isCollection_iff.mpr fun value same => noLeaf value (same ▸ is)) ?_
        simp [leaf.not_isCollection]
      · rw [leaf.not_isCollection] at collection
        cases collection

def EntriesWell (plan : Plan) (budget : Nat) : Prop :=
  ∀ atOnce around id exempt limit known plained tag line written,
    plan.document.node id = .mapping tag line written → tag = .map ∨ tag = .set →
    (plan.mustGo → plan.sought id) →
    Goes (¬ MustGo plan atOnce around 2 budget)
      (Builds plan exempt limit known plained) (makeEntries plan.marked atOnce around budget id)
      fun entries builder => (∃ flat keyed, plan.document.Flat [id] flat ∧
          plan.document.KeyedBy flat keyed ∧ entries = Keyed.ofPairs keyed) ∧
        Builds plan exempt limit (fun other => known other ∨ plan.document.Part id other)
          plained builder

theorem exists_keyed (valid : plan.IsSound) (must : plan.mustGo) {id : NodeId}
    (sought : plan.sought id)
    {tag : Tag} {line : Nat} {written : List (NodeId × NodeId)}
    (is : plan.document.node id = .mapping tag line written) (kind : tag = .map ∨ tag = .set) :
    ∃ flat keyed, plan.document.Flat [id] flat ∧ plan.document.KeyedBy flat keyed := by
  obtain ⟨⟨made, makes⟩, -⟩ := valid.closed must id sought
  cases makes with
  | leaf reads =>
    have single := reads.not_isCollection
    rw [is] at single
    rcases kind with rfl | rfl <;> cases single
  | list isToo | pairs isToo => cases is.symm.trans isToo
  | map _ flat keys | set _ flat keys => exact ⟨_, _, flat, keys⟩

theorem isLeafOf_of_mem_flat (valid : plan.IsSound) (must : plan.mustGo) {id : NodeId}
    (sought : plan.sought id)
    {tag : Tag} {line : Nat} {written flat : List (NodeId × NodeId)}
    (is : plan.document.node id = .mapping tag line written) (kind : tag = .map ∨ tag = .set)
    (isFlat : plan.document.Flat [id] flat) {entry : NodeId × NodeId} (inside : entry ∈ flat) :
    entry.1 < plan.document.nodes.size ∧ ∃ value, plan.document.IsLeafOf entry.1 value := by
  obtain ⟨flatToo, others, isFlatToo, keysToo⟩ := exists_keyed valid must sought is kind
  obtain rfl := isFlat.unique isFlatToo
  obtain ⟨other, -, isNode, leaf, -⟩ := exists_of_mem_forall₂ keysToo.flip inside
  exact ⟨isNode, _, leaf⟩

theorem goes_entry (valid : plan.IsSound) (makes : MakesWell plan budget) {atOnce : Bool}
    {around : List NodeId}
    {entry : NodeId × NodeId} {exempt : List NodeId} {limit : Nat} {known plained : NodeId → Prop}
    (plain : plained entry.1) (written : ∃ other, plan.document.IsIn entry.2 other)
    (sought : plan.mustGo → plan.sought entry.1 ∧ plan.sought entry.2)
    (isKey : plan.mustGo → entry.1 < plan.document.nodes.size ∧
      ∃ value, plan.document.IsLeafOf entry.1 value)
    (entries : Keyed Value NodeId) :
    Goes (¬ MustGo plan atOnce around 2 (budget + 1)) (Builds plan exempt limit known plained)
      (do
        make plan.marked atOnce around budget entry.1
        let key ← keyAt entry.1
        make plan.marked atOnce around budget entry.2
        return entries.put key entry.2)
      fun result builder =>
        (∃ key, entry.1 < plan.document.nodes.size ∧ plan.document.IsLeafOf entry.1 key ∧
          result = entries.put key entry.2) ∧
        Builds plan exempt limit
          (fun other => known other ∨ other = entry.1 ∨ other = entry.2) plained
          builder := by
  refine Goes.bind ((makes atOnce around entry.1 exempt limit known plained
    fun must => (sought must).1).mono_fail ?_) fun _ => ?_
  · rintro stuck ⟨must, now, top, enough⟩
    exact stuck ⟨⟨must, now, top, by omega⟩, fun _ => plain⟩
  refine Goes.bind ((goes_keyAt (.inr rfl)).mono_fail ?_) fun key => goes_of fun read => ?_
  · rintro stuck ⟨must, -⟩
    exact stuck (isKey must)
  refine Goes.bind ((makes atOnce around entry.2 exempt limit _ plained
    fun must => (sought must).2).mono_fail ?_) fun _ => goes_pure fun builder builds =>
      ⟨⟨key, read.1, read.2, rfl⟩, builds.imp ?_⟩
  · rintro stuck ⟨must, now, top, enough⟩
    refine stuck ⟨⟨must, now, top, by omega⟩, fun own => absurd own ?_⟩
    exact tag_ne_value valid must (sought must).2 (.inr written)
  rintro other (old | rfl | rfl)
  · exact .inl (.inl old)
  · exact .inl (.inr rfl)
  · exact .inr rfl

theorem entriesWell_succ (valid : plan.IsSound) (makes : MakesWell plan budget) :
    EntriesWell plan (budget + 1) := by
  intro atOnce around id exempt limit known plained tag line written is kind sought
  have flattened : plan.document.IsFlattened id := by
    rcases kind with rfl | rfl
    · exact .inl (by rw [is]; rfl)
    · exact .inr (.inl (by rw [is]; rfl))
  rw [makeEntries]
  refine goes_get.bind fun start => ?_
  have depth : ∀ builder, start = builder ∧ Builds plan exempt limit known plained builder →
      start.depth = plan.document.depth ∧ Builds plan exempt limit known plained builder := by
    rintro builder ⟨rfl, builds⟩
    exact ⟨builds.depth, builds⟩
  refine goes_knowing depth fun depth => ?_
  rw [depth]
  refine Goes.bind ((goes_flattened valid flattened).mono_fail ?_) fun flat =>
    goes_of fun isFlat => ?_
  · rintro none ⟨must, -⟩
    obtain ⟨flat, -, isFlat, -⟩ := exists_keyed valid must (sought must) is kind
    exact none ⟨flat, isFlat⟩
  -- from here on the keys of all these entries are plain, also of those that are not made yet
  refine Goes.mono_after (Goes.mono_before (goes_foldlM flat (fun front entries builder =>
    (∃ keyed, plan.document.KeyedBy front keyed ∧ entries = Keyed.ofPairs keyed) ∧
      Builds plan exempt limit (fun other => known other ∨
          ∃ entry ∈ front, other = entry.1 ∨ other = entry.2)
        (fun other => plained other ∨ other ∈ flat.map (·.1)) builder) ?_) ?_) ?_
  · rintro front entry rest entries same
    have inside : entry ∈ flat := by simp [same]
    have parts (must : plan.mustGo) {part : NodeId} (either : part = entry.1 ∨ part = entry.2) :
        plan.sought part :=
      (valid.closed must id (sought must)).2 _ (.entry is kind isFlat inside either)
    have isKey (must : plan.mustGo) := isLeafOf_of_mem_flat valid must
        (sought must) is kind isFlat inside
    obtain ⟨other, isWritten⟩ := isFlat.exists_written entry inside
    refine goes_of ?_
    rintro ⟨keyed, keys, rfl⟩
    refine (goes_entry valid makes (.inr (List.mem_map_of_mem inside))
      ⟨other, Document.isIn_of_mem isWritten⟩
        (fun must => ⟨parts must (.inl rfl), parts must (.inr rfl)⟩)
        isKey _).mono_after ?_
    rintro _ builder ⟨⟨key, isNode, leaf, rfl⟩, builds⟩
    refine ⟨⟨keyed ++ [(key, entry.2)], List.rel_append keys (.cons ⟨isNode, leaf, rfl⟩ .nil), ?_⟩,
      builds.imp fun _ => known_of_concat⟩
    simp [Keyed.ofPairs, Keyed.putAll]
  · intro builder builds
    refine ⟨⟨[], .nil, rfl⟩, builds.imp fun other isKnown => isKnown.resolve_right (by simp)⟩
  · rintro entries builder ⟨⟨keyed, keys, same⟩, builds⟩
    refine ⟨⟨flat, keyed, isFlat, keys, same⟩, (builds.imp ?_).forget⟩
    rintro other (old | isPart)
    · exact .inl old
    · exact .inr (isPart.exists_entry is isFlat)

/-! ## Collections -/

inductive IsFillable : Node → Prop
  | seq (items : List NodeId) : IsFillable (.sequence .seq items)
  | omap (items : List NodeId) : IsFillable (.sequence .omap items)
  | pairs (items : List NodeId) : IsFillable (.sequence .pairs items)
  | map (line : Nat) (entries : List (NodeId × NodeId)) : IsFillable (.mapping .map line entries)
  | set (line : Nat) (entries : List (NodeId × NodeId)) : IsFillable (.mapping .set line entries)

theorem isFillable_of_makes {document : Document} {plained : NodeId → Prop} {nodes : Array Node}
    (follows : document.Follows (fun _ => none) plained nodes) {id : NodeId} {made : Made}
    (makes : document.Makes false id made)
    (collection : (document.node id).tag.isCollection = true) :
    IsFillable (nodes.getD id .empty) := by
  obtain ⟨tag, entries, is, may⟩ := follows.each id
  obtain rfl : tag = (document.node id).tag := by
    rcases may.hasTag with same | ⟨own, -⟩
    · exact same
    · rw [own] at collection
      cases collection
  rw [is]
  cases makes with
  | leaf reads =>
    rw [reads.not_isCollection] at collection
    cases collection
  | list own =>
    rw [own]
    exact .seq _
  | pairs own kind _ =>
    rw [own]
    rcases kind with rfl | rfl
    · exact .omap _
    · exact .pairs _
  | map own _ _ =>
    rw [own]
    exact .map ..
  | set own _ _ =>
    rw [own]
    exact .set ..

theorem goes_items (valid : plan.IsSound) (makes : MakesWell plan budget) {atOnce : Bool}
    {around : List NodeId}
    {id : NodeId} {items : List NodeId} (is : plan.document.node id = .sequence .seq items)
    (sought : plan.mustGo → plan.sought id) {exempt : List NodeId} {limit : Nat}
    {known plained : NodeId → Prop} :
    Goes (¬ MustGo plan atOnce around 3 (budget + 1)) (Builds plan exempt limit known plained)
      (items.forM (make plan.marked atOnce around budget))
      fun _ => Builds plan exempt limit (fun other => known other ∨ plan.document.Part id other)
        plained := by
  refine ((goes_forM items (fun front => Builds plan exempt limit
    (fun other => known other ∨ other ∈ front) plained) ?_).mono_before ?_).mono_after ?_
  · intro front item rest same
    have isPart : plan.document.Part id item := .item is (by simp [same])
    have soughtItem (must : plan.mustGo) : plan.sought item :=
        (valid.closed must id (sought must)).2 item isPart
    refine ((makes atOnce around item exempt limit _ plained soughtItem).mono_fail ?_).mono_after ?_
    · rintro stuck ⟨must, now, top, enough⟩
      refine stuck ⟨⟨must, now, top, by omega⟩, fun own => absurd own ?_⟩
      refine tag_ne_value valid must (soughtItem must) (.inr ⟨id, ?_⟩)
      simp [Document.IsIn, is, same]
    · intro _ builder builds
      refine builds.imp fun other isKnown => ?_
      rwa [List.mem_append, List.mem_singleton, ← or_assoc] at isKnown
  · exact fun builder builds => builds.imp fun other isKnown => isKnown.resolve_right (by simp)
  · intro _ builder builds
    refine builds.imp ?_
    rintro other (old | isPart)
    · exact .inl old
    cases isPart with
    | item isToo member =>
      cases is.symm.trans isToo
      exact .inr member
    | pair isToo kind _ _ _ =>
      cases is.symm.trans isToo
      rcases kind with kind | kind <;> cases kind
    | entry isToo _ _ _ _ => cases is.symm.trans isToo

theorem exists_single_of_row (valid : plan.IsSound) (must : plan.mustGo) {id : NodeId}
    (sought : plan.sought id)
    {tag : Tag} {items : List NodeId} (is : plan.document.node id = .sequence tag items)
    (kind : tag = .omap ∨ tag = .pairs) {row : NodeId} (inside : row ∈ items) :
    ∃ pair, (plan.document.node row).entries = [pair] := by
  obtain ⟨⟨made, makes⟩, -⟩ := valid.closed must id sought
  cases makes with
  | leaf reads =>
    have single := reads.not_isCollection
    rw [is] at single
    rcases kind with rfl | rfl <;> cases single
  | list isToo =>
    cases is.symm.trans isToo
    rcases kind with kind | kind <;> cases kind
  | pairs isToo _ rows =>
    cases is.symm.trans isToo
    obtain ⟨pair, -, single⟩ := exists_of_mem_forall₂ rows.flip inside
    exact ⟨pair, single⟩
  | map isToo | set isToo => cases is.symm.trans isToo

theorem goes_pairs (valid : plan.IsSound) (pairs : PairsWell plan budget) {atOnce : Bool}
    {around : List NodeId}
    {id : NodeId} {tag : Tag} {items : List NodeId}
    (is : plan.document.node id = .sequence tag items)
    (kind : tag = .omap ∨ tag = .pairs) (sought : plan.mustGo → plan.sought id)
    {exempt : List NodeId} {limit : Nat} {known plained : NodeId → Prop} :
    Goes (¬ MustGo plan atOnce around 3 (budget + 1)) (Builds plan exempt limit known plained)
      (items.mapM (makePair plan.marked atOnce around budget))
      fun found builder => List.Forall₂ (fun row pair => (plan.document.node row).entries = [pair])
        items found ∧
        Builds plan exempt limit (fun other => known other ∨ plan.document.Part id other) plained
          builder := by
  -- Behind the walk through the rows both nodes of every pair are known.
  refine ((goes_mapM items (fun front found builder =>
    List.Forall₂ (fun row pair => (plan.document.node row).entries = [pair]) front found ∧
      Builds plan exempt limit
        (fun other => known other ∨ ∃ pair ∈ found, other = pair.1 ∨ other = pair.2)
        plained builder) ?_).mono_before ?_).mono_after ?_
  · intro front row rest found same
    have inside : row ∈ items := by simp [same]
    refine goes_of fun each => ?_
    refine ((pairs atOnce around row exempt limit _ plained
      (valid.steady.rows id tag items is kind row inside)
      ?_).mono_fail ?_).mono_after ?_
    · intro pair single must
      have parts := (valid.closed must id (sought must)).2
      exact ⟨parts _ (.pair is kind inside single (.inl rfl)),
        parts _ (.pair is kind inside single (.inr rfl))⟩
    · rintro stuck ⟨must, now, top, enough⟩
      exact stuck ⟨⟨must, now, top, by omega⟩, exists_single_of_row valid must
        (sought must) is kind inside⟩
    · rintro pair builder ⟨single, builds⟩
      exact ⟨List.rel_append each (.cons single .nil), builds.imp fun _ => known_of_concat⟩
  · intro builder builds
    exact ⟨.nil, builds.imp fun other isKnown => isKnown.resolve_right (by simp)⟩
  · rintro found builder ⟨each, builds⟩
    refine ⟨each, builds.imp ?_⟩
    rintro other (old | isPart)
    · exact .inl old
    cases isPart with
    | item isToo _ =>
      cases is.symm.trans isToo
      rcases kind with kind | kind <;> cases kind
    | pair isToo _ member single either =>
      cases is.symm.trans isToo
      obtain ⟨pair, inFound, singleToo⟩ := exists_of_mem_forall₂ each.flip member
      obtain rfl := List.singleton_injective (single.symm.trans singleToo)
      exact .inr ⟨_, inFound, either⟩
    | entry isToo _ _ _ _ => cases is.symm.trans isToo

section Fill
variable {atOnce : Bool} {around : List NodeId} {id : NodeId} {tag : Tag}
    {exempt : List NodeId} {limit : Nat}
  {known plained : NodeId → Prop}

theorem goes_unfillable (valid : plan.IsSound) (sought : plan.mustGo → plan.sought id) {node : Node}
    (noContents : ¬ IsFillable node) {after : Made → Builder → Prop} :
    Goes (¬ (MustGo plan atOnce around 3 (budget + 1) ∧
      (plan.document.node id).tag.isCollection = true))
      (fun builder => node = builder.nodes.getD id .empty ∧
        Builds plan exempt limit known plained builder)
      malformed after := by
  refine goes_malformed ?_
  rintro builder ⟨rfl, builds⟩ ⟨⟨must, -⟩, collection⟩
  obtain ⟨⟨made, makes⟩, -⟩ := valid.closed must id (sought must)
  exact noContents (isFillable_of_makes builds.nodes makes collection)

theorem goes_fillItems (valid : plan.IsSound) (makes : MakesWell plan budget) {items : List NodeId}
    (is : plan.document.node id = .sequence .seq items) (sought : plan.mustGo → plan.sought id) :
    Goes (¬ (MustGo plan atOnce around 3 (budget + 1) ∧
      (plan.document.node id).tag.isCollection = true))
      (Builds plan exempt limit known plained)
      (do
        items.forM (make plan.marked atOnce around budget)
        return .list items)
      fun made builder => plan.document.Makes plan.marked id made ∧
        Builds plan exempt limit (fun other => known other ∨ plan.document.Part id other) plained
          builder := by
  refine ((goes_items valid makes is sought).mono_fail fun stuck must => stuck must.1).bind fun _ =>
    ?_
  exact goes_pure fun builder builds => ⟨.list is, builds⟩

theorem goes_fillPairs (valid : plan.IsSound) (pairs : PairsWell plan budget) {items : List NodeId}
    (is : plan.document.node id = .sequence tag items) (kind : tag = .omap ∨ tag = .pairs)
    (sought : plan.mustGo → plan.sought id) :
    Goes (¬ (MustGo plan atOnce around 3 (budget + 1) ∧
      (plan.document.node id).tag.isCollection = true))
      (Builds plan exempt limit known plained)
      (return .pairs (← items.mapM (makePair plan.marked atOnce around budget)))
      fun made builder => plan.document.Makes plan.marked id made ∧
        Builds plan exempt limit (fun other => known other ∨ plan.document.Part id other) plained
          builder := by
  refine ((goes_pairs valid pairs is kind sought).mono_fail fun stuck must => stuck must.1).bind
    fun found => goes_of fun rows => ?_
  exact goes_pure fun builder builds => ⟨.pairs is kind rows, builds⟩

theorem goes_fillEntries (entries : EntriesWell plan budget) {line : Nat}
    {written : List (NodeId × NodeId)}
    (is : plan.document.node id = .mapping tag line written) (kind : tag = .map ∨ tag = .set)
    (sought : plan.mustGo → plan.sought id) :
    Goes (¬ (MustGo plan atOnce around 3 (budget + 1) ∧
      (plan.document.node id).tag.isCollection = true))
      (Builds plan exempt limit known plained) (makeEntries plan.marked atOnce around budget id)
      fun entries builder => (∃ flat keyed, plan.document.Flat [id] flat ∧
          plan.document.KeyedBy flat keyed ∧ entries = Keyed.ofPairs keyed) ∧
        Builds plan exempt limit (fun other => known other ∨ plan.document.Part id other) plained
          builder := by
  refine (entries atOnce around id exempt limit known plained tag line written is
    kind sought).mono_fail ?_
  rintro stuck ⟨⟨must, now, top, enough⟩, -⟩
  exact stuck ⟨must, now, top, by omega⟩

theorem is_sequence_of_builds {items : List NodeId} (collection : tag.isCollection = true)
    {builder : Builder} (now : .sequence tag items = builder.nodes.getD id .empty ∧
      Builds plan exempt limit known plained builder) :
    plan.document.node id = .sequence tag items ∧ Builds plan exempt limit known plained builder :=
  ⟨now.2.nodes.is_sequence now.1.symm collection, now.2⟩

theorem is_mapping_of_builds {line : Nat} {entries : List (NodeId × NodeId)}
    (collection : tag.isCollection = true) {builder : Builder}
    (now : .mapping tag line entries = builder.nodes.getD id .empty ∧
      Builds plan exempt limit known plained builder) :
    (∃ written, plan.document.node id = .mapping tag line written) ∧
      Builds plan exempt limit known plained builder :=
  ⟨now.2.nodes.is_mapping now.1.symm collection, now.2⟩

end Fill

theorem fillsWell_succ (valid : plan.IsSound) (makes : MakesWell plan budget)
    (pairs : PairsWell plan budget)
    (entries : EntriesWell plan budget) : FillsWell plan (budget + 1) := by
  intro atOnce around id exempt limit known plained sought
  rw [fill]
  refine (goes_nodeAt id).bind fun node => ?_
  split
  · refine goes_unfillable valid sought ?_
    rintro ⟨⟩
  · refine goes_knowing (fun _ => is_sequence_of_builds rfl) fun is => ?_
    exact goes_fillItems valid makes is sought
  · refine goes_knowing (fun _ => is_sequence_of_builds rfl) fun is => ?_
    exact goes_fillPairs valid pairs is (.inl rfl) sought
  · refine goes_knowing (fun _ => is_sequence_of_builds rfl) fun is => ?_
    exact goes_fillPairs valid pairs is (.inr rfl) sought
  · next noSeq noOmap noPairs =>
    refine goes_unfillable valid sought ?_
    rintro ⟨⟩
    · exact noSeq rfl
    · exact noOmap rfl
    · exact noPairs rfl
  · refine goes_knowing (fun _ => is_mapping_of_builds rfl) fun isMapping => ?_
    obtain ⟨written, is⟩ := isMapping
    refine (goes_fillEntries entries is (.inl rfl) sought).bind fun _ => goes_of ?_
    rintro ⟨flat, pairs, isFlat, keys, rfl⟩
    exact goes_pure fun builder builds => ⟨.map is isFlat keys, builds⟩
  · refine goes_knowing (fun _ => is_mapping_of_builds rfl) fun isMapping => ?_
    obtain ⟨written, is⟩ := isMapping
    refine (goes_fillEntries entries is (.inr rfl) sought).bind fun _ => goes_of ?_
    rintro ⟨flat, pairs, isFlat, keys, rfl⟩
    exact goes_pure fun builder builds => ⟨.set is isFlat keys, builds⟩
  · next noMap noSet =>
    refine goes_unfillable valid sought ?_
    rintro ⟨⟩
    · exact noMap rfl
    · exact noSet rfl

theorem goes_makes (valid : plan.IsSound) (budget : Nat) :
    MakesWell plan budget ∧ FillsWell plan budget ∧ PairsWell plan budget ∧
      EntriesWell plan budget := by
  induction budget with
  | zero =>
    refine ⟨?_, ?_, ?_, ?_⟩
    · intro atOnce around id exempt limit known plained _
      rw [make]
      refine goes_malformed fun _ _ => ?_
      rintro ⟨⟨-, -, -, least⟩, -⟩
      cases least
    · intro atOnce around id exempt limit known plained _
      rw [fill]
      refine goes_malformed fun _ _ => ?_
      rintro ⟨⟨-, -, -, least⟩, -⟩
      cases least
    · intro atOnce around row exempt limit known plained _ _
      rw [makePair]
      refine goes_malformed fun _ _ => ?_
      rintro ⟨⟨-, -, -, least⟩, -⟩
      cases least
    · intro atOnce around id exempt limit known plained tag line written _ _ _
      rw [makeEntries]
      refine goes_malformed fun _ _ => ?_
      rintro ⟨-, -, -, least⟩
      cases least
  | succ budget ih =>
    obtain ⟨makes, fills, pairs, entries⟩ := ih
    exact ⟨makesWell_succ valid fills, fillsWell_succ valid makes pairs entries,
      pairsWell_succ valid makes, entriesWell_succ valid makes⟩

/-- As many rounds as nodes have not been made or wait are enough: after each of them there are
fewer. -/
theorem goes_fillWaiting (valid : plan.IsSound) {known plained : NodeId → Prop} {rounds limit : Nat}
    (enough : limit ≤ rounds) :
    Goes (¬ plan.mustGo) (Builds plan [] limit known plained) (fillWaiting plan.marked rounds)
      fun _ builder => (∃ rest, Builds plan [] rest known plained builder) ∧
        builder.waiting = [] := by
  induction rounds generalizing limit with
  | zero =>
    refine goes_pure fun builder builds => ⟨⟨limit, builds⟩, ?_⟩
    have bound := builds.limit
    exact List.length_eq_zero_iff.mp (by omega)
  | succ rounds ih =>
    rw [fillWaiting]
    refine goes_get.bind fun builder => ?_
    split
    · next none =>
      refine goes_pure ?_
      rintro _ ⟨rfl, builds⟩
      exact ⟨⟨limit, builds⟩, List.isEmpty_iff.mp none⟩
    next some =>
    have start : ∀ state, builder = state ∧ Builds plan [] limit known plained state →
        Builds plan [] limit known plained builder ∧ True := by
      rintro _ ⟨rfl, builds⟩
      exact ⟨builds, trivial⟩
    refine goes_knowing start fun builds => ?_
    have shorter : limit - builder.waiting.length ≤ rounds := by
      have waits := List.length_pos_iff.mpr (mt List.isEmpty_iff.mpr some)
      omega
    -- what waited is exempt until it has been filled
    refine (goes_set builds.release).bind fun _ =>
      Goes.bind ((goes_forM builder.waiting.reverse (fun front =>
      Builds plan (builder.waiting.reverse.drop front.length)
        (limit - builder.waiting.length) known plained)
      ?_)) fun _ => ?_
    · intro front id rest same
      have inside : id ∈ builder.waiting := by
        rw [← List.mem_reverse, same]
        simp
      obtain ⟨collection, sought⟩ := builds.waiting id inside
      have left : builder.waiting.reverse.drop front.length = id :: rest := by
        rw [same, List.drop_left]
      have later : builder.waiting.reverse.drop (front ++ [id]).length = rest := by
        rw [same, List.append_cons front id rest, List.drop_left]
      rw [left, later]
      have filled := (goes_makes valid builder.depth).2.1 false [] id (id :: rest)
        (limit - builder.waiting.length) known plained sought
      refine (filled.mono_fail ?_).bind fun made => goes_of fun makes => ?_
      · intro stuck must
        refine stuck ⟨⟨must, rfl, rfl, ?_⟩, collection⟩
        rw [builds.depth, ← plan.document.room_add_three]
        exact Nat.le_add_left ..
      · refine (goes_setMade makes (fun part isPart => .inr isPart) fun other inside differs =>
          ?_).mono_after
          fun _ state builds => builds.imp fun other isKnown => .inl (.inl isKnown)
        exact (List.mem_cons.mp inside).resolve_left differs
    · rw [List.drop_length]
      exact ih shorter

theorem builds_start (plan : Plan) : Builds plan [] plan.document.nodes.size
    (fun _ => False) (fun _ => False)
    ⟨plan.document.nodes, Array.replicate plan.document.nodes.size none, [], plan.document.depth⟩
      where
  nodes := Document.follows_self
  size := by simp
  depth := rfl
  made id made is := by
    rw [Array.getD_eq_getD_getElem?, Array.getElem?_replicate] at is
    split at is <;> cases is
  known _ := False.elim
  waiting := nofun
  limit := by simp [Builder.unmade, List.countP_replicate]

end Build

/-! ## Whole documents -/

/-- All nodes of a document that have been made are what they should be, with their parts, and its
root is one of them. -/
structure Document.IsMade (document : Document) (marked : Bool) (made : Array (Option Made)) :
    Prop where
  size : made.size = document.nodes.size
  each : ∀ id found, made.getD id none = some found →
    document.Makes marked id found ∧ ∀ part, document.Part id part → HasMade made part
  root : HasMade made document.root

theorem made_of_plan {plan : Plan} (valid : plan.IsSound)
    (sought : plan.mustGo → plan.sought plan.document.root) :
    match plan.document.made plan.marked with
    | .ok made => plan.document.IsMade plan.marked made
    | .error _ => ¬ plan.mustGo := by
  have whole : Build.Goes (¬ plan.mustGo)
      (Builder.Builds plan [] plan.document.nodes.size (fun _ => False)
      fun _ => False) (do
        Build.make plan.marked false [] plan.document.depth plan.document.root
        Build.fillWaiting plan.marked (plan.document.nodes.size + 1)) fun _ builder =>
          (∃ rest, Builder.Builds plan [] rest (fun other => False ∨ other = plan.document.root)
            (fun _ => False)
            builder) ∧ builder.waiting = [] := by
    refine Build.Goes.bind
      (((Build.goes_makes valid plan.document.depth).1 false [] plan.document.root [] _ _ _
      sought).mono_fail ?_) fun _ => Build.goes_fillWaiting valid (Nat.le_succ _)
    intro stuck must
    refine stuck ⟨⟨must, rfl, rfl, ?_⟩, fun own => absurd own ?_⟩
    · have room := plan.document.room_add_three
      omega
    · exact Build.tag_ne_value valid must (sought must) (.inl rfl)
  have ends := whole _ (Build.builds_start plan)
  simp only [Document.made]
  revert ends
  cases StateT.run _ _ with
  | error failure => exact fun stuck => stuck
  | ok result =>
    rintro ⟨⟨_, builds⟩, settled⟩
    refine ⟨builds.size, fun id found is => ?_, builds.known _ (.inr rfl)⟩
    rcases builds.made id found is with whole | ⟨-, waits, -⟩
    · exact whole
    · simp [settled] at waits

theorem isMade_of_made {document : Document} (steady : document.IsSteady)
    {made : Array (Option Made)}
    (read : document.made true = .ok made) : document.IsMade true made := by
  let plan : Plan := ⟨document, true, False, fun _ => True⟩
  have valid : plan.IsSound := ⟨steady, False.elim, False.elim⟩
  have ends := made_of_plan valid False.elim
  rw [read] at ends
  exact ends

/-- Whatever can be made with lines can be made without them. -/
theorem exists_unmarked {document : Document} (steady : document.IsSteady)
    {made : Array (Option Made)}
    (isMade : document.IsMade true made) :
    ∃ others, document.made false = .ok others ∧ document.IsMade false others := by
  let plan : Plan := ⟨document, false, True, HasMade made⟩
  have valid : plan.IsSound := by
    refine ⟨steady, fun _ => rfl, fun _ id has => ?_⟩
    by_cases inside : id < document.nodes.size
    · obtain ⟨found, is⟩ := Option.isSome_iff_exists.mp
          (has.resolve_left (Nat.not_le.mpr (isMade.size ▸ inside)))
      obtain ⟨makes, parts⟩ := isMade.each id found is
      exact ⟨⟨_, makes.unmarked⟩, parts⟩
    · have empty : document.node id = .empty := by
        by_contra written
        exact inside (Document.lt_size_of_ne_empty written)
      refine ⟨⟨.leaf .null, .leaf ⟨.null, ?_, ?_⟩⟩, fun part isPart => ?_⟩
      · exact .inl (by rw [empty]; rfl)
      · have here : document.nodes.getD id .empty = .empty := empty
        rw [Document.leafAs, Build.contentOf, here, empty]
        rfl
      · exact absurd (Document.lt_size_of_isCollection isPart.isCollection) inside
  have ends := made_of_plan valid fun _ => isMade.root
  revert ends
  cases document.made false with
  | error _ => exact fun stuck => absurd trivial stuck
  | ok others => exact fun isMade => ⟨others, rfl, isMade⟩

theorem Document.IsMade.unlined_eq {document : Document} {first second : Array (Option Made)}
    (isMade : document.IsMade true first) (isMadeToo : document.IsMade false second) {id : NodeId}
    (has : HasMade first id) (hasToo : HasMade second id) :
    (first.getD id none).map Made.unlined = (second.getD id none).map Made.unlined := by
  have size : first.size = second.size := isMade.size.trans isMadeToo.size.symm
  by_cases inside : id < first.size
  · obtain ⟨found, is⟩ := Option.isSome_iff_exists.mp (has.resolve_left (Nat.not_le.mpr inside))
    obtain ⟨other, isToo⟩ := Option.isSome_iff_exists.mp
        (hasToo.resolve_left (Nat.not_le.mpr (size ▸ inside)))
    rw [is, isToo]
    exact congrArg some
      ((isMade.each id found is).1.unlined_unique (isMadeToo.each id other isToo).1)
  · simp [Array.getD_eq_getD_getElem?, Nat.le_of_not_lt inside, size ▸ Nat.le_of_not_lt inside]

end SupplyLint.Yaml
