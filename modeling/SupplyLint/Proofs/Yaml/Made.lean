import SupplyLint.Proofs.Keyed
import SupplyLint.Proofs.Outcome
import SupplyLint.Proofs.Value.Equality
import SupplyLint.Yaml.Construct

/-! # What the nodes of documents are made into

`made_isSound`: what is made of a mapping has each of its keys once, and the line
at which that mapping starts in the document. Merge keys move entries from one
mapping to another and leave the lines alone. -/
set_option autoImplicit false

namespace SupplyLint.Yaml

def Document.StartsAt (document : Document) (id : NodeId) (line : Nat) : Prop :=
  ∃ tag entries, document.nodes.getD id .empty = .mapping tag line entries

def IsScalar : Value → Prop
  | .list _ | .tuple _ | .set _ | .map _ => False
  | _ => True

/-- A value that a scalar can have. -/
def IsLeaf : Value → Prop
  | .list _ | .tuple _ | .set _ | .map _ | .enclosing _ => False
  | _ => True

theorem IsLeaf.beq_self {value : Value} (leaf : IsLeaf value) : (value == value) = true := by
  cases value with
  | null => rfl
  | text s => exact beq_self_eq_true s
  | bytes data => exact beq_self_eq_true data
  | day date => exact beq_self_eq_true date
  | moment time => exact Value.moment_refl time
  | bool b => exact Value.same_of_number? rfl rfl
  | int n => exact Value.same_of_number? rfl rfl
  | float x =>
    obtain ⟨n, number⟩ := Value.exists_number_of_float x
    exact Value.same_of_number? number number
  | list _ | tuple _ | set _ | map _ | enclosing _ => exact leaf.elim

/-- The keys are scalars, each of them once. -/
structure HasLeafKeys {α : Type} (entries : Keyed Value α) : Prop where
  distinct : Keyed.Distinct entries
  leaves : ∀ key ∈ entries.keys, IsLeaf key

/-- The nodes that the value of a made node is put together from. -/
def Made.children : Made → List NodeId
  | .leaf _ | .set _ => []
  | .list items => items
  | .pairs rows => rows.flatMap fun pair => [pair.1, pair.2]
  | .map _ entries => Keyed.values entries

/-- What is made of a scalar is one, the keys of mappings and the items of sets are scalars, and a
mapping has the line that it starts at. -/
def Made.IsSound (document : Document) (id : NodeId) : Made → Prop
  | .leaf value => IsLeaf value
  | .set items => ∀ item ∈ items, IsLeaf item
  | .map line entries =>
    HasLeafKeys entries ∧ ∃ start, line = some start ∧ document.StartsAt id start
  | _ => True

/-- What every node has been made into is sound. -/
def AllSound (document : Document) (values : Array (Option Made)) : Prop :=
  ∀ id made, values.getD id none = some made → made.IsSound document id

structure Builder.IsSound (document : Document) (builder : Builder) : Prop where
  nodes : ∀ id tag line entries, builder.nodes.getD id .empty = .mapping tag line entries →
    document.StartsAt id line
  made : AllSound document builder.made
  size : builder.made.size = document.nodes.size

theorem getD_set! {α : Type} (items : Array α) (set place : Nat) (item default : α) :
    place = set ∧ (items.set! set item).getD place default = item ∨
      (items.set! set item).getD place default = items.getD place default := by
  simp only [Array.set!_eq_setIfInBounds, Array.getD_eq_getD_getElem?, Array.getElem?_setIfInBounds]
  by_cases same : set = place
  · subst same
    by_cases inside : set < items.size
    · exact Or.inl ⟨rfl, by simp [inside]⟩
    · exact Or.inr (by simp [inside])
  · exact Or.inr (by simp [same])

/-! ## Scalars -/

section Keys
variable {α : Type} {entries : Keyed Value α}

theorem hasLeafKeys_nil : HasLeafKeys ([] : Keyed Value α) :=
  ⟨Keyed.distinct_nil, by simp⟩

theorem HasLeafKeys.put (keys : HasLeafKeys entries) {key : Value} (leaf : IsLeaf key) (value : α) :
    HasLeafKeys (entries.put key value) := by
  refine ⟨keys.distinct.put key value, fun other member => ?_⟩
  obtain ⟨entry, inside, rfl⟩ := List.mem_map.mp member
  rcases Keyed.key_of_mem_put inside with new | old
  · exact new ▸ leaf
  · exact keys.leaves _ old

theorem HasLeafKeys.of_keys {β : Type} {others : Keyed Value β} (keys : HasLeafKeys entries)
    (same : others.keys = entries.keys) : HasLeafKeys others := by
  refine ⟨?_, fun key member => keys.leaves key (same ▸ member)⟩
  rw [Keyed.distinct_iff_keys, same, ← Keyed.distinct_iff_keys]
  exact keys.distinct

theorem HasLeafKeys.proper (keys : HasLeafKeys entries) : Keyed.IsProper entries :=
  ⟨keys.distinct, fun key member => (keys.leaves key member).beq_self⟩

end Keys

section Scalar
variable {mark : Nat} {content : String} {value : Value}

theorem isLeaf_boolOf (read : boolOf content = .ok value) : IsLeaf value := by
  unfold boolOf at read
  dsimp only at read
  split at read
  · obtain rfl := Except.ok.inj read
    trivial
  · split at read
    · obtain rfl := Except.ok.inj read
      trivial
    · cases read

theorem isLeaf_intOf (read : intOf content = .ok value) : IsLeaf value := by
  simp only [intOf, bind_eq_ok, pure_eq_ok] at read
  obtain ⟨-, -, -, -, rfl⟩ := read
  trivial

theorem isLeaf_floatOf (read : floatOf mark content = .ok value) : IsLeaf value := by
  simp only [floatOf, bind_eq_ok] at read
  obtain ⟨_, _, read⟩ := read
  have isFloat {number : Reading Decimal.Binary64} {result : Decimal.Binary64 → Decimal.Binary64}
      (made : (number >>= fun found => pure (Value.float (result found))) = .ok value) :
      IsLeaf value := by
    simp only [bind_eq_ok, pure_eq_ok] at made
    obtain ⟨_, _, rfl⟩ := made
    trivial
  split at read
  · exact isFloat read
  · split at read
    · exact isFloat read
    · split at read
      · obtain ⟨_, _, read⟩ := bind_eq_ok.mp read
        obtain ⟨_, _, read⟩ := bind_eq_ok.mp read
        exact isFloat read
      · obtain ⟨_, _, read⟩ := bind_eq_ok.mp read
        exact isFloat read

theorem isLeaf_binaryOf (read : binaryOf content = .ok value) : IsLeaf value := by
  unfold binaryOf at read
  dsimp only at read
  split at read
  · split at read
    · obtain rfl := Except.ok.inj read
      trivial
    · cases read
  · cases read

theorem isLeaf_timestampOf (read : timestampOf content = .ok value) : IsLeaf value := by
  unfold timestampOf at read
  split at read
  · cases read
  · dsimp only at read
    split at read
    · obtain ⟨day, -, rfl⟩ := map_eq_ok.mp read
      trivial
    · obtain ⟨moment, -, rfl⟩ := map_eq_ok.mp read
      trivial

theorem isLeaf_scalarValue {tag : Tag} (read : scalarValue mark tag content = .ok value) :
    IsLeaf value := by
  cases tag with
  | null =>
    obtain rfl := Except.ok.inj read
    trivial
  | bool => exact isLeaf_boolOf read
  | int => exact isLeaf_intOf read
  | float => exact isLeaf_floatOf read
  | binary => exact isLeaf_binaryOf read
  | timestamp => exact isLeaf_timestampOf read
  | str =>
    obtain rfl := Except.ok.inj read
    trivial
  | _ => cases read

end Scalar

theorem isLeaf_leafOf {nodes : Array Node} {id : NodeId} {value : Value}
    (read : Build.leafOf nodes id = .ok value) : IsLeaf value := by
  unfold Build.leafOf at read
  dsimp only at read
  split at read
  · cases read
  · obtain ⟨content, -, read⟩ := bind_eq_ok.mp read
    split at read
    · cases read
    · exact isLeaf_scalarValue read

namespace Build

/-! ## Steps of building -/

/-- From a state with one property a step goes on to a result and a state with another one; it fails
only if it may. -/
def Goes {α : Type} (mayFail : Prop) (before : Builder → Prop) (step : Build α)
    (after : α → Builder → Prop) : Prop :=
  ∀ builder, before builder →
    match step.run builder with
    | .ok (result, later) => after result later
    | .error _ => mayFail

section Goes
variable {α β : Type} {mayFail : Prop} {before : Builder → Prop} {after : α → Builder → Prop}
  {ends : β → Builder → Prop}

theorem goes_pure {result : α} (given : ∀ builder, before builder → after result builder) :
    Goes mayFail before (pure result) after :=
  given

theorem Goes.bind {step : Build α} {next : α → Build β} (first : Goes mayFail before step after)
    (second : ∀ a, Goes mayFail (after a) (next a) ends) :
    Goes mayFail before (step >>= next) ends := by
  intro builder start
  have here := first builder start
  rw [StateT.run_bind]
  cases ran : step.run builder with
  | error failure =>
    rw [ran] at here
    exact here
  | ok between =>
    rw [ran] at here
    exact second between.1 between.2 here

theorem Goes.mono_fail {step : Build α} (goes : Goes mayFail before step after) {mayFailToo : Prop}
    (fails : mayFail → mayFailToo) : Goes mayFailToo before step after := by
  intro builder start
  have here := goes builder start
  revert here
  cases step.run builder with
  | error failure => exact fails
  | ok result => exact fun here => here

theorem Goes.mono_before {step : Build α} (goes : Goes mayFail before step after)
    {start : Builder → Prop}
    (weaker : ∀ builder, start builder → before builder) : Goes mayFail start step after :=
  fun builder started => goes builder (weaker builder started)

theorem Goes.mono_after {step : Build α} (goes : Goes mayFail before step after)
    {later : α → Builder → Prop} (implies : ∀ a builder, after a builder → later a builder) :
    Goes mayFail before step later := by
  intro builder start
  have here := goes builder start
  revert here
  cases step.run builder with
  | error failure => exact fun here => here
  | ok result => exact implies _ _

theorem goes_of {step : Build α} {fact : Prop} (goes : fact → Goes mayFail before step after) :
    Goes mayFail (fun builder => fact ∧ before builder) step after :=
  fun builder start => goes start.1 builder start.2

theorem goes_knowing {step : Build α} {fact : Prop} {less : Builder → Prop}
    (known : ∀ builder, before builder → fact ∧ less builder)
    (goes : fact → Goes mayFail less step after) :
    Goes mayFail before step after :=
  (goes_of goes).mono_before known

theorem goes_exists {γ : Type} {step : Build α} {start : γ → Builder → Prop}
    (goes : ∀ c, Goes mayFail (start c) step after) :
    Goes mayFail (fun builder => ∃ c, start c builder) step after :=
  fun builder ⟨c, begun⟩ => goes c builder begun

theorem goes_malformed (fails : ∀ builder, before builder → mayFail) :
    Goes mayFail before (malformed : Build α) after :=
  fails

theorem goes_lift {reading : Reading α}
    (found : ∀ a, reading = .ok a → ∀ builder, before builder → after a builder)
    (fails : ∀ failure, reading = .error failure → ∀ builder, before builder → mayFail) :
    Goes mayFail before (liftM reading : Build α) after := by
  intro builder start
  cases reading with
  | error failure => exact fails failure rfl builder start
  | ok a => exact found a rfl builder start

theorem goes_get : Goes mayFail before get
    (fun found builder => found = builder ∧ before builder) :=
  fun _ start => ⟨rfl, start⟩

theorem goes_nodeAt (id : NodeId) : Goes mayFail before (nodeAt id)
    fun node builder => node = builder.nodes.getD id .empty ∧ before builder :=
  fun _ start => ⟨rfl, start⟩

theorem goes_madeAt? (id : NodeId) : Goes mayFail before (madeAt? id)
    fun made builder => made = builder.made.getD id none ∧ before builder :=
  fun _ start => ⟨rfl, start⟩

theorem goes_modify {change : Builder → Builder} {after : Builder → Prop}
    (changes : ∀ builder, before builder → after (change builder)) :
    Goes mayFail before (modify change) fun _ => after :=
  changes

theorem goes_set {builder : Builder} {after : Builder → Prop} (given : after builder) :
    Goes mayFail before (set builder) fun _ => after :=
  fun _ _ => given

theorem goes_foldlM {step : β → α → Build β} (items : List α)
    (inv : List α → β → Builder → Prop) {start : β}
    (each : ∀ front item rest current, items = front ++ item :: rest →
      Goes mayFail (inv front current) (step current item) (inv (front ++ [item]))) :
    Goes mayFail (inv [] start) (items.foldlM step start) (inv items) := by
  suffices goes : ∀ rest front current, items = front ++ rest →
      Goes mayFail (inv front current) (rest.foldlM step current)
        (inv items) from goes items [] start rfl
  intro rest
  induction rest with
  | nil =>
    intro front current same
    rw [same, List.append_nil]
    exact goes_pure fun _ holds => holds
  | cons item rest ih =>
    intro front current same
    rw [List.foldlM_cons]
    exact (each front item rest current same).bind fun next =>
      ih (front ++ [item]) next (by simpa using same)

theorem goes_forM {step : α → Build PUnit} (items : List α) (inv : List α → Builder → Prop)
    (each : ∀ front item rest, items = front ++ item :: rest →
      Goes mayFail (inv front) (step item) fun _ => inv (front ++ [item])) :
    Goes mayFail (inv []) (items.forM step) fun _ => inv items := by
  suffices goes : ∀ rest front, items = front ++ rest →
      Goes mayFail (inv front) (rest.forM step) fun _ => inv items from goes items [] rfl
  intro rest
  induction rest with
  | nil =>
    intro front same
    rw [same, List.append_nil]
    exact goes_pure fun _ holds => holds
  | cons item rest ih =>
    intro front same
    exact (each front item rest same).bind fun _ => ih (front ++ [item]) (by simpa using same)

theorem goes_mapM {step : α → Build β} (items : List α) (inv : List α → List β → Builder → Prop)
    (each : ∀ front item rest results, items = front ++ item :: rest →
      Goes mayFail (inv front results) (step item) fun result => inv (front ++ [item])
        (results ++ [result])) :
    Goes mayFail (inv [] []) (items.mapM step) (inv items) := by
  suffices goes : ∀ rest front results, items = front ++ rest →
      Goes mayFail (inv front results) (rest.mapM step) fun more => inv items (results ++ more) from
    goes items [] [] rfl
  intro rest
  induction rest with
  | nil =>
    intro front results same
    rw [same, List.append_nil]
    exact goes_pure fun _ holds => by simpa using holds
  | cons item rest ih =>
    intro front results same
    rw [List.mapM_cons]
    refine (each front item rest results same).bind fun result =>
      (ih (front ++ [item]) (results ++ [result]) (by simpa using same)).bind fun more =>
        goes_pure fun _ holds => by simpa using holds

end Goes

/-- A step of building keeps everything sound, and what it gives has a property. -/
def Keeps (document : Document) {α : Type} (gives : α → Prop) (step : Build α) : Prop :=
  Goes True (Builder.IsSound document) step fun result builder =>
    gives result ∧ Builder.IsSound document builder

section Steps
variable {document : Document} {α β : Type} {gives : α → Prop} {later : β → Prop}

theorem keeps_pure {result : α} (given : gives result) : Keeps document gives (pure result) :=
  goes_pure fun _ sound => ⟨given, sound⟩

theorem Keeps.bind {step : Build α} {next : α → Build β} (first : Keeps document gives step)
    (second : ∀ a, gives a → Keeps document later (next a)) :
    Keeps document later (step >>= next) :=
  Goes.bind first fun a => goes_of (second a)

theorem keeps_malformed : Keeps document gives (malformed : Build α) :=
  goes_malformed fun _ _ => trivial

theorem keeps_lift {reading : Reading α} (given : ∀ a, reading = .ok a → gives a) :
    Keeps document gives (liftM reading : Build α) :=
  goes_lift (fun a found _ sound => ⟨given a found, sound⟩) fun _ _ _ _ => trivial

theorem keeps_get : Keeps document (Builder.IsSound document) get :=
  goes_get.mono_after fun _ _ ⟨same, sound⟩ => ⟨same ▸ sound, sound⟩

theorem keeps_modify {change : Builder → Builder}
    (kept : ∀ builder, Builder.IsSound document builder →
      Builder.IsSound document (change builder)) :
    Keeps document (fun _ => True) (modify change) :=
  goes_modify fun builder sound => ⟨trivial, kept builder sound⟩

theorem keeps_set {builder : Builder} (sound : Builder.IsSound document builder) :
    Keeps document (fun _ => True) (set builder) :=
  goes_set ⟨trivial, sound⟩

theorem keeps_mapM {step : α → Build β} (items : List α)
    (each : ∀ item ∈ items, Keeps document (fun _ => True) (step item)) :
    Keeps document (fun _ => True) (items.mapM step) := by
  refine (goes_mapM items (fun _ _ => Builder.IsSound document) ?_).mono_after fun _ _ sound =>
    ⟨trivial, sound⟩
  intro front item rest results same
  exact (each item (by simp [same])).mono_after fun _ _ kept => kept.2

theorem keeps_forM {step : α → Build PUnit} (items : List α)
    (each : ∀ item ∈ items, Keeps document (fun _ => True) (step item)) :
    Keeps document (fun _ => True) (items.forM step) := by
  refine (goes_forM items (fun _ => Builder.IsSound document) ?_).mono_after fun _ _ sound =>
    ⟨trivial, sound⟩
  intro front item rest same
  exact (each item (by simp [same])).mono_after fun _ _ kept => kept.2

theorem keeps_foldlM {step : β → α → Build β} (items : List α) {start : β} (given : later start)
    (each : ∀ current item, later current → Keeps document later (step current item)) :
    Keeps document later (items.foldlM step start) := by
  refine (goes_foldlM items
    (fun _ current builder => later current ∧ Builder.IsSound document builder)
    ?_).mono_before fun _ sound => ⟨given, sound⟩
  intro front item rest current _
  exact goes_of (each current item)

end Steps

/-! ## Nodes and merge keys -/

section Nodes
variable {document : Document}

theorem keeps_nodeAt (id : NodeId) :
    Keeps document (fun node => ∀ tag line entries, node = .mapping tag line entries →
      document.StartsAt id line) (nodeAt id) :=
  (goes_nodeAt id).mono_after fun _ _ ⟨same, sound⟩ =>
    ⟨fun tag line entries found => sound.nodes id tag line entries (same ▸ found), sound⟩

theorem keeps_setNode (id : NodeId) {node : Node}
    (starts : ∀ tag line entries, node = .mapping tag line entries → document.StartsAt id line) :
    Keeps document (fun _ => True) (setNode id node) := by
  refine keeps_modify fun builder sound => ⟨?_, sound.made, sound.size⟩
  intro other tag line entries found
  rcases getD_set! builder.nodes id other node .empty with ⟨rfl, new⟩ | old
  · exact starts tag line entries (new.symm.trans found)
  · exact sound.nodes other tag line entries (old.symm.trans found)

theorem keeps_entriesAt (id : NodeId) : Keeps document (fun _ => True) (entriesAt id) := by
  refine (keeps_nodeAt id).bind fun node _ => ?_
  split
  · exact keeps_pure trivial
  · exact keeps_pure trivial

theorem keeps_setEntries (id : NodeId) (entries : List (NodeId × NodeId)) :
    Keeps document (fun _ => True) (setEntries id entries) := by
  refine (keeps_nodeAt id).bind fun node starts => ?_
  split
  · refine keeps_setNode id ?_
    rintro tag line others ⟨⟩
    exact starts _ _ _ rfl
  · exact keeps_pure trivial

theorem keeps_plainKey (id : NodeId) : Keeps document (fun _ => True) (plainKey id) := by
  refine (keeps_nodeAt id).bind fun node starts => ?_
  split
  · exact keeps_setNode id fun tag line entries same => by cases same
  · exact keeps_setNode id fun tag line entries same => by cases same
  · refine keeps_setNode id ?_
    rintro tag line others ⟨⟩
    exact starts _ _ _ rfl
  · exact keeps_pure trivial

theorem keeps_withoutMerge? (entries : List (NodeId × NodeId)) :
    Keeps document (fun _ => True) (withoutMerge? entries) := by
  induction entries with
  | nil => exact keeps_pure trivial
  | cons entry rest ih =>
    obtain ⟨key, value⟩ := entry
    refine (keeps_nodeAt key).bind fun node _ => ?_
    split
    · exact keeps_pure trivial
    · refine ih.bind fun found _ => ?_
      split
      · exact keeps_pure trivial
      · exact keeps_pure trivial

theorem keeps_merges (budget : Nat) (id : NodeId) :
    Keeps document (fun _ => True) (takeMerges budget id) ∧
      Keeps document (fun _ => True) (broughtBy budget id) ∧
        Keeps document (fun _ => True) (mergedEntries budget id) := by
  induction budget generalizing id with
  | zero => exact ⟨keeps_malformed, keeps_malformed, keeps_malformed⟩
  | succ budget ih =>
    refine ⟨?_, ?_, ?_⟩
    · refine (keeps_entriesAt id).bind fun entries _ =>
        (keeps_withoutMerge? entries).bind fun found _ => ?_
      split
      · exact keeps_pure trivial
      · exact (keeps_setEntries id _).bind fun _ _ => (ih _).2.1.bind fun _ _ =>
          (ih id).1.bind fun _ _ => keeps_pure trivial
    · refine (keeps_nodeAt id).bind fun node _ => ?_
      split
      · exact (ih id).2.2
      · exact (keeps_mapM _ fun item _ => (ih item).2.2).bind fun _ _ => keeps_pure trivial
      · exact keeps_malformed
    · refine (keeps_nodeAt id).bind fun node _ => ?_
      split
      · exact (ih id).1.bind fun _ _ => (keeps_entriesAt id).bind fun own _ =>
          (keeps_forM own fun entry _ => keeps_plainKey entry.1).bind fun _ _ =>
            (keeps_setEntries id _).bind fun _ _ => keeps_entriesAt id
      · exact keeps_malformed

end Nodes

/-! ## Values -/

section Values
variable {document : Document}

theorem keeps_madeAt? (id : NodeId) :
    Keeps document (fun found => ∀ made, found = some made → made.IsSound document id)
      (madeAt? id) :=
  (goes_madeAt? id).mono_after fun _ _ ⟨same, sound⟩ =>
    ⟨fun made found => sound.made id made (same ▸ found), sound⟩

theorem keeps_setMade (id : NodeId) {made : Made} (own : made.IsSound document id) :
    Keeps document (fun _ => True) (setMade id made) := by
  refine keeps_modify fun builder sound => ⟨sound.nodes, ?_, by simp [sound.size]⟩
  intro other found same
  rcases getD_set! builder.made id other (some made) none with ⟨rfl, new⟩ | old
  · obtain rfl := Option.some.inj (new.symm.trans same)
    exact own
  · exact sound.made other found (old.symm.trans same)

theorem keeps_await (id : NodeId) : Keeps document (fun _ => True) (await id) :=
  keeps_modify fun _ sound => ⟨sound.nodes, sound.made, sound.size⟩

theorem keeps_keyAt (id : NodeId) : Keeps document IsLeaf (keyAt id) := by
  refine (keeps_madeAt? id).bind fun found own => ?_
  split
  · exact keeps_pure (own _ rfl)
  · exact keeps_malformed

/-! The four ways into making a node, all with the lines of mappings. Each step uses the others with
one step less. -/

section Steps
variable {budget : Nat} {around : List NodeId}

theorem keeps_collection (now : Bool) (id : NodeId)
    (fills : Keeps document (Made.IsSound document id) (fill true true (id :: around) budget id)) :
    Keeps document (fun _ => True) (if now = true then do
        setMade id (← fill true true (id :: around) budget id)
      else do
        setMade id (.list [])
        await id) := by
  split
  · exact fills.bind fun made sound => keeps_setMade id sound
  · have empty : (Made.list []).IsSound document id := trivial
    exact (keeps_setMade id empty).bind fun _ _ => keeps_await id

theorem keeps_make_succ (atOnce : Bool) (id : NodeId)
    (fills : Keeps document (Made.IsSound document id) (fill true true (id :: around) budget id)) :
    Keeps document (fun _ => True) (make true atOnce around (budget + 1) id) := by
  rw [make]
  refine (keeps_madeAt? id).bind fun found _ => ?_
  split
  · exact keeps_pure trivial
  · split
    · exact keeps_malformed
    · refine (keeps_nodeAt id).bind fun node _ => ?_
      dsimp only
      split
      case h_6 =>
        refine keeps_get.bind fun builder _ => ?_
        refine (keeps_lift fun value => isLeaf_leafOf).bind fun value scalar => ?_
        exact keeps_setMade id scalar
      all_goals exact keeps_collection _ id fills

variable {atOnce : Bool}

theorem keeps_fill_succ (id : NodeId)
    (makes : ∀ item, Keeps document (fun _ => True) (make true atOnce around budget item))
    (pairs : ∀ item, Keeps document (fun _ => True) (makePair true atOnce around budget item))
    (entries : Keeps document HasLeafKeys (makeEntries true atOnce around budget id)) :
    Keeps document (Made.IsSound document id) (fill true atOnce around (budget + 1) id) := by
  rw [fill]
  refine (keeps_nodeAt id).bind fun node starts => ?_
  split
  · exact keeps_malformed
  · exact (keeps_forM _ fun item _ => makes item).bind fun _ _ => keeps_pure trivial
  · exact (keeps_mapM _ fun item _ => pairs item).bind fun _ _ => keeps_pure trivial
  · exact (keeps_mapM _ fun item _ => pairs item).bind fun _ _ => keeps_pure trivial
  · exact keeps_malformed
  · refine entries.bind fun entries keys => keeps_pure ⟨keys, _, rfl, ?_⟩
    exact starts _ _ _ rfl
  · exact entries.bind fun _ keys => keeps_pure keys.leaves
  · exact keeps_malformed

theorem keeps_makePair_succ (id : NodeId)
    (makes : ∀ item, Keeps document (fun _ => True) (make true atOnce around budget item)) :
    Keeps document (fun _ => True) (makePair true atOnce around (budget + 1) id) := by
  rw [makePair]
  refine (keeps_nodeAt id).bind fun node _ => ?_
  split
  · exact (makes _).bind fun _ _ => (makes _).bind fun _ _ => keeps_pure trivial
  · exact keeps_malformed

theorem keeps_makeEntries_succ (id : NodeId)
    (makes : ∀ item, Keeps document (fun _ => True) (make true atOnce around budget item)) :
    Keeps document HasLeafKeys (makeEntries true atOnce around (budget + 1) id) := by
  rw [makeEntries]
  refine keeps_get.bind fun builder _ => (keeps_merges _ id).2.2.bind fun written _ => ?_
  refine keeps_foldlM written hasLeafKeys_nil fun entries entry keys => ?_
  exact (makes _).bind fun _ _ => (keeps_keyAt _).bind fun key leaf =>
    (makes _).bind fun _ _ => keeps_pure (keys.put leaf entry.2)

end Steps

theorem keeps_makes (budget : Nat) (atOnce : Bool) (around : List NodeId) (id : NodeId) :
    Keeps document (fun _ => True) (make true atOnce around budget id) ∧
      Keeps document (Made.IsSound document id) (fill true atOnce around budget id) ∧
      Keeps document (fun _ => True) (makePair true atOnce around budget id) ∧
      Keeps document HasLeafKeys (makeEntries true atOnce around budget id) := by
  induction budget generalizing atOnce around id with
  | zero =>
    rw [make, fill, makePair, makeEntries]
    exact ⟨keeps_malformed, keeps_malformed, keeps_malformed, keeps_malformed⟩
  | succ budget ih =>
    have makes (item : NodeId) := (ih atOnce around item).1
    have pairs (item : NodeId) := (ih atOnce around item).2.2.1
    have entries := (ih atOnce around id).2.2.2
    refine ⟨?_, ?_, ?_, ?_⟩
    · exact keeps_make_succ atOnce id (ih true (id :: around) id).2.1
    · exact keeps_fill_succ id makes pairs entries
    · exact keeps_makePair_succ id makes
    · exact keeps_makeEntries_succ id makes

theorem keeps_fillWaiting (rounds : Nat) :
    Keeps document (fun _ => True) (fillWaiting true rounds) := by
  induction rounds with
  | zero => exact keeps_pure trivial
  | succ rounds ih =>
    refine keeps_get.bind fun builder sound => ?_
    split
    · exact keeps_pure trivial
    · have emptied : Builder.IsSound document { builder with waiting := [] } :=
        ⟨sound.nodes, sound.made, sound.size⟩
      refine (keeps_set emptied).bind fun _ _ => ?_
      refine (keeps_forM _ fun id _ => ?_).bind fun _ _ => ih
      exact (keeps_makes _ _ _ id).2.1.bind fun made sound => keeps_setMade id sound

end Values

end Build

theorem isSound_of_made {document : Document} {values : Array (Option Made)}
    (read : document.made true = .ok values) :
    ∃ builder, Builder.IsSound document builder ∧ builder.made = values := by
  have start : Builder.IsSound document
      ⟨document.nodes, Array.replicate document.nodes.size none, [], document.depth⟩ := by
    refine ⟨fun id tag line entries found => ⟨tag, entries, found⟩,
      fun id made found => ?_, by simp⟩
    rw [Array.getD_eq_getD_getElem?, Array.getElem?_replicate] at found
    split at found <;> cases found
  simp only [Document.made, bind_eq_ok] at read
  obtain ⟨⟨_, done⟩, ran, made⟩ := read
  have root : Build.Keeps document (fun _ => True)
      (Build.make true false [] document.depth document.root) :=
    (Build.keeps_makes document.depth false [] document.root).1
  have all := root.bind fun _ _ => Build.keeps_fillWaiting (document.nodes.size + 1)
  have kept := all _ start
  rw [ran] at kept
  exact ⟨done, kept.2, Except.ok.inj made⟩

/-- Whatever a document's nodes are made into is sound. -/
theorem made_isSound {document : Document} {values : Array (Option Made)}
    (read : document.made true = .ok values) : AllSound document values := by
  obtain ⟨builder, sound, rfl⟩ := isSound_of_made read
  exact sound.made

theorem size_of_made {document : Document} {values : Array (Option Made)}
    (read : document.made true = .ok values) : values.size = document.nodes.size := by
  obtain ⟨builder, sound, rfl⟩ := isSound_of_made read
  exact sound.size

end SupplyLint.Yaml
