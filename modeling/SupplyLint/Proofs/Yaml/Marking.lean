import SupplyLint.Proofs.Yaml.Construction
import SupplyLint.Proofs.Yaml.Lines

/-! # Loading with lines and without them

With lines, mappings are filled at once; without them, they wait. In a steady
document this cannot be seen: all entries but the lines are the same in both ways
(`loadPlain_of_load`), as the nodes are made into the same (`agreeAmong_of_isMade`)
and are seen alike (`goAlike_view`). In a document that is not steady a text may
be read before or after a mapping has changed it. -/
set_option autoImplicit false

namespace SupplyLint

open SupplyLint.Yaml (lineKey)

namespace Value

mutual

def unmarked : Value → Value
  | .list items => .list (unmarkedItems items)
  | .tuple items => .tuple (unmarkedItems items)
  | .set items => .set (unmarkedItems items)
  | .map entries => .map (unmarkedEntries entries)
  | value => value
termination_by structural x => x

def unmarkedItems : List Value → List Value
  | [] => []
  | item :: rest => unmarked item :: unmarkedItems rest
termination_by structural x => x

def unmarkedEntries : List (Value × Value) → List (Value × Value)
  | [] => []
  | entry :: rest => unmarkedEntry entry ++ unmarkedEntries rest
termination_by structural x => x

def unmarkedEntry : Value × Value → List (Value × Value)
  | (key, value) => if key == .text lineKey then [] else [(key, unmarked value)]
termination_by structural x => x

end

theorem unmarkedItems_eq (items : List Value) : unmarkedItems items = items.map unmarked := by
  induction items with
  | nil => rfl
  | cons item rest ih => rw [unmarkedItems, ih, List.map_cons]

@[simp] theorem unmarked_list (items : List Value) : unmarked (.list items) = .list
    (items.map unmarked) := by
  rw [unmarked, unmarkedItems_eq]

@[simp] theorem unmarked_tuple (items : List Value) :
    unmarked (.tuple items) = .tuple (items.map unmarked) := by
  rw [unmarked, unmarkedItems_eq]

/-- Two values are alike but for lines. -/
def ValuesAlike (value other : Value) : Prop :=
  value.unmarked = other.unmarked

/-- Entries are alike but for lines: with the same keys they have values that are alike. -/
def EntriesAlike : Entries → Entries → Prop :=
  List.Forall₂ fun entry other => entry.1 = other.1 ∧ ValuesAlike entry.2 other.2

theorem EntriesAlike.unmarked_eq {entries others : Entries} (alike : EntriesAlike entries others) :
    unmarkedEntries entries = unmarkedEntries others := by
  induction alike with
  | nil => rfl
  | cons here _ ih =>
    obtain ⟨key, value⟩ := here
    rw [unmarkedEntries, unmarkedEntries, ih, unmarkedEntry, unmarkedEntry, key, value]

theorem unmarkedEntries_put (entries : Entries) (line : Value) :
    unmarkedEntries (Keyed.put entries (.text lineKey) line) = unmarkedEntries entries := by
  induction entries with
  | nil => simp [Keyed.put, unmarkedEntries, unmarkedEntry, Value.beq_text_iff]
  | cons entry rest ih =>
    obtain ⟨key, value⟩ := entry
    by_cases same : key == Value.text lineKey
    · simp [Keyed.put, unmarkedEntries, unmarkedEntry, same]
    · simp [Keyed.put, unmarkedEntries, same, ih]

theorem unmarkedEntries_withLine (line : Option Nat) (entries : Entries) :
    unmarkedEntries (Yaml.withLine line entries) = unmarkedEntries entries := by
  cases line with
  | none => rfl
  | some line => exact unmarkedEntries_put entries _

theorem EntriesAlike.withLine {entries others : Entries} (alike : EntriesAlike entries others)
    (line lineToo : Option Nat) :
    ValuesAlike (.map (Yaml.withLine line entries)) (.map (Yaml.withLine lineToo others)) := by
  show Value.map _ = Value.map _
  rw [unmarkedEntries_withLine, unmarkedEntries_withLine, alike.unmarked_eq]

end Value

namespace Yaml

open SupplyLint.Value (unmarked ValuesAlike EntriesAlike)

/-! ## Seeing nodes that are made alike -/

/-- Two ways in which nodes are made differ in lines only, for some nodes and what they are put
together from. -/
structure AgreeAmong (among : NodeId → Prop) (first second : Array (Option Made)) : Prop where
  same : ∀ id, among id → (first.getD id none).map Made.unlined =
    (second.getD id none).map Made.unlined
  closed : ∀ id found, among id → first.getD id none = some found →
    ∀ child ∈ found.children, among child

def unmarkedSeen (seen : Array (Option Value)) : Array (Option Value) :=
  seen.map (Option.map unmarked)

/-- From what has been seen alike, two steps go on to related results and to what has been seen
alike. -/
def GoAlike {α β : Type} (relates : α → β → Prop) (step : Seen α) (other : Seen β) : Prop :=
  ∀ seen seenToo, unmarkedSeen seen = unmarkedSeen seenToo →
    relates (step.run seen).1 (other.run seenToo).1 ∧
      unmarkedSeen (step.run seen).2 = unmarkedSeen (other.run seenToo).2

section Steps
variable {α β γ δ : Type} {relates : α → β → Prop} {later : γ → δ → Prop}

theorem goAlike_pure {result : α} {other : β} (related : relates result other) :
    GoAlike relates (pure result) (pure other) :=
  fun _ _ same => ⟨related, same⟩

theorem GoAlike.bind {step : Seen α} {other : Seen β} {next : α → Seen γ} {nextToo : β → Seen δ}
    (first : GoAlike relates step other)
    (second : ∀ a b, relates a b → GoAlike later (next a) (nextToo b)) :
    GoAlike later (step >>= next) (other >>= nextToo) := by
  intro seen seenToo same
  obtain ⟨related, sameAfter⟩ := first seen seenToo same
  exact second _ _ related _ _ sameAfter

theorem goAlike_get :
    GoAlike (fun seen seenToo => unmarkedSeen seen = unmarkedSeen seenToo) get get :=
  fun _ _ same => ⟨same, same⟩

theorem goAlike_set (id : NodeId) {value other : Value} (same : value.unmarked = other.unmarked) :
    GoAlike (fun _ _ => True) (modify fun values => values.set! id (some value))
      (modify fun values => values.set! id (some other)) := by
  intro seen seenToo alike
  refine ⟨trivial, ?_⟩
  show unmarkedSeen (seen.set! id (some value)) = unmarkedSeen (seenToo.set! id (some other))
  simp only [unmarkedSeen] at alike
  simp [unmarkedSeen, Array.set!_eq_setIfInBounds, Array.map_setIfInBounds, alike, same]

theorem goAlike_mapM {step : γ → Seen α} {other : γ → Seen β} (items : List γ)
    (each : ∀ item ∈ items, GoAlike relates (step item) (other item)) :
    GoAlike (List.Forall₂ relates) (items.mapM step) (items.mapM other) := by
  induction items with
  | nil => exact goAlike_pure .nil
  | cons item rest ih =>
    rw [List.forall_mem_cons] at each
    rw [List.mapM_cons, List.mapM_cons]
    exact each.1.bind fun _ _ here => (ih each.2).bind fun _ _ there =>
      goAlike_pure (.cons here there)

theorem GoAlike.result {step : Seen α} {other : Seen β} (alike : GoAlike relates step other)
    (seen : Array (Option Value)) : relates (step.run seen).run.1 (other.run seen).run.1 :=
  (alike seen seen rfl).1

end Steps

theorem getD_unmarkedSeen {seen seenToo : Array (Option Value)}
    (same : unmarkedSeen seen = unmarkedSeen seenToo)
    (id : NodeId) : (seen.getD id none).map unmarked = (seenToo.getD id none).map unmarked := by
  have getD_map (values : Array (Option Value)) :
      (values.getD id none).map unmarked = (unmarkedSeen values).getD id none := by
    simp only [unmarkedSeen, Array.getD_eq_getD_getElem?, Array.getElem?_map]
    cases values[id]? <;> rfl
  rw [getD_map, getD_map, same]

theorem seen_cases {seen seenToo : Array (Option Value)}
    (same : unmarkedSeen seen = unmarkedSeen seenToo)
    (id : NodeId) :
    (∃ value other, seen.getD id none = some value ∧ seenToo.getD id none = some other ∧
        value.unmarked = other.unmarked) ∨
      seen.getD id none = none ∧ seenToo.getD id none = none := by
  have here := getD_unmarkedSeen same id
  revert here
  cases seen.getD id none <;> cases seenToo.getD id none <;> simp

def ViewsAlike (view other : View) : Prop :=
  ValuesAlike view.1 other.1 ∧ view.2 = other.2

theorem viewsAlike_collect {join : List Value → Value}
    (joins : ∀ values, (join values).unmarked = join (values.map unmarked))
    {views others : List View}
    (each : List.Forall₂ ViewsAlike views others) :
    ViewsAlike (View.collect views join) (View.collect others join) := by
  have values : (views.map (·.1)).map unmarked = (others.map (·.1)).map unmarked := by
    induction each with
    | nil => rfl
    | cons here _ ih =>
      obtain ⟨same, -⟩ := here
      rw [ValuesAlike] at same
      simp only [List.map_cons, same, ih]
  have whole : views.all (·.2) = others.all (·.2) := by
    clear values
    induction each with
    | nil => rfl
    | cons here _ ih => simp only [List.all_cons, here.2, ih]
  refine ⟨?_, whole⟩
  show (join _).unmarked = (join _).unmarked
  rw [joins, joins, values]

def EntryViewsAlike (view other : (Value × Value) × Bool) : Prop :=
  view.1.1 = other.1.1 ∧ ValuesAlike view.1.2 other.1.2 ∧ view.2 = other.2

theorem viewsAlike_map {views others : List ((Value × Value) × Bool)}
    (each : List.Forall₂ EntryViewsAlike views others) (line lineToo : Option Nat) :
    ViewsAlike (.map (withLine line (views.map (·.1))), views.all (·.2))
      (.map (withLine lineToo (others.map (·.1))), others.all (·.2)) := by
  have entries : EntriesAlike (views.map (·.1)) (others.map (·.1)) := by
    rw [EntriesAlike, List.forall₂_map_left_iff, List.forall₂_map_right_iff]
    exact each.imp fun _ _ alike => ⟨alike.1, alike.2.1⟩
  refine ⟨entries.withLine line lineToo, ?_⟩
  clear entries
  induction each with
  | nil => rfl
  | cons here _ ih =>
    dsimp only at ih
    simp only [List.all_cons, here.2.2, ih]

/-- For a node of these, what it is made into is the same both ways, or it is a mapping with the
same entries. -/
theorem AgreeAmong.cases {among : NodeId → Prop} {first second : Array (Option Made)}
    (agree : AgreeAmong among first second) {id : NodeId} (inside : among id) :
    (second.getD id none = first.getD id none ∧
      ∀ line entries, first.getD id none ≠ some (.map line entries)) ∨
      ∃ line lineToo entries, first.getD id none = some (.map line entries) ∧
        second.getD id none = some (.map lineToo entries) := by
  have same := agree.same id inside
  revert same
  cases first.getD id none with
  | none => cases second.getD id none <;> simp
  | some one =>
    cases second.getD id none with
    | none => simp
    | some other => cases one <;> cases other <;> simp +contextual [Made.unlined]

/-- What has been seen of a node is kept if nothing in it is met again inside itself, in both ways
or in neither. -/
theorem GoAlike.finish {step other : Seen View} (alike : GoAlike ViewsAlike step other)
    (id : NodeId) :
    GoAlike ViewsAlike
      (step >>= fun seen => if seen.2 = true then do
        modify fun values => values.set! id (some seen.1)
        pure seen
      else pure seen)
      (other >>= fun seen => if seen.2 = true then do
        modify fun values => values.set! id (some seen.1)
        pure seen
      else pure seen) := by
  refine alike.bind ?_
  rintro ⟨value, whole⟩ ⟨valueToo, _⟩ ⟨sameValue, rfl⟩
  cases whole with
  | true => exact (goAlike_set id sameValue).bind fun _ _ _ => goAlike_pure ⟨sameValue, rfl⟩
  | false => exact goAlike_pure ⟨sameValue, rfl⟩

theorem goAlike_pair {key keyToo value valueToo : Seen View} (keys : GoAlike ViewsAlike key keyToo)
    (values : GoAlike ViewsAlike value valueToo) :
    GoAlike ViewsAlike
      (do
        let key ← key
        let value ← value
        return View.collect [key, value] .tuple)
      (do
        let key ← keyToo
        let value ← valueToo
        return View.collect [key, value] .tuple) :=
  keys.bind fun _ _ key => values.bind fun _ _ value =>
    goAlike_pure (viewsAlike_collect Value.unmarked_tuple (.cons key (.cons value .nil)))

theorem goAlike_view {among : NodeId → Prop} {first second : Array (Option Made)}
    (agree : AgreeAmong among first second) (budget : Nat) (around : List NodeId) {id : NodeId}
    (inside : among id) : GoAlike ViewsAlike (view first around budget id)
    (view second around budget id) := by
  induction budget generalizing around id with
  | zero => exact goAlike_pure ⟨rfl, rfl⟩
  | succ budget ih =>
    rw [view, view]
    refine goAlike_get.bind fun seen seenToo same => ?_
    rcases seen_cases same id with ⟨value, other, found, foundToo, alike⟩ | ⟨new, newToo⟩
    · rw [found, foundToo]
      exact goAlike_pure ⟨alike, rfl⟩
    rw [new, newToo]
    dsimp only
    have finishes {step other : Seen View} (alike : GoAlike ViewsAlike step other) :=
      alike.finish id
    -- Only a mapping can be made in two ways, and then its entries are the same.
    rcases agree.cases inside with ⟨sameMade, noMap⟩ | ⟨line, lineToo, entries, is, isToo⟩
    · rw [sameMade]
      cases is : first.getD id none with
      | none => exact finishes (goAlike_pure ⟨rfl, rfl⟩)
      | some made =>
        have inner := agree.closed id made inside is
        cases made with
        | leaf value => exact finishes (goAlike_pure ⟨rfl, rfl⟩)
        | set items => exact finishes (goAlike_pure ⟨rfl, rfl⟩)
        | list items =>
          dsimp only
          split
          · exact finishes (goAlike_pure ⟨rfl, rfl⟩)
          · refine (goAlike_mapM items fun item member => ?_).bind fun _ _ each =>
              finishes (goAlike_pure (viewsAlike_collect Value.unmarked_list each))
            exact ih _ (inner item member)
        | pairs rows =>
          dsimp only
          split
          · exact finishes (goAlike_pure ⟨rfl, rfl⟩)
          · refine (goAlike_mapM rows fun row member => ?_).bind fun _ _ each =>
              finishes (goAlike_pure (viewsAlike_collect Value.unmarked_list each))
            have parts (part : NodeId) (either : part ∈ [row.1, row.2]) : among part :=
              inner part (List.mem_flatMap.mpr ⟨row, member, either⟩)
            exact goAlike_pair (ih _ (parts row.1 (by simp))) (ih _ (parts row.2 (by simp)))
        | map line entries => exact absurd is (noMap line entries)
    · have inner := agree.closed id _ inside is
      rw [is, isToo]
      dsimp only
      split
      · exact finishes (goAlike_pure ⟨rfl, rfl⟩)
      · refine (goAlike_mapM entries fun entry member => ?_).bind fun _ _ each =>
          finishes (goAlike_pure (viewsAlike_map each line lineToo))
        exact (ih _ (inner entry.2 (List.mem_map_of_mem member))).bind fun _ _ alike =>
          goAlike_pure ⟨rfl, alike.1, alike.2⟩

/-! ## Documents -/

theorem agreeAmong_of_isMade {document : Document} {first second : Array (Option Made)}
    (isMade : document.IsMade true first) (isMadeToo : document.IsMade false second) :
    AgreeAmong (fun id => HasMade first id ∧ HasMade second id) first second where
  same id has := isMade.unlined_eq isMadeToo has.1 has.2
  closed id found has is child member := by
    obtain ⟨makes, parts⟩ := isMade.each id found is
    have isPart := makes.part child member
    have same := isMade.unlined_eq isMadeToo has.1 has.2
    rw [is] at same
    obtain ⟨other, isToo, -⟩ := Option.map_eq_some_iff.mp same.symm
    exact ⟨parts child isPart, (isMadeToo.each id other isToo).2 child isPart⟩

theorem value_unmarked {document : Document} (steady : document.IsSteady) {value : Value}
    (read : document.value true = .ok value) :
    ∃ plain, document.value false = .ok plain ∧ value.unmarked = plain.unmarked := by
  simp only [Document.value, bind_eq_ok] at read ⊢
  obtain ⟨made, makes, read⟩ := read
  have isMade := isMade_of_made steady makes
  obtain ⟨others, makesToo, isMadeToo⟩ := exists_unmarked steady isMade
  obtain rfl := Except.ok.inj read
  refine ⟨_, ⟨others, makesToo, rfl⟩, ?_⟩
  have agree := agreeAmong_of_isMade isMade isMadeToo
  have root : HasMade made document.root ∧ HasMade others document.root :=
      ⟨isMade.root, isMadeToo.root⟩
  have whole : GoAlike ValuesAlike
      (do return (← view made [] (document.nodes.size + 1) document.root).1)
      (do return (← view others [] (document.nodes.size + 1) document.root).1) :=
    (goAlike_view agree _ _ root).bind fun _ _ alike => goAlike_pure alike.1
  show ValuesAlike _ _
  refine GoAlike.result ?_ _
  rcases agree.cases root with ⟨sameMade, noMap⟩ | ⟨line, lineToo, entries, is, isToo⟩
  · rw [sameMade]
    cases is : made.getD document.root none with
    | none => exact whole
    | some found =>
      cases found with
      | map line entries => exact absurd is (noMap line entries)
      | leaf _ | set _ | list _ | pairs _ => exact whole
  · have inner := agree.closed document.root _ root is
    rw [is, isToo]
    have each : GoAlike EntriesAlike
        (entries.mapM fun entry =>
          do return (entry.1, (← view made [] (document.nodes.size + 1) entry.2).1))
        (entries.mapM fun entry =>
          do return (entry.1, (← view others [] (document.nodes.size + 1) entry.2).1)) :=
      goAlike_mapM entries fun entry member =>
        (goAlike_view agree _ _ (inner entry.2 (List.mem_map_of_mem member))).bind fun _ _ alike =>
          goAlike_pure ⟨rfl, alike.1⟩
    exact each.bind fun _ _ alike => goAlike_pure (alike.withLine line lineToo)

/-- The documents of a stream without the lines of mappings, as a plain loader gives them. -/
def loadPlain (bytes : List UInt8) : Reading (List Value) := do
  let stream ← decodeStream bytes
  let (found, failure) := documents stream
  documentValues false found failure

def IsSteadyStream (content : List UInt8) : Prop :=
  ∀ stream, decodeStream content = .ok stream → ∀ document ∈ (documents stream).1, document.IsSteady

theorem documentValues_unmarked {found : List Document} {failure : Option ReadFailure}
    (steady : ∀ document ∈ found, document.IsSteady) {values : List Value}
    (read : documentValues true found failure = .ok values) :
    ∃ plain, documentValues false found failure = .ok plain ∧
      values.map unmarked = plain.map unmarked := by
  induction found generalizing values with
  | nil =>
    cases failure with
    | none => exact ⟨values, read, rfl⟩
    | some failure => cases read
  | cons document rest ih =>
    rw [List.forall_mem_cons] at steady
    simp only [documentValues, bind_eq_ok, pure_eq_ok] at read ⊢
    obtain ⟨first, firstRead, others, othersRead, rfl⟩ := read
    obtain ⟨plain, plainRead, alike⟩ := value_unmarked steady.1 firstRead
    obtain ⟨plainOthers, plainOthersRead, alikeOthers⟩ := ih steady.2 othersRead
    exact ⟨_, ⟨plain, plainRead, plainOthers, plainOthersRead, rfl⟩, by simp [alike, alikeOthers]⟩

theorem loadPlain_of_load {content : List UInt8}
    (steady : IsSteadyStream content) {values : List Value}
    (read : load content = .ok values) :
    ∃ plain, loadPlain content = .ok plain ∧ values.map unmarked = plain.map unmarked := by
  simp only [load, bind_eq_ok] at read
  obtain ⟨stream, decoded, read⟩ := read
  obtain ⟨plain, plainRead, alike⟩ := documentValues_unmarked (steady stream decoded) read
  refine ⟨plain, ?_, alike⟩
  simp only [loadPlain, bind_eq_ok]
  exact ⟨stream, decoded, plainRead⟩

/-- Each value that is loaded is what the root of its document is seen as, and every mapping at any
depth of it has the line at which its own node starts under the key for lines. In a stream of steady
documents all other entries, in all mappings and in their order, are those that are loaded without
lines. -/
theorem mappings_carry_their_lines {content : List UInt8} {values : List Value}
    (read : load content = .ok values) :
    (∃ stream, decodeStream content = .ok stream ∧
      List.Forall₂ (fun document value => ∃ made, Reads content document value made ∧
        document.IsLined made value) (documents stream).1 values) ∧
    (IsSteadyStream content →
      ∃ plain, loadPlain content = .ok plain ∧ values.map unmarked = plain.map unmarked) := by
  obtain ⟨stream, decoded, each⟩ := load_reads read
  refine ⟨⟨stream, decoded, each.imp ?_⟩, fun steady => loadPlain_of_load steady read⟩
  rintro document value ⟨made, reads⟩
  exact ⟨made, reads, reads.isLined⟩

/-- A node is not of the kind `=`. What a mapping takes over is written before it, and it is not
read as a text; an ordered mapping lists mappings without merge keys. -/
def Document.isTidyAt (document : Document) (id : NodeId) : Bool :=
  (document.node id).tag ≠ .value &&
    match document.node id with
    | .mapping tag _ entries => !tag.isScalar && (document.takenBy entries).all (· < id)
    | .sequence _ items => items.all fun row =>
        (document.node row).entries.all (!document.isMerge ·)
    | .scalar _ _ => true

def Document.isTidy (document : Document) : Bool :=
  (List.range document.nodes.size).all document.isTidyAt

section Tidy
variable {document : Document} (tidy : document.isTidy = true)
include tidy

theorem isTidyAt_of_isTidy (id : NodeId) : document.isTidyAt id = true := by
  by_cases inside : id < document.nodes.size
  · exact List.all_eq_true.mp tidy id (List.mem_range.mpr inside)
  · have empty : document.node id = .empty := by
      by_contra written
      exact inside (Document.lt_size_of_ne_empty written)
    rw [Document.isTidyAt, empty]
    rfl

theorem tag_ne_value_of_isTidy (id : NodeId) : (document.node id).tag ≠ .value := by
  have here := isTidyAt_of_isTidy tidy id
  simp only [Document.isTidyAt, Bool.and_eq_true, decide_eq_true_eq] at here
  exact here.1

theorem lt_of_takesOver {id other : NodeId} (takes : document.TakesOver id other) : other < id := by
  have here := isTidyAt_of_isTidy tidy id
  rw [Document.TakesOver] at takes
  cases is : document.node id with
  | scalar _ _ | sequence _ _ =>
    rw [is] at takes
    cases takes
  | mapping tag line entries =>
    rw [is] at takes
    simp only [Document.isTidyAt, is, Bool.and_eq_true] at here
    simpa using List.all_eq_true.mp here.2.2 other takes

theorem lt_of_transGen_takesOver {first last : NodeId}
    (path : Relation.TransGen document.TakesOver first last) : last < first := by
  induction path with
  | single takes => exact lt_of_takesOver tidy takes
  | tail _ takes ih => exact (lt_of_takesOver tidy takes).trans ih

theorem isSteady_of_isTidy : document.IsSteady := by
  have noValue := tag_ne_value_of_isTidy tidy
  refine ⟨?_, ?_, ?_, ?_⟩
  · intro id cycle
    exact Nat.lt_irrefl id (lt_of_transGen_takesOver tidy cycle)
  · intro id tag items is _ row member entry inside
    refine ⟨?_, noValue _⟩
    have here := isTidyAt_of_isTidy tidy id
    simp only [Document.isTidyAt, is, Bool.and_eq_true] at here
    have plain := List.all_eq_true.mp (List.all_eq_true.mp here.2 row member) entry inside
    simpa [Document.isMerge] using plain
  · intro id tag line entries text is
    cases text with
    | own isToo kind =>
      cases is.symm.trans isToo
      have here := isTidyAt_of_isTidy tidy id
      rcases kind with scalar | value
      · simp [Document.isTidyAt, is, scalar] at here
      · exact absurd (by rw [is]; exact value) (noValue id)
    | inner _ _ value => exact absurd value (noValue _)
  · exact fun key value => absurd value (noValue key)

end Tidy

theorem isSteadyStream_of_isTidy {content : List UInt8}
    (tidy : ((decodeStream content).toOption.all fun stream =>
      (documents stream).1.all Document.isTidy) = true) : IsSteadyStream content := by
  intro stream decoded document inside
  simp only [decoded, Except.toOption, Option.all_some] at tidy
  exact isSteady_of_isTidy (List.all_eq_true.mp tidy document inside)

/-- A mapping with a key that looks like its line is taken over, named by an alias and listed beside
an ordered mapping. -/
def sharedMapping : String :=
  "base: &b \x7b__line__: 7, k: 1\x7d\nuse:\n  <<: *b\n  list: [*b, !!omap [p: \x7bq: 2\x7d]]\n"

def takingEntries : Entries :=
  [(.text lineKey, .int 3), (.text "k", .int 1),
    (.text "list", .list [.map [(.text lineKey, .int 1), (.text "k", .int 1)],
      .list [.tuple [.text "p", .map [(.text "q", .int 2), (.text lineKey, .int 4)]]]])]

def sharedValue : Value :=
  .map [(.text "base", .map [(.text lineKey, .int 1), (.text "k", .int 1)]),
    (.text "use", .map takingEntries), (.text lineKey, .int 1)]

/-- What takes over the line of another mapping starts at its own line. -/
theorem taking_mapping_has_its_line :
    load sharedMapping.toUTF8.data.toList = .ok [sharedValue] ∧
      (∃ stream, decodeStream sharedMapping.toUTF8.data.toList = .ok stream ∧
        List.Forall₂ (fun document value => ∃ made,
          Reads sharedMapping.toUTF8.data.toList document value made ∧ document.IsLined made value)
          (documents stream).1 [sharedValue]) ∧
      StartsIn sharedMapping.toUTF8.data.toList 3 takingEntries ∧
      IsSteadyStream sharedMapping.toUTF8.data.toList ∧
      ∃ plain, loadPlain sharedMapping.toUTF8.data.toList = .ok plain ∧
        [sharedValue].map unmarked = plain.map unmarked := by
  have read : load sharedMapping.toUTF8.data.toList = .ok [sharedValue] :=
    Value.ok_of_identicalItems (by decide +kernel)
  have steady : IsSteadyStream sharedMapping.toUTF8.data.toList :=
      isSteadyStream_of_isTidy (by decide +kernel)
  obtain ⟨lined, alike⟩ := mappings_carry_their_lines read
  have part : IsPart (.map takingEntries) sharedValue :=
    .value (List.mem_cons_of_mem _ List.mem_cons_self) .whole
  obtain ⟨stream, -, each⟩ := id lined
  obtain ⟨document, -, made, reads, own⟩ := exists_of_mem_forall₂ each List.mem_cons_self
  obtain ⟨id, placed⟩ := own.placed takingEntries part
  obtain ⟨line, starts, marker⟩ := own.lines id takingEntries placed
  obtain rfl : line = 3 := by
    have own : Keyed.get? takingEntries (.text lineKey) = some (.int 3) := rfl
    rw [own] at marker
    cases marker
    rfl
  exact ⟨read, lined, ⟨document, sharedValue, made, id, reads, placed, starts⟩, steady,
    alike steady⟩

/-- A text by its key `=`, which another mapping takes from it before or after the text has been
read. -/
def sharedValueKey : String :=
  "x:\n  w:\n    y: !!str \x7b? &k = : v, ? = : w\x7d\nz: \x7b? *k : 1\x7d\n"

/-- The text is the one under the first key `=` that is left when it is read. -/
theorem lines_show_when_not_steady : ∃ values plain,
    load sharedValueKey.toUTF8.data.toList = .ok values ∧
      loadPlain sharedValueKey.toUTF8.data.toList = .ok plain ∧
        values.map unmarked ≠ plain.map unmarked := by
  refine ⟨[.map [(.text "x",
    .map [(.text "w", .map [(.text "y", .text "v"), (.text lineKey, .int 3)]),
      (.text lineKey, .int 2)]), (.text "z", .map [(.text "=", .int 1), (.text lineKey, .int 4)]),
      (.text lineKey, .int 1)]],
    [.map [(.text "x", .map [(.text "w", .map [(.text "y", .text "w")])]),
      (.text "z", .map [(.text "=", .int 1)])]],
    Value.ok_of_identicalItems (by decide +kernel), Value.ok_of_identicalItems (by decide +kernel),
    fun same => ?_⟩
  have texts := congrArg
      (Value.identicalItems [.map [(.text "x", .map [(.text "w", .map [(.text "y", .text "v")])]),
      (.text "z", .map [(.text "=", .int 1)])]]) same
  revert texts
  decide +kernel

end Yaml

end SupplyLint
