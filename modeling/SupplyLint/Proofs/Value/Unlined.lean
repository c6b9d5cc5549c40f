import SupplyLint.Proofs.Keyed
import SupplyLint.Proofs.Merge
import SupplyLint.Proofs.Value.Text

/-! # Values without their lines

A mapping keeps its line as an entry of its own. `unlined` puts zero for all lines in a value: two
values are alike but for their lines when they are one value unlined. Fields are looked up and
merged alike in both. A text may show a line, but not if no mapping in the value has one. -/
set_option autoImplicit false

namespace SupplyLint.Value

open SupplyLint.Yaml (lineKey)

/-- Whether an entry is that for the line of its mapping. -/
def isLine (key : Value) : Value → Bool
  | .int _ => key == .text lineKey
  | _ => false

mutual

/-- A value with zero for all lines. -/
def unlined : Value → Value
  | .list items => .list (unlinedItems items)
  | .tuple items => .tuple (unlinedItems items)
  | .set items => .set (unlinedItems items)
  | .map entries => .map (unlinedEntries entries)
  | value => value
termination_by structural x => x

def unlinedItems : List Value → List Value
  | [] => []
  | item :: rest => unlined item :: unlinedItems rest
termination_by structural x => x

def unlinedEntries : List (Value × Value) → List (Value × Value)
  | [] => []
  | entry :: rest => unlinedEntry entry :: unlinedEntries rest
termination_by structural x => x

def unlinedEntry : Value × Value → Value × Value
  | (key, value) => (key, if isLine key value then .int 0 else unlined value)
termination_by structural x => x

end

def unlinedUnder (key value : Value) : Value :=
  if isLine key value then .int 0 else value.unlined

mutual

/-- Whether no mapping in a value has a line. -/
def isLineless : Value → Bool
  | .list items | .tuple items | .set items => areLineless items
  | .map entries => haveNoLines entries
  | _ => true
termination_by structural x => x

def areLineless : List Value → Bool
  | [] => true
  | item :: rest => isLineless item && areLineless rest
termination_by structural x => x

def haveNoLines : List (Value × Value) → Bool
  | [] => true
  | entry :: rest => hasNoLine entry && haveNoLines rest
termination_by structural x => x

def hasNoLine : Value × Value → Bool
  | (key, value) => !isLine key value && isLineless value
termination_by structural x => x

end

mutual

theorem unlined_of_isLineless : ∀ value : Value, value.isLineless = true → value.unlined = value
  | .list items, lineless => congrArg list (unlinedItems_of_areLineless items lineless)
  | .tuple items, lineless => congrArg tuple (unlinedItems_of_areLineless items lineless)
  | .set items, lineless => congrArg set (unlinedItems_of_areLineless items lineless)
  | .map entries, lineless => congrArg map (unlinedEntries_of_haveNoLines entries lineless)
  | .null, _ | .bool _, _ | .int _, _ | .float _, _ | .text _, _ | .bytes _, _ | .day _, _
  | .moment _, _ | .enclosing _, _ => rfl

theorem unlinedItems_of_areLineless : ∀ items : List Value,
    areLineless items = true → unlinedItems items = items
  | [], _ => rfl
  | item :: rest, lineless => by
    obtain ⟨here, later⟩ := Bool.and_eq_true_iff.mp lineless
    rw [unlinedItems, unlined_of_isLineless item here, unlinedItems_of_areLineless rest later]

theorem unlinedEntries_of_haveNoLines : ∀ entries : List (Value × Value),
    haveNoLines entries = true → unlinedEntries entries = entries
  | [], _ => rfl
  | entry :: rest, lineless => by
    obtain ⟨here, later⟩ := Bool.and_eq_true_iff.mp lineless
    rw [unlinedEntries, unlinedEntry_of_hasNoLine entry here,
      unlinedEntries_of_haveNoLines rest later]

theorem unlinedEntry_of_hasNoLine : ∀ entry : Value × Value,
    hasNoLine entry = true → unlinedEntry entry = entry
  | (key, value), lineless => by
    obtain ⟨other, later⟩ := Bool.and_eq_true_iff.mp lineless
    rw [unlinedEntry, if_neg (by simpa using other), unlined_of_isLineless value later]

end

def AllLineless (values : List Value) : Prop :=
  ∀ value ∈ values, value.isLineless = true

instance (values : List Value) : Decidable (AllLineless values) :=
  inferInstanceAs (Decidable (∀ value ∈ values, value.isLineless = true))

@[simp] theorem allLineless_nil : AllLineless [] := by
  simp [AllLineless]

@[simp] theorem allLineless_cons {value : Value} {rest : List Value} :
    AllLineless (value :: rest) ↔ value.isLineless = true ∧ AllLineless rest :=
  List.forall_mem_cons

@[simp] theorem allLineless_append {first second : List Value} :
    AllLineless (first ++ second) ↔ AllLineless first ∧ AllLineless second :=
  List.forall_mem_append

theorem allLineless_flatMap {α : Type} {f : α → List Value} {items : List α} :
    AllLineless (items.flatMap f) ↔ ∀ item ∈ items, AllLineless (f item) := by
  simp only [AllLineless, List.mem_flatMap, forall_exists_index, and_imp]
  exact ⟨fun all item member value inside => all value item member inside,
    fun each value item member inside => each item member value inside⟩

/-! ## Parts of a value -/

theorem unlinedItems_eq (items : List Value) : unlinedItems items = items.map unlined := by
  induction items with
  | nil => rfl
  | cons item rest ih => rw [unlinedItems, ih, List.map_cons]

theorem unlinedEntry_eq (entry : Value × Value) :
    unlinedEntry entry = (entry.1, unlinedUnder entry.1 entry.2) := by
  cases entry
  rfl

theorem unlinedEntries_eq (entries : Entries) :
    unlinedEntries entries = entries.map fun entry => (entry.1, unlinedUnder entry.1 entry.2) := by
  induction entries with
  | nil => rfl
  | cons entry rest ih => rw [unlinedEntries, ih, unlinedEntry_eq, List.map_cons]

@[simp] theorem unlined_list (items : List Value) :
    (Value.list items).unlined = .list (items.map unlined) := by
  rw [unlined, unlinedItems_eq]

theorem asList_unlined (raw : Value) : raw.unlined.asList = raw.asList.map unlined := by
  cases raw with
  | list items => rw [unlined_list, asList, asList]
  | _ => rfl

theorem isNull_unlined (raw : Value) : raw.unlined.isNull = raw.isNull := by
  cases raw <;> rfl

@[simp] theorem unlined_tuple (items : List Value) :
    (Value.tuple items).unlined = .tuple (items.map unlined) := by
  rw [unlined, unlinedItems_eq]

@[simp] theorem unlined_map (entries : Entries) :
    (Value.map entries).unlined = .map (unlinedEntries entries) := by
  rw [unlined]

theorem map_unlined_of_allLineless {values : List Value} (lineless : AllLineless values) :
    values.map unlined = values :=
  (List.map_congr_left fun value member => unlined_of_isLineless value
    (lineless value member)).trans
    (List.map_id values)

@[simp] theorem present_unlined (value : Value) : value.unlined.present = value.present := by
  cases value <;> simp [unlined, unlinedItems_eq, unlinedEntries_eq, present]

/-! ## Entries -/

theorem unlinedUnder_of_ne {key : Value} (other : key ≠ .text lineKey) (value : Value) :
    unlinedUnder key value = value.unlined := by
  refine if_neg fun line => other ?_
  cases value with
  | int n => exact beq_text_iff.mp line
  | _ => cases line

theorem unlinedUnder_of_beq {key other : Value} (same : (key == other) = true) (value : Value) :
    unlinedUnder key value = unlinedUnder other value := by
  by_cases line : key = .text lineKey
  · rw [line, text_beq_iff] at same
    rw [line, same]
  · by_cases otherLine : other = .text lineKey
    · rw [otherLine, beq_text_iff] at same
      exact absurd same line
    · rw [unlinedUnder_of_ne line, unlinedUnder_of_ne otherLine]

section Entries
variable {entries : Entries} {name : String}

theorem get?_unlinedEntries (entries : Entries) (key : Value) :
    Keyed.get? (unlinedEntries entries) key = (Keyed.get? entries key).map (unlinedUnder key) := by
  induction entries with
  | nil => rfl
  | cons entry rest ih =>
    obtain ⟨first, value⟩ := entry
    simp only [unlinedEntries, unlinedEntry, Keyed.get?]
    by_cases same : (first == key) = true
    · rw [if_pos same, if_pos same]
      exact congrArg some (unlinedUnder_of_beq same value)
    · rw [if_neg same, if_neg same, ih]

theorem get?_unlinedEntries_text (other : name ≠ lineKey) :
    Keyed.get? (unlinedEntries entries) (.text name) =
      (Keyed.get? entries (.text name)).map unlined := by
  rw [get?_unlinedEntries]
  refine congrArg (Option.map · _) (funext fun value => unlinedUnder_of_ne ?_ value)
  exact fun same => other (text.inj same)

@[simp] theorem hasField_unlinedEntries (entries : Entries) (name : String) :
    hasField (unlinedEntries entries) name = hasField entries name := by
  rw [hasField, Keyed.has, get?_unlinedEntries, Option.isSome_map]
  rfl

theorem field_unlinedEntries (other : name ≠ lineKey) :
    field (unlinedEntries entries) name = (field entries name).unlined := by
  rw [field, get?_unlinedEntries_text other, field]
  cases Keyed.get? entries (.text name) <;> rfl

theorem field_unlined_congr {other : Entries} (same : unlinedEntries entries = unlinedEntries other)
    (isField : name ≠ lineKey) : (field entries name).unlined = (field other name).unlined := by
  rw [← field_unlinedEntries isField, same, field_unlinedEntries isField]

theorem put_unlinedEntries (entries : Entries) (key value : Value) :
    unlinedEntries (Keyed.put entries key value) =
      Keyed.put (unlinedEntries entries) key (unlinedUnder key value) := by
  induction entries with
  | nil => rfl
  | cons entry rest ih =>
    obtain ⟨first, old⟩ := entry
    simp only [unlinedEntries, unlinedEntry, Keyed.put]
    by_cases same : (first == key) = true
    · rw [if_pos same, if_pos same, unlinedEntries, unlinedEntry, ← unlinedUnder_of_beq same]
      rfl
    · rw [if_neg same, if_neg same, unlinedEntries, unlinedEntry, ih]

theorem filter_unlinedEntries (keeps : Value → Bool) (entries : Entries) :
    (unlinedEntries entries).filter (fun entry => keeps entry.1) =
      unlinedEntries (entries.filter fun entry => keeps entry.1) := by
  rw [unlinedEntries_eq, unlinedEntries_eq, List.filter_map]
  rfl

theorem erase_unlinedEntries (entries : Entries) (key : Value) :
    Keyed.erase (unlinedEntries entries) key = unlinedEntries (Keyed.erase entries key) :=
  filter_unlinedEntries (fun other => !(other == key)) entries

end Entries

/-! ## Texts -/

theorem toText_unlined {value : Value} (lineless : value.isLineless = true) :
    value.unlined.toText = value.toText := by
  rw [unlined_of_isLineless value lineless]

theorem toTexts_unlined {values : List Value} (lineless : AllLineless values) :
    toTexts (values.map unlined) = toTexts values := by
  rw [map_unlined_of_allLineless lineless]

end SupplyLint.Value

namespace SupplyLint

theorem mapM_map_of_comm {m : Type → Type} [Monad m] [LawfulMonad m] {α α' β β' : Type}
    {read : α → m β} {other : α' → m β'} {f : α → α'} {g : β → β'} (items : List α)
    (comm : ∀ item ∈ items, other (f item) = g <$> read item) :
    (items.map f).mapM other = List.map g <$> items.mapM read := by
  induction items with
  | nil => simp
  | cons item rest ih =>
    rw [List.forall_mem_cons] at comm
    simp only [List.map_cons, List.mapM_cons, comm.1, ih comm.2, map_bind, bind_map_left, map_pure]

namespace Field

open SupplyLint.Value
open SupplyLint.Yaml (lineKey)

theorem entries_unlined (value : Value) :
    entries value.unlined = Keyed.mapValues unlined (entries value) := by
  cases value with
  | map all =>
    rw [unlined_map, entries, filter_unlinedEntries (fun key => !(key == .text lineKey)),
      unlinedEntries_eq]
    refine List.map_congr_left fun entry member => ?_
    have other := (List.mem_filter.mp member).2
    refine Prod.ext rfl (unlinedUnder_of_ne (fun same => ?_) entry.2)
    rw [beq_text_iff.mpr same] at other
    cases other
  | _ => rfl

@[simp] theorem names_unlined (value : Value) : names value.unlined = names value := by
  rw [names, entries_unlined, Keyed.mapValues, Keyed.keys_mapValues, names]

@[simp] theorem isTextual_unlined (value : Value) : isTextual value.unlined = isTextual value := by
  cases value <;> rfl

theorem written_unlined (value : Value) : written value.unlined = (written value).map unlined := by
  cases value with
  | list items => simp [written, List.filter_map, Function.comp_def]
  | tuple items => simp [written, List.filter_map, Function.comp_def]
  | _ => rfl

theorem texts_eq (value : Value) : texts value = toTexts (written value) := by
  cases value <;> simp [texts, written, toTexts, pure, Except.pure]

theorem texts_unlined {value : Value} (lineless : AllLineless (written value)) :
    texts value.unlined = texts value := by
  rw [texts_eq, written_unlined, toTexts_unlined lineless, ← texts_eq]

theorem byText_unlined (value : Value) :
    byText value.unlined = Keyed.mapValues unlined <$> byText value := by
  unfold byText
  rw [entries_unlined]
  have comm (entry : Value × Value) :
      (do return (← entry.1.toText, entry.2.unlined) : Except Fault (String × Value)) =
        (fun named => (named.1, named.2.unlined)) <$>
          (do return (← entry.1.toText, entry.2) : Except Fault (String × Value)) := by
    simp only [map_bind, map_pure]
  rw [Keyed.mapValues, mapM_map_of_comm (entries value) fun entry _ => comm entry]
  simp only [bind_map_left, map_bind, map_pure]
  exact congrArg _ (funext fun pairs => congrArg pure (Keyed.ofPairs_mapValues unlined pairs))

theorem line_unlined (all : Entries) :
    line (.map (unlinedEntries all)) = (line (.map all)).map fun _ => 0 := by
  have found : lineEntry (.map (unlinedEntries all)) =
      unlinedUnder (.text lineKey) (lineEntry (.map all)) := by
    simp only [lineEntry, field, get?_unlinedEntries]
    cases Keyed.get? all (.text lineKey) <;> rfl
  rw [line, found, line]
  cases lineEntry (.map all) with
  | int n => rfl
  | _ => rfl

/-! ## Merging -/

theorem mergeValue_unlinedUnder (key : Value) (below : Option Value) (value : Value) :
    mergeValue (below.map (unlinedUnder key)) value = mergeValue (below.map unlined) value := by
  cases value with
  | map upper =>
    cases below with
    | none => rfl
    | some lower =>
      cases lower with
      | int n =>
        rw [Option.map_some, unlinedUnder]
        split <;> rfl
      | _ => rfl
  | _ => rfl

theorem isLine_mergeValue (key : Value) (below : Option Value) (value : Value) :
    isLine key (mergeValue below value) = isLine key value := by
  cases value with
  | map upper =>
    cases below with
    | none => rfl
    | some lower => cases lower <;> rfl
  | _ => rfl

mutual

theorem merge_unlined (base : Entries) : ∀ upper : List (Value × Value),
    unlinedEntries (merge base upper) = merge (unlinedEntries base) (unlinedEntries upper)
  | [] => rfl
  | entry :: rest => by
    rw [merge, merge_unlined (mergeEntry base entry) rest, mergeEntry_unlined base entry]
    rfl

theorem mergeEntry_unlined (base : Entries) : ∀ entry : Value × Value,
    unlinedEntries (mergeEntry base entry) = mergeEntry (unlinedEntries base) (unlinedEntry entry)
  | (key, value) => by
    rw [mergeEntry, put_unlinedEntries, unlinedEntry_eq, mergeEntry, get?_unlinedEntries,
      mergeValue_unlinedUnder]
    refine congrArg (Keyed.put _ key) ?_
    rw [unlinedUnder, unlinedUnder, isLine_mergeValue]
    split
    · rfl
    · exact mergeValue_unlined _ value

theorem mergeValue_unlined (below : Option Value) : ∀ value : Value,
    (mergeValue below value).unlined = mergeValue (below.map unlined) value.unlined
  | .map upper => by
    match below with
    | some (.map lower) =>
      simp only [mergeValue, unlined_map, Option.map_some, merge_unlined lower upper]
    | none => rfl
    | some .null | some (.bool _) | some (.int _) | some (.float _) | some (.text _)
    | some (.bytes _) | some (.day _) | some (.moment _) | some (.list _) | some (.tuple _)
    | some (.set _) | some (.enclosing _) => rfl
  | .null | .bool _ | .int _ | .float _ | .text _ | .bytes _ | .day _ | .moment _ | .list _
  | .tuple _ | .set _ | .enclosing _ => rfl

end

end Field

end SupplyLint
