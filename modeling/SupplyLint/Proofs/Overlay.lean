import SupplyLint.Proofs.Yaml.Lines

/-! # One mapping merged over another

What merging gives is said by paths of keys. Under a path stands what the upper
mapping has there, or what the lower one has where the upper one has nothing in
the way (`holdsLeaf_merge`). Keys keep their places, and new ones come behind
them (`keys_merge`). What has been merged in is not changed by merging it in
again (`merge_merge_self`). Keys are found by equality of values, so each must be
there once and be equal to itself, as it is in all that is loaded
(`isKeyed_of_holds`). -/
set_option autoImplicit false

namespace SupplyLint

open SupplyLint.Keyed (Distinct IsProper)

/-- In a mapping, and in those that are its values, every key is there once and can be found. -/
inductive Value.IsKeyed : Value → Prop
  | map {entries : Entries} (proper : IsProper entries)
      (values : ∀ entry ∈ entries, IsKeyed entry.2) :
      IsKeyed (.map entries)
  | single {value : Value} (plain : Field.isMapping value = false) : IsKeyed value

/-- What a value has under a path of keys; the value itself is under the empty path. -/
def Value.at? (value : Value) : List Value → Option Value
  | [] => some value
  | key :: path =>
    match value with
    | .map entries => (Keyed.get? entries key).bind (·.at? path)
    | _ => none

/-- Under a path a value has another one that is no mapping. -/
def Value.HoldsLeaf (value : Value) (path : List Value) (leaf : Value) : Prop :=
  value.at? path = some leaf ∧ Field.isMapping leaf = false

/-- A value has nothing under a path, and on the way there it has nothing but mappings. -/
def Value.LeavesFree (value : Value) (path : List Value) : Prop :=
  value.at? path = none ∧
    ∀ front leaf, front <+: path → front ≠ path → ¬ value.HoldsLeaf front leaf

theorem Value.IsKeyed.proper {entries : Entries} (keyed : (Value.map entries).IsKeyed) :
    IsProper entries := by
  cases keyed with
  | single plain => cases plain
  | map proper _ => exact proper

theorem Value.IsKeyed.found {entries : Entries} (keyed : (Value.map entries).IsKeyed) :
    ∀ entry ∈ entries, (entry.1 == entry.1) = true :=
  fun _ inside => keyed.proper.found _ (List.mem_map_of_mem inside)

theorem Value.IsKeyed.values {entries : Entries} (keyed : (Value.map entries).IsKeyed) :
    ∀ entry ∈ entries, entry.2.IsKeyed := by
  cases keyed with
  | single plain => cases plain
  | map _ values => exact values

namespace Keyed

variable {κ ν : Type} [BEq κ]

theorem absent_of_get?_eq_none {entries : Keyed κ ν} {key : κ} (none : entries.get? key = none) :
    ∀ entry ∈ entries, (entry.1 == key) = false := by
  induction entries with
  | nil => simp
  | cons entry rest ih =>
    obtain ⟨k, v⟩ := entry
    by_cases same : (k == key) = true
    · simp [get?, same] at none
    · rw [List.forall_mem_cons]
      exact ⟨Bool.eq_false_iff.mpr same, ih (by simpa [get?, same] using none)⟩

theorem keys_put_eq (entries : Keyed κ ν) (key : κ) (value : ν) :
    (entries.put key value).keys = if entries.has key then entries.keys
      else entries.keys ++ [key] := by
  cases found : entries.get? key with
  | some old => simp [has, found, keys_put_of_get? found]
  | none => simp [has, found, put_of_absent (absent_of_get?_eq_none found)]

variable [PartialEquivBEq κ]

theorem get?_congr (entries : Keyed κ ν) {key other : κ} (same : (key == other) = true) :
    entries.get? key = entries.get? other := by
  induction entries with
  | nil => rfl
  | cons entry rest ih =>
    obtain ⟨k, v⟩ := entry
    rw [get?, get?, BEq.congr_right same, ih]

theorem get?_put_of_same {key other : κ} (same : (key == other) = true) (entries : Keyed κ ν)
    (value : ν) : (entries.put key value).get? other = some value := by
  have own : (key == key) = true := BEq.trans same (BEq.symm same)
  rw [← get?_congr _ same, get?_put_of_beq own]

end Keyed

namespace Field

/-- Under a key that the upper mapping has, its value is merged with what is below; under any other
key stands what is below. -/
theorem get?_merge_eq {upper : Entries} (distinct : Distinct upper) (base : Entries) (key : Value) :
    (merge base upper).get? key =
      match upper.get? key with
      | some value => some (mergeValue (base.get? key) value)
      | none => base.get? key := by
  induction upper generalizing base with
  | nil => rfl
  | cons entry rest ih =>
    obtain ⟨k, v⟩ := entry
    obtain ⟨apart, others⟩ := List.pairwise_cons.mp distinct
    by_cases same : (k == key) = true
    · have later : ∀ entry ∈ rest, (entry.1 == key) = false := by
        intro entry member
        rw [← BEq.congr_right same]
        exact BEq.symm_false (apart entry member)
      rw [merge, get?_merge_of_differs rest later, mergeEntry, Keyed.get?_put_of_same same,
        Keyed.get?_congr base same]
      simp [Keyed.get?, same]
    · have differs : (k == key) = false := Bool.eq_false_iff.mpr same
      rw [merge, ih others, mergeEntry, Keyed.get?_put_of_differs differs]
      simp [Keyed.get?, same]

/-- The keys that are there stay in their places, and the new ones come behind them. -/
theorem keys_merge {upper : Entries} (distinct : Distinct upper) (base : Entries) :
    (merge base upper).keys = base.keys ++ upper.keys.filter fun key => !base.has key := by
  induction upper generalizing base with
  | nil => simp [merge]
  | cons entry rest ih =>
    obtain ⟨k, v⟩ := entry
    obtain ⟨apart, others⟩ := List.pairwise_cons.mp distinct
    have later (value : Value) : ((Keyed.keys rest).filter fun key => !(base.put k value).has key) =
        (Keyed.keys rest).filter fun key => !base.has key := by
      refine List.filter_congr fun key member => ?_
      obtain ⟨entry, inside, rfl⟩ := List.mem_map.mp member
      rw [Keyed.has, Keyed.has, Keyed.get?_put_of_differs (apart entry inside)]
    rw [merge, ih others, mergeEntry, later, Keyed.keys_put_eq, Keyed.keys_cons, List.filter_cons]
    by_cases there : base.has k = true
    · simp [there]
    · simp [there]

/-! ## Paths -/

section Paths
variable {entries : Entries} {key leaf value : Value} {path : List Value}

theorem at?_map_cons :
    (Value.map entries).at? (key :: path) = (entries.get? key).bind (·.at? path) :=
  rfl

theorem isKeyed_of_at? {inner : Value} (keyed : value.IsKeyed)
    (found : value.at? path = some inner) :
    inner.IsKeyed := by
  induction path generalizing value with
  | nil => exact Option.some.inj found ▸ keyed
  | cons key path ih =>
    cases value with
    | map entries =>
      obtain ⟨next, here, found⟩ := Option.bind_eq_some_iff.mp (at?_map_cons ▸ found)
      obtain ⟨other, inside⟩ := Keyed.exists_mem_of_get? here
      exact ih (keyed.values _ inside) found
    | _ => cases found

theorem not_holdsLeaf_nil : ¬ (Value.map entries).HoldsLeaf [] leaf := by
  rintro ⟨same, plain⟩
  obtain rfl := Option.some.inj same
  cases plain

theorem holdsLeaf_cons : (Value.map entries).HoldsLeaf (key :: path) leaf ↔
    ∃ value, entries.get? key = some value ∧ value.HoldsLeaf path leaf := by
  rw [Value.HoldsLeaf, at?_map_cons]
  cases entries.get? key with
  | none => simp
  | some value => simp [Value.HoldsLeaf]

theorem not_leavesFree_nil : ¬ value.LeavesFree [] := by
  rintro ⟨nothing, -⟩
  cases nothing

theorem not_leavesFree_of_not_isMapping (plain : isMapping value = false) :
    ¬ value.LeavesFree path := by
  rintro ⟨nothing, noLeaf⟩
  cases path with
  | nil => cases nothing
  | cons key path => exact noLeaf [] value List.nil_prefix (List.cons_ne_nil _ _).symm ⟨rfl, plain⟩

theorem leavesFree_cons : (Value.map entries).LeavesFree (key :: path) ↔
    ∀ value, entries.get? key = some value → value.LeavesFree path := by
  constructor
  · rintro ⟨nothing, noLeaf⟩ value found
    rw [at?_map_cons, found] at nothing
    refine ⟨nothing, fun front leaf isFront differs holds => ?_⟩
    exact noLeaf (key :: front) leaf ((List.prefix_cons_inj key).mpr isFront)
      (by simpa using differs)
      (holdsLeaf_cons.mpr ⟨value, found, holds⟩)
  · intro free
    constructor
    · rw [at?_map_cons]
      cases found : entries.get? key with
      | none => rfl
      | some value => exact (free value found).1
    · intro front leaf isFront differs holds
      cases front with
      | nil => exact not_holdsLeaf_nil holds
      | cons first front =>
        obtain ⟨rfl, inner⟩ := List.cons_prefix_cons.mp isFront
        obtain ⟨value, found, holds⟩ := holdsLeaf_cons.mp holds
        exact (free value found).2 front leaf inner (by simpa using differs) holds

theorem exists_mergeValue_map (below : Option Value) (upper : Entries) :
    ∃ merged, mergeValue below (.map upper) = .map merged := by
  unfold mergeValue
  split
  · exact ⟨_, rfl⟩
  · exact ⟨_, rfl⟩

/-- The step of the path law: what a value that is merged over another one holds under a path. The
induction follows the path, since merging goes on only where both have a mapping. -/
theorem holdsLeaf_mergeValue (keyed : value.IsKeyed) (below : Option Value) :
    (mergeValue below value).HoldsLeaf path leaf ↔
      value.HoldsLeaf path leaf ∨
        value.LeavesFree path ∧ ∃ lower, below = some lower ∧ lower.HoldsLeaf path leaf := by
  induction path generalizing value below with
  | nil =>
    rw [or_iff_left fun second => not_leavesFree_nil second.1]
    cases keyed with
    | single plain => rw [mergeValue_of_not_map plain]
    | @map upper _ _ =>
      obtain ⟨merged, same⟩ := exists_mergeValue_map below upper
      rw [same]
      exact iff_of_false not_holdsLeaf_nil not_holdsLeaf_nil
  | cons key path ih =>
    cases keyed with
    | single plain =>
      rw [mergeValue_of_not_map plain,
        or_iff_left fun second => not_leavesFree_of_not_isMapping plain second.1]
    | @map upper proper values =>
      unfold mergeValue
      split
      case h_1 lower =>
        rw [holdsLeaf_cons, holdsLeaf_cons, leavesFree_cons, get?_merge_eq proper.distinct]
        simp only [Option.some.injEq, exists_eq_left', holdsLeaf_cons]
        cases here : upper.get? key with
        | none => simp
        | some value =>
          obtain ⟨other, inside⟩ := Keyed.exists_mem_of_get? here
          simpa using ih (values _ inside) (Keyed.get? lower key)
      case h_2 noMapping =>
        refine (or_iff_left ?_).symm
        rintro ⟨-, lower, rfl, holds, -⟩
        cases lower with
        | map lower => exact noMapping lower rfl
        | _ => cases holds

end Paths

section Merge
variable {lower upper : Entries}

/-- Under a path stands what the upper mapping has there, or else what the lower one has, if the
upper one leaves that path free. -/
theorem holdsLeaf_merge (keyed : (Value.map upper).IsKeyed) (path : List Value) (leaf : Value) :
    (Value.map (merge lower upper)).HoldsLeaf path leaf ↔
      (Value.map upper).HoldsLeaf path leaf ∨
        (Value.map upper).LeavesFree path ∧ (Value.map lower).HoldsLeaf path leaf := by
  have law : (mergeValue (some (.map lower)) (.map upper)).HoldsLeaf path leaf ↔ _ :=
    holdsLeaf_mergeValue keyed (some (.map lower))
  simpa [mergeValue] using law

theorem at?_merge (keyed : (Value.map upper).IsKeyed) {path : List Value} {below above : Entries}
    (inLower : (Value.map lower).at? path = some (.map below))
    (inUpper : (Value.map upper).at? path = some (.map above)) :
    (Value.map (merge lower upper)).at? path = some (.map (merge below above)) := by
  induction path generalizing lower upper with
  | nil =>
    obtain rfl := Value.map.inj (Option.some.inj inLower)
    obtain rfl := Value.map.inj (Option.some.inj inUpper)
    rfl
  | cons key path ih =>
    rw [at?_map_cons] at inLower inUpper ⊢
    obtain ⟨value, found, inUpper⟩ := Option.bind_eq_some_iff.mp inUpper
    obtain ⟨old, foundOld, inLower⟩ := Option.bind_eq_some_iff.mp inLower
    obtain ⟨other, inside⟩ := Keyed.exists_mem_of_get? found
    rw [get?_merge_eq keyed.proper.distinct, found, foundOld]
    cases path with
    | nil =>
      obtain rfl := Option.some.inj inLower
      obtain rfl := Option.some.inj inUpper
      rfl
    | cons next path =>
      cases value with
      | map value =>
        cases old with
        | map old => exact ih (keyed.values _ inside) inLower inUpper
        | _ => cases inLower
      | _ => cases inUpper

/-! ## Merging again -/

/-- Merging a value again over what it has been merged into changes nothing. -/
def IsAbsorbed (value : Value) : Prop :=
  ∀ below, mergeValue (some (mergeValue below value)) value = mergeValue below value

theorem merge_eq_self (each : ∀ entry ∈ upper, ∃ old, lower.get? entry.1 = some old ∧
    mergeValue (some old) entry.2 = old) : merge lower upper = lower := by
  induction upper with
  | nil => rfl
  | cons entry rest ih =>
    obtain ⟨key, value⟩ := entry
    rw [List.forall_mem_cons] at each
    obtain ⟨old, found, same⟩ := each.1
    rw [merge, mergeEntry, found, same, Keyed.put_of_get? found, ih each.2]

theorem merge_merge_of_values (proper : IsProper upper)
    (values : ∀ entry ∈ upper, IsAbsorbed entry.2) (base : Entries) :
    merge (merge base upper) upper = merge base upper := by
  refine merge_eq_self fun entry inside => ⟨_, ?_, values entry inside (base.get? entry.1)⟩
  rw [get?_merge_eq proper.distinct, proper.get?_of_mem inside]

theorem merge_self_of_values (proper : IsProper upper)
    (values : ∀ entry ∈ upper, IsAbsorbed entry.2) : merge upper upper = upper := by
  have again := merge_merge_of_values proper values []
  rwa [merge_nil proper.distinct] at again

theorem isAbsorbed_of_isKeyed {value : Value} (keyed : value.IsKeyed) : IsAbsorbed value := by
  induction keyed with
  | single plain =>
    intro below
    rw [mergeValue_of_not_map plain, mergeValue_of_not_map plain]
  | @map upper proper _ ih =>
    have merged (lower : Entries) :
        mergeValue (some (.map lower)) (.map upper) = .map (merge lower upper) := rfl
    intro below
    cases below with
    | none => exact congrArg Value.map (merge_self_of_values proper ih)
    | some old =>
      cases old with
      | map lower => rw [merged, merged, merge_merge_of_values proper ih]
      | _ => exact congrArg Value.map (merge_self_of_values proper ih)

theorem isKeyed_merge_of_values (found : ∀ entry ∈ upper, (entry.1 == entry.1) = true)
    (values : ∀ entry ∈ upper, ∀ below : Option Value, (∀ old, below = some old → old.IsKeyed) →
      (mergeValue below entry.2).IsKeyed)
    (base : (Value.map lower).IsKeyed) : (Value.map (merge lower upper)).IsKeyed := by
  induction upper generalizing lower with
  | nil => exact base
  | cons entry rest ih =>
    obtain ⟨key, value⟩ := entry
    rw [List.forall_mem_cons] at found values
    refine ih found.2 values.2 ?_
    rw [mergeEntry]
    cases base with
    | single plain => cases plain
    | map proper below =>
      refine .map (proper.put found.1 _) fun entry inside => ?_
      rcases Keyed.value_of_mem_put inside with new | old
      · rw [new]
        refine values.1 _ fun old here => ?_
        obtain ⟨other, member⟩ := Keyed.exists_mem_of_get? here
        exact below _ member
      · exact below entry old

theorem isKeyed_mergeValue {value : Value} (keyed : value.IsKeyed) :
    ∀ below : Option Value, (∀ old, below = some old → old.IsKeyed) →
      (mergeValue below value).IsKeyed := by
  induction keyed with
  | single plain =>
    intro below _
    rw [mergeValue_of_not_map plain]
    exact .single plain
  | map proper values ih =>
    intro below keyedBelow
    unfold mergeValue
    split
    · exact isKeyed_merge_of_values (Value.IsKeyed.map proper values).found ih (keyedBelow _ rfl)
    · exact .map proper values

end Merge

/-! ## Loaded mappings -/

theorem isKeyed_of_isScalar {value : Value} (single : Yaml.IsScalar value) : value.IsKeyed := by
  cases value with
  | map entries => exact single.elim
  | _ => exact .single rfl

theorem isKeyed_of_holds {content : List UInt8} :
    ∀ {value : Value}, Yaml.Holds content value → value.IsKeyed
  | .map _, holds => by
    refine .map holds.hasLeafKeys.proper fun entry inside => ?_
    by_cases single : Yaml.IsScalar entry.2
    · exact isKeyed_of_isScalar single
    · exact isKeyed_of_holds (holds.entry inside single)
  | .null, _ | .bool _, _ | .int _, _ | .float _, _ | .text _, _ | .bytes _, _ | .day _, _
  | .moment _, _ | .list _, _ | .tuple _, _ | .set _, _ | .enclosing _, _ => .single rfl
termination_by value => sizeOf value
decreasing_by
  have smaller := List.sizeOf_lt_of_mem inside
  cases entry
  simp at smaller ⊢
  omega

/-- All mappings that are loaded have proper keys, and so has what they are merged into. Of two such
mappings the upper one wins path by path: a path leads to what is no mapping in the upper one, or in
the lower one if the upper one leaves the path free. Wherever both have a mapping, the keys of the
lower one come first. Merging with nothing, or with what has been merged in before, changes
nothing. -/
theorem merge_is_right_biased :
    (∀ content values, Yaml.load content = .ok values → ∀ value ∈ values, ∀ entries,
      Yaml.IsPart (.map entries) value → (Value.map entries).IsKeyed) ∧
    ∀ lower upper : Entries, (Value.map lower).IsKeyed → (Value.map upper).IsKeyed →
      (Value.map (merge lower upper)).IsKeyed ∧
      (∀ path leaf, (Value.map (merge lower upper)).HoldsLeaf path leaf ↔
        (Value.map upper).HoldsLeaf path leaf ∨
          (Value.map upper).LeavesFree path ∧ (Value.map lower).HoldsLeaf path leaf) ∧
      (∀ path (below above : Entries), (Value.map lower).at? path = some (.map below) →
        (Value.map upper).at? path = some (.map above) →
        ∃ merged, (Value.map (merge lower upper)).at? path = some (.map merged) ∧
          Keyed.keys merged = below.keys ++ above.keys.filter fun key => !below.has key) ∧
      merge [] lower = lower ∧ merge lower [] = lower ∧ merge lower lower = lower ∧
      merge (merge lower upper) upper = merge lower upper := by
  refine ⟨fun content values read value member entries part =>
    isKeyed_of_holds (Yaml.holds_of_isPart read member part), fun lower upper below above => ?_⟩
  have properLower := below.proper
  have properUpper := above.proper
  refine ⟨?_, holdsLeaf_merge above, ?_, merge_nil properLower.distinct, rfl,
    merge_self_of_values properLower fun entry inside => isAbsorbed_of_isKeyed
      (below.values entry inside),
    merge_merge_of_values properUpper
      (fun entry inside => isAbsorbed_of_isKeyed (above.values entry inside))
      lower⟩
  · exact isKeyed_mergeValue above (some (.map lower)) fun old same => Option.some.inj same ▸ below
  · intro path belowThere aboveThere inLower inUpper
    exact ⟨_, at?_merge above inLower inUpper,
      keys_merge (isKeyed_of_at? above inUpper).proper.distinct _⟩

def twoConfigurations : String :=
  "build: {x: 1, y: 2}\n---\nbuild: {y: off, z: 3}\ntest: [a]\n"

def lowerConfiguration : Entries :=
  [(.text "build", .map [(.text "x", .int 1), (.text "y", .int 2), (.text "__line__", .int 1)]),
    (.text "__line__", .int 1)]

def upperConfiguration : Entries :=
  [(.text "build",
    .map [(.text "y", .bool false), (.text "z", .int 3), (.text "__line__", .int 3)]),
    (.text "test", .list [.text "a"]), (.text "__line__", .int 3)]

/-- What the lower of two loaded mappings has two levels down stays where the upper one has
nothing. -/
theorem loaded_configurations_overlay :
    (Value.map (merge lowerConfiguration upperConfiguration)).HoldsLeaf
        [.text "build", .text "x"] (.int 1) ∧
      (Value.map (merge lowerConfiguration upperConfiguration)).HoldsLeaf
        [.text "build", .text "y"] (.bool false) := by
  have loaded : Yaml.load twoConfigurations.toUTF8.data.toList =
      .ok [.map lowerConfiguration, .map upperConfiguration] :=
    Value.ok_of_identicalItems (by decide +kernel)
  have keyed := merge_is_right_biased.1 _ _ loaded
  have below := keyed _ List.mem_cons_self lowerConfiguration .whole
  have above := keyed _ (List.mem_cons_of_mem _ List.mem_cons_self) upperConfiguration .whole
  obtain ⟨-, leaves, -⟩ := merge_is_right_biased.2 _ _ below above
  refine ⟨(leaves _ _).mpr (.inr ⟨?_, rfl, rfl⟩), (leaves _ _).mpr (.inl ⟨rfl, rfl⟩)⟩
  refine leavesFree_cons.mpr fun value found => ?_
  obtain rfl := Option.some.inj found
  exact leavesFree_cons.mpr fun value found => by cases found

end Field

end SupplyLint
