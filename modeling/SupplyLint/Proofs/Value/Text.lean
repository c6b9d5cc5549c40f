import SupplyLint.Pipeline.Field
import SupplyLint.Proofs.Outcome
import SupplyLint.Value.Text

/-! # Which values have a text

A value has a text exactly when no integer in it has too many digits. A field of
texts is read exactly when the values that it is written with have a text, and a
field of named values when its keys have one. -/
set_option autoImplicit false

namespace SupplyLint.Value

def isWritable (n : Int) : Bool :=
  n.natAbs < Nat.pow 10 Decimal.maxDigits

mutual

/-- Whether all integers in a value can be written. -/
def isShort : Value → Bool
  | .int n => isWritable n
  | .list items | .tuple items | .set items => areShort items
  | .map entries => haveShort entries
  | _ => true
termination_by structural x => x

def areShort : List Value → Bool
  | [] => true
  | item :: rest => isShort item && areShort rest
termination_by structural x => x

def haveShort : List (Value × Value) → Bool
  | [] => true
  | entry :: rest => entryShort entry && haveShort rest
termination_by structural x => x

def entryShort : Value × Value → Bool
  | (key, value) => isShort key && isShort value
termination_by structural x => x

end

theorem returns_integerText (n : Int) : Returns (integerText n) ↔ isWritable n = true := by
  unfold integerText
  split
  · next few => exact iff_of_true (returns_ok _) (decide_eq_true few)
  · next many => exact iff_of_false (not_returns_error _) (mt of_decide_eq_true many)

mutual

theorem returns_quoted : ∀ value : Value, Returns value.quoted ↔ value.isShort = true
  | .null | .bool _ | .float _ | .text _ | .bytes _ | .day _ | .moment _ => by
    simp [quoted, isShort]
  | .enclosing shape => by cases shape <;> simp [quoted, isShort]
  | .int n => by simpa [quoted, isShort] using returns_integerText n
  | .list items => by
    rw [quoted, isShort, ← returns_quotedItems items]
    exact returns_map _ _
  | .tuple items => by
    rw [quoted, isShort, returns_bind_of_forall, returns_quotedItems items]
    intro parts _
    split <;> simp
  | .set items => by
    rw [quoted, isShort, returns_bind_of_forall, returns_quotedItems items]
    intro parts _
    split <;> simp
  | .map entries => by
    rw [quoted, isShort, ← returns_quotedEntries entries]
    exact returns_map _ _

theorem returns_quotedItems : ∀ items : List Value, Returns (quotedItems items) ↔
    areShort items = true
  | [] => by simp [quotedItems, areShort]
  | item :: rest => by
    rw [quotedItems, areShort, Bool.and_eq_true, ← returns_quoted item,
      returns_bind_iff fun _ _ => ?_]
    rw [← returns_quotedItems rest]
    exact returns_map _ _

theorem returns_quotedEntries : ∀ entries : List (Value × Value),
    Returns (quotedEntries entries) ↔ haveShort entries = true
  | [] => by simp [quotedEntries, haveShort]
  | entry :: rest => by
    rw [quotedEntries, haveShort, Bool.and_eq_true, ← returns_quotedEntry entry,
      returns_bind_iff fun _ _ => ?_]
    rw [← returns_quotedEntries rest]
    exact returns_map _ _

theorem returns_quotedEntry : ∀ entry : Value × Value,
    Returns (quotedEntry entry) ↔ entryShort entry = true
  | (key, value) => by
    rw [quotedEntry, entryShort, Bool.and_eq_true, ← returns_quoted key,
      returns_bind_iff fun _ _ => ?_]
    rw [← returns_quoted value]
    exact returns_map _ _

end

@[simp] theorem returns_toText (value : Value) : Returns value.toText ↔ value.isShort = true := by
  cases value with
  | text s => simp [toText, isShort]
  | day date => simp [toText, isShort]
  | moment time => simp [toText, isShort]
  | _ => exact returns_quoted _

def AllShort (values : List Value) : Prop :=
  ∀ value ∈ values, value.isShort = true

theorem allShort_append {first second : List Value} :
    AllShort (first ++ second) ↔ AllShort first ∧ AllShort second :=
  List.forall_mem_append

theorem allShort_cons {value : Value} {rest : List Value} :
    AllShort (value :: rest) ↔ value.isShort = true ∧ AllShort rest :=
  List.forall_mem_cons

theorem allShort_nil : AllShort [] := by
  intro value member
  exact absurd member List.not_mem_nil

theorem allShort_singleton {value : Value} : AllShort [value] ↔ value.isShort = true := by
  rw [allShort_cons, and_iff_left allShort_nil]

theorem returns_toTexts (values : List Value) : Returns (toTexts values) ↔ AllShort values := by
  simp [toTexts, returns_mapM, AllShort]

end SupplyLint.Value

namespace SupplyLint.Field

def written : Value → List Value
  | .null => []
  | .map _ => []
  | .list items | .tuple items => items.filter isTextual
  | value => [value]

def names (value : Value) : List Value :=
  (entries value).keys

theorem returns_texts (value : Value) : Returns (texts value) ↔ Value.AllShort (written value) := by
  cases value with
  | null => simp [texts, written, Value.AllShort]
  | map entries => simp [texts, written, Value.AllShort]
  | list items => exact Value.returns_toTexts _
  | tuple items => exact Value.returns_toTexts _
  | _ => simp [texts, written, Value.AllShort]

theorem returns_byText (value : Value) : Returns (byText value) ↔ Value.AllShort (names value) := by
  rw [byText, returns_bind_pure, returns_mapM, Value.AllShort, names, Keyed.keys,
    List.forall_mem_map]
  refine forall₂_congr fun entry _ => ?_
  rw [returns_bind_pure, Value.returns_toText]

end SupplyLint.Field
