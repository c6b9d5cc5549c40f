import SupplyLint.Proofs.Value.Text
import SupplyLint.Value.Json

/-! # Which values have a JSON form

A value has a JSON form exactly when it consists of texts, numbers, truth values
and null values in lists and mappings, and every integer in it can be written.
Such a value has a text as well. -/
set_option autoImplicit false

namespace SupplyLint.Value

def isMemberName : Value → Bool
  | .text _ | .float _ | .bool _ | .null => true
  | .int n => isWritable n
  | _ => false

mutual

def isRepresentable : Value → Bool
  | .null | .bool _ | .float _ | .text _ => true
  | .int n => isWritable n
  | .list items | .tuple items => areRepresentable items
  | .map entries => haveRepresentable entries
  | .bytes _ | .day _ | .moment _ | .set _ | .enclosing _ => false
termination_by structural x => x

def areRepresentable : List Value → Bool
  | [] => true
  | item :: rest => isRepresentable item && areRepresentable rest
termination_by structural x => x

def haveRepresentable : List (Value × Value) → Bool
  | [] => true
  | entry :: rest => entryRepresentable entry && haveRepresentable rest
termination_by structural x => x

def entryRepresentable : Value × Value → Bool
  | (key, value) => isMemberName key && isRepresentable value
termination_by structural x => x

end

theorem returns_keyText (key : Value) : Returns key.keyText ↔ key.isMemberName = true := by
  cases key with
  | int n => exact returns_integerText n
  | _ => simp [keyText, isMemberName]

mutual

theorem returns_toJson : ∀ value : Value, Returns value.toJson ↔ value.isRepresentable = true
  | .null | .bool _ | .float _ | .text _ => by simp [toJson, isRepresentable]
  | .bytes _ | .day _ | .moment _ | .set _ | .enclosing _ => by simp [toJson, isRepresentable]
  | .int n => by
    rw [toJson, isRepresentable, ← returns_integerText n]
    exact returns_except_map _ _
  | .list items | .tuple items => by
    rw [toJson, isRepresentable, ← returns_itemsJson items]
    exact returns_except_map _ _
  | .map entries => by
    rw [toJson, isRepresentable, ← returns_entriesJson entries]
    exact returns_except_map _ _

theorem returns_itemsJson : ∀ items : List Value,
    Returns (itemsJson items) ↔ areRepresentable items = true
  | [] => by simp [itemsJson, areRepresentable]
  | item :: rest => by
    rw [itemsJson, areRepresentable, Bool.and_eq_true, ← returns_toJson item,
      returns_bind_iff fun _ _ => ?_]
    rw [← returns_itemsJson rest]
    exact returns_map _ _

theorem returns_entriesJson : ∀ entries : List (Value × Value),
    Returns (entriesJson entries) ↔ haveRepresentable entries = true
  | [] => by simp [entriesJson, haveRepresentable]
  | entry :: rest => by
    rw [entriesJson, haveRepresentable, Bool.and_eq_true, ← returns_entryJson entry,
      returns_bind_iff fun _ _ => ?_]
    rw [← returns_entriesJson rest]
    exact returns_map _ _

theorem returns_entryJson : ∀ entry : Value × Value,
    Returns (entryJson entry) ↔ entryRepresentable entry = true
  | (key, value) => by
    rw [entryJson, entryRepresentable, Bool.and_eq_true, ← returns_keyText key,
      returns_bind_iff fun _ _ => ?_]
    rw [← returns_toJson value]
    exact returns_map _ _

end

theorem isShort_of_isMemberName {key : Value} (named : key.isMemberName = true) :
    key.isShort = true := by
  cases key with
  | int n => exact named
  | null | bool | float | text => rfl
  | _ => cases named

mutual

theorem isShort_of_isRepresentable : ∀ value : Value,
    value.isRepresentable = true → value.isShort = true
  | .null | .bool _ | .float _ | .text _ => fun _ => rfl
  | .bytes _ | .day _ | .moment _ | .set _ | .enclosing _ => fun never => by cases never
  | .int _ => fun written => written
  | .list items | .tuple items => areShort_of_areRepresentable items
  | .map entries => haveShort_of_haveRepresentable entries

theorem areShort_of_areRepresentable : ∀ items : List Value,
    areRepresentable items = true → areShort items = true
  | [] => fun _ => rfl
  | item :: rest => by
    rw [areRepresentable, areShort, Bool.and_eq_true, Bool.and_eq_true]
    exact And.imp (isShort_of_isRepresentable item) (areShort_of_areRepresentable rest)

theorem haveShort_of_haveRepresentable : ∀ entries : List (Value × Value),
    haveRepresentable entries = true → haveShort entries = true
  | [] => fun _ => rfl
  | entry :: rest => by
    rw [haveRepresentable, haveShort, Bool.and_eq_true, Bool.and_eq_true]
    exact And.imp (entryShort_of_entryRepresentable entry) (haveShort_of_haveRepresentable rest)

theorem entryShort_of_entryRepresentable : ∀ entry : Value × Value,
    entryRepresentable entry = true → entryShort entry = true
  | (key, value) => by
    rw [entryRepresentable, entryShort, Bool.and_eq_true, Bool.and_eq_true]
    exact And.imp isShort_of_isMemberName (isShort_of_isRepresentable value)

end

end SupplyLint.Value
