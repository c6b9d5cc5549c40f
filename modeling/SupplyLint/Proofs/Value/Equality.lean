import SupplyLint.Value.Basic

/-! # Equality of values

Values are equal as what they stand for: numbers across kinds by what they count,
moments by the instant. This is symmetric and transitive (`PartialEquivBEq`). It is
not reflexive, since what stands for an enclosing collection is equal to nothing.
Values of two kinds may be equal; `identical` tells apart what is written in two ways. -/
set_option autoImplicit false

namespace SupplyLint.Value

/-! ## Numbers and moments -/

theorem number?_of_same {a b : Value} {n : Int ⊕ Decimal.Binary64} (number : a.number? = some n)
    (equal : same a b = true) : b.number? = some n := by
  cases a with
  | bool _ | int _ | float _ =>
    cases b
    all_goals
      unfold same at equal
      rw [number] at equal
      split at equal
      · next x y left right => rw [right, Option.some.inj left, eq_of_beq equal]
      · next x y left right => rw [right, Option.some.inj left, eq_of_beq equal]
      · cases equal
  | _ => cases number

theorem same_of_number? {a b : Value} {n : Int ⊕ Decimal.Binary64} (first : a.number? = some n)
    (second : b.number? = some n) : same a b = true := by
  cases a with
  | bool _ | int _ | float _ =>
    cases b with
    | bool _ | int _ | float _ =>
      unfold same
      rw [first, second]
      cases n <;> simp
    | _ => cases second
  | _ => cases first

theorem exists_number_of_float (x : Decimal.Binary64) : ∃ n, (float x).number? = some n := by
  simp only [number?]
  split
  · exact ⟨_, rfl⟩
  · exact ⟨_, rfl⟩

theorem moment_refl (x : Moment) : x.same x = true := by
  obtain ⟨_, _, _, _, _, a⟩ := x
  cases a <;> simp [Moment.same]

theorem moment_symm {x y : Moment} (equal : x.same y = true) : y.same x = true := by
  obtain ⟨_, _, _, _, _, a⟩ := x
  obtain ⟨_, _, _, _, _, b⟩ := y
  cases a <;> cases b <;> simp_all [Moment.same]

theorem moment_trans {x y z : Moment} (first : x.same y = true) (second : y.same z = true) :
    x.same z = true := by
  obtain ⟨_, _, _, _, _, a⟩ := x
  obtain ⟨_, _, _, _, _, b⟩ := y
  obtain ⟨_, _, _, _, _, c⟩ := z
  cases a <;> cases b <;> cases c <;> simp_all [Moment.same]

/-! ## Symmetry -/

mutual

theorem same_symm : ∀ {a b : Value}, same a b = true → same b a = true
  | .list xs, b, equal => by
    cases b with
    | list ys => exact sameItems_symm equal
    | _ => cases equal
  | .tuple xs, b, equal => by
    cases b with
    | tuple ys => exact sameItems_symm equal
    | _ => cases equal
  | .set xs, b, equal => by
    cases b with
    | set ys => exact sameItems_symm equal
    | _ => cases equal
  | .map xs, b, equal => by
    cases b with
    | map ys => exact sameEntries_symm equal
    | _ => cases equal
  | .moment x, b, equal => by
    cases b with
    | moment y => exact moment_symm equal
    | _ => cases equal
  | .bool _, _, equal => same_of_number? (number?_of_same rfl equal) rfl
  | .int _, _, equal => same_of_number? (number?_of_same rfl equal) rfl
  | .float x, _, equal =>
    have ⟨_, number⟩ := exists_number_of_float x
    same_of_number? (number?_of_same number equal) number
  | .null, b, equal | .text _, b, equal | .bytes _, b, equal | .day _, b, equal
  | .enclosing _, b, equal => by
    cases b <;> simp_all [same, number?]

theorem sameItems_symm : ∀ {xs ys : List Value}, sameItems xs ys = true → sameItems ys xs = true
  | [], [], _ => rfl
  | _ :: _, _ :: _, equal => by
    obtain ⟨first, rest⟩ := Bool.and_eq_true_iff.mp equal
    exact Bool.and_eq_true_iff.mpr ⟨same_symm first, sameItems_symm rest⟩
  | [], _ :: _, equal | _ :: _, [], equal => by cases equal

theorem sameEntries_symm : ∀ {xs ys : List (Value × Value)},
    sameEntries xs ys = true → sameEntries ys xs = true
  | [], [], _ => rfl
  | _ :: _, _ :: _, equal => by
    obtain ⟨first, rest⟩ := Bool.and_eq_true_iff.mp equal
    exact Bool.and_eq_true_iff.mpr ⟨sameEntry_symm first, sameEntries_symm rest⟩
  | [], _ :: _, equal | _ :: _, [], equal => by cases equal

theorem sameEntry_symm : ∀ {x y : Value × Value}, sameEntry x y = true → sameEntry y x = true
  | (_, _), (_, _), equal => by
    obtain ⟨key, value⟩ := Bool.and_eq_true_iff.mp equal
    exact Bool.and_eq_true_iff.mpr ⟨same_symm key, same_symm value⟩

end

/-! ## Transitivity -/

mutual

theorem same_trans : ∀ {a b c : Value}, same a b = true → same b c = true → same a c = true
  | .list xs, b, c, first, second => by
    cases b with
    | list ys =>
      cases c with
      | list zs => exact sameItems_trans first second
      | _ => cases second
    | _ => cases first
  | .tuple xs, b, c, first, second => by
    cases b with
    | tuple ys =>
      cases c with
      | tuple zs => exact sameItems_trans first second
      | _ => cases second
    | _ => cases first
  | .set xs, b, c, first, second => by
    cases b with
    | set ys =>
      cases c with
      | set zs => exact sameItems_trans first second
      | _ => cases second
    | _ => cases first
  | .map xs, b, c, first, second => by
    cases b with
    | map ys =>
      cases c with
      | map zs => exact sameEntries_trans first second
      | _ => cases second
    | _ => cases first
  | .moment x, b, c, first, second => by
    cases b with
    | moment y =>
      cases c with
      | moment z => exact moment_trans first second
      | _ => cases second
    | _ => cases first
  -- Numbers of all kinds are compared by what they count.
  | .bool _, _, _, first, second => same_of_number? rfl
      (number?_of_same (number?_of_same rfl first) second)
  | .int _, _, _, first, second => same_of_number? rfl
      (number?_of_same (number?_of_same rfl first) second)
  | .float x, _, _, first, second =>
    have ⟨_, number⟩ := exists_number_of_float x
    same_of_number? number (number?_of_same (number?_of_same number first) second)
  | .null, b, _, first, second => by
    cases b with
    | null => exact second
    | _ => cases first
  | .text _, b, _, first, second => by
    cases b with
    | text _ => exact eq_of_beq first ▸ second
    | _ => cases first
  | .bytes _, b, _, first, second => by
    cases b with
    | bytes _ => exact eq_of_beq first ▸ second
    | _ => cases first
  | .day _, b, _, first, second => by
    cases b with
    | day _ => exact eq_of_beq first ▸ second
    | _ => cases first
  | .enclosing _, b, _, first, _ => by cases b <;> cases first

theorem sameItems_trans : ∀ {xs ys zs : List Value},
    sameItems xs ys = true → sameItems ys zs = true → sameItems xs zs = true
  | [], [], _, _, second => second
  | _ :: _, _ :: _, _ :: _, first, second => by
    obtain ⟨own, rest⟩ := Bool.and_eq_true_iff.mp first
    obtain ⟨next, others⟩ := Bool.and_eq_true_iff.mp second
    exact Bool.and_eq_true_iff.mpr ⟨same_trans own next, sameItems_trans rest others⟩
  | _ :: _, _ :: _, [], _, second => by cases second
  | [], _ :: _, _, first, _ | _ :: _, [], _, first, _ => by cases first

theorem sameEntries_trans : ∀ {xs ys zs : List (Value × Value)},
    sameEntries xs ys = true → sameEntries ys zs = true → sameEntries xs zs = true
  | [], [], _, _, second => second
  | _ :: _, _ :: _, _ :: _, first, second => by
    obtain ⟨own, rest⟩ := Bool.and_eq_true_iff.mp first
    obtain ⟨next, others⟩ := Bool.and_eq_true_iff.mp second
    exact Bool.and_eq_true_iff.mpr ⟨sameEntry_trans own next, sameEntries_trans rest others⟩
  | _ :: _, _ :: _, [], _, second => by cases second
  | [], _ :: _, _, first, _ | _ :: _, [], _, first, _ => by cases first

theorem sameEntry_trans : ∀ {x y z : Value × Value},
    sameEntry x y = true → sameEntry y z = true → sameEntry x z = true
  | (_, _), (_, _), (_, _), first, second => by
    obtain ⟨key, value⟩ := Bool.and_eq_true_iff.mp first
    obtain ⟨nextKey, nextValue⟩ := Bool.and_eq_true_iff.mp second
    exact Bool.and_eq_true_iff.mpr ⟨same_trans key nextKey, same_trans value nextValue⟩

end

instance : PartialEquivBEq Value where
  symm := same_symm
  trans := same_trans

/-! ## Values that are one value -/

mutual

/-- Whether two values are one. -/
def identical : Value → Value → Bool
  | .null, .null => true
  | .bool a, .bool b => a == b
  | .int m, .int n => m == n
  | .float x, .float y => decide (x = y)
  | .text s, .text t => s == t
  | .bytes a, .bytes b => a == b
  | .day a, .day b => decide (a = b)
  | .moment a, .moment b => decide (a = b)
  | .list xs, .list ys => identicalItems xs ys
  | .tuple xs, .tuple ys => identicalItems xs ys
  | .set xs, .set ys => identicalItems xs ys
  | .map xs, .map ys => identicalEntries xs ys
  | .enclosing a, .enclosing b => decide (a = b)
  | _, _ => false
termination_by structural x => x

def identicalItems : List Value → List Value → Bool
  | [], [] => true
  | x :: xs, y :: ys => identical x y && identicalItems xs ys
  | _, _ => false
termination_by structural xs => xs

def identicalEntries : List (Value × Value) → List (Value × Value) → Bool
  | [], [] => true
  | x :: xs, y :: ys => identicalEntry x y && identicalEntries xs ys
  | _, _ => false
termination_by structural xs => xs

def identicalEntry : Value × Value → Value × Value → Bool
  | (k, v), (l, w) => identical k l && identical v w
termination_by structural x => x

end

mutual

theorem eq_of_identical : ∀ {a b : Value}, identical a b = true → a = b
  | .list xs, b, same => by
    cases b with
    | list ys => exact congrArg list (eq_of_identicalItems same)
    | _ => cases same
  | .tuple xs, b, same => by
    cases b with
    | tuple ys => exact congrArg tuple (eq_of_identicalItems same)
    | _ => cases same
  | .set xs, b, same => by
    cases b with
    | set ys => exact congrArg set (eq_of_identicalItems same)
    | _ => cases same
  | .map xs, b, same => by
    cases b with
    | map ys => exact congrArg map (eq_of_identicalEntries same)
    | _ => cases same
  | .null, b, same | .bool _, b, same | .int _, b, same | .float _, b, same | .text _, b, same
  | .bytes _, b, same | .day _, b, same | .moment _, b, same | .enclosing _, b, same => by
    cases b <;> simp_all [identical]

theorem eq_of_identicalItems : ∀ {xs ys : List Value}, identicalItems xs ys = true → xs = ys
  | [], [], _ => rfl
  | _ :: _, _ :: _, same => by
    obtain ⟨first, rest⟩ := Bool.and_eq_true_iff.mp same
    rw [eq_of_identical first, eq_of_identicalItems rest]
  | [], _ :: _, same | _ :: _, [], same => by cases same

theorem eq_of_identicalEntries : ∀ {xs ys : List (Value × Value)},
    identicalEntries xs ys = true → xs = ys
  | [], [], _ => rfl
  | _ :: _, _ :: _, same => by
    obtain ⟨first, rest⟩ := Bool.and_eq_true_iff.mp same
    rw [eq_of_identicalEntry first, eq_of_identicalEntries rest]
  | [], _ :: _, same | _ :: _, [], same => by cases same

theorem eq_of_identicalEntry : ∀ {x y : Value × Value}, identicalEntry x y = true → x = y
  | (_, _), (_, _), same => by
    obtain ⟨key, value⟩ := Bool.and_eq_true_iff.mp same
    rw [eq_of_identical key, eq_of_identical value]

end

theorem ok_of_identicalItems {ε : Type} {read : Except ε (List Value)} {values : List Value}
    (same : read.toOption.any (identicalItems · values) = true) : read = .ok values := by
  cases read with
  | error failure => cases same
  | ok others => rw [eq_of_identicalItems same]

end SupplyLint.Value
