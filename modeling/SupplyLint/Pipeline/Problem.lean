/-! Problems: what is wrong with a document and does not keep the rest of it from being read. A
reading carries its problems along in the order in which they are met. -/
set_option autoImplicit false

namespace SupplyLint

inductive ProblemKind
  | unparsable
  | unknownField
  | unresolved
  deriving DecidableEq

def ProblemKind.text : ProblemKind → String
  | .unparsable => "UnparsableDocument"
  | .unknownField => "UnknownField"
  | .unresolved => "ReferenceResolutionFailure"

structure Problem where
  kind : ProblemKind
  path : String
  message : String
  location : String := ""
  deriving DecidableEq

def Problem.text (problem : Problem) : String :=
  let place :=
    if problem.location = "" then problem.path else problem.path ++ ":" ++ problem.location
  problem.kind.text ++ " in " ++ place ++ ": " ++ problem.message

structure Noted (α : Type) where
  value : α
  problems : List Problem := []

namespace Noted

instance : Monad Noted where
  pure value := ⟨value, []⟩
  bind first next :=
    let second := next first.value
    ⟨second.value, first.problems ++ second.problems⟩

instance : LawfulMonad Noted :=
  LawfulMonad.mk' Noted
    (fun x => by cases x; simp [Functor.map])
    (fun x f => by simp [Pure.pure, Bind.bind])
    (fun x f g => by simp [Bind.bind])

def note (kind : ProblemKind) (path message location : String) : Noted Unit :=
  ⟨(), [⟨kind, path, message, location⟩]⟩

@[simp] theorem value_pure {α : Type} (x : α) : (pure x : Noted α).value = x := rfl

@[simp] theorem problems_pure {α : Type} (x : α) : (pure x : Noted α).problems = [] := rfl

@[simp] theorem value_bind {α β : Type} (x : Noted α) (f : α → Noted β) :
    (x >>= f).value = (f x.value).value := rfl

@[simp] theorem problems_bind {α β : Type} (x : Noted α) (f : α → Noted β) :
    (x >>= f).problems = x.problems ++ (f x.value).problems := rfl

@[simp] theorem value_map {α β : Type} (f : α → β) (x : Noted α) :
    (f <$> x).value = f x.value := rfl

@[simp] theorem problems_map {α β : Type} (f : α → β) (x : Noted α) :
    (f <$> x).problems = x.problems := by
  rw [← bind_pure_comp, problems_bind]
  exact List.append_nil _

@[simp] theorem problems_note (kind : ProblemKind) (path message location : String) :
    (note kind path message location).problems = [⟨kind, path, message, location⟩] := rfl

end Noted

end SupplyLint
