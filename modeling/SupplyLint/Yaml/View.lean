import SupplyLint.Yaml.Construct

/-! The value that a document stands for, seen from its made nodes. -/
set_option autoImplicit false

namespace SupplyLint.Yaml

/-- The key of the entry that holds the line of a mapping. -/
def lineKey : String := "__line__"

def withLine (line : Option Nat) (entries : Entries) : Entries :=
  match line with
  | some line => entries.put (.text lineKey) (.int line)
  | none => entries

/-- The values seen so far by number: only those in which nothing is met again inside itself. -/
abbrev Seen := StateM (Array (Option Value))

abbrev View := Value × Bool

def View.collect (views : List View) (join : List Value → Value) : View :=
  (join (views.map (·.1)), views.all (·.2))

/-- The value of a made node inside others. A collection that is met again inside itself is only
named there. -/
def view (made : Array (Option Made)) (around : List NodeId) : Nat → NodeId → Seen View
  | 0, _ => return (.null, false)
  | budget + 1, id => do
    match (← get).getD id none with
    | some value => return (value, true)
    | none => do
      let seen ← match made.getD id none with
        | none => pure (.null, true)
        | some (.leaf value) => pure (value, true)
        | some (.set items) => pure (.set items, true)
        | some (.list items) =>
          if around.contains id then pure (.enclosing .list, false)
          else do
            let views ← items.mapM (view made (id :: around) budget)
            pure (View.collect views .list)
        | some (.pairs items) =>
          if around.contains id then pure (.enclosing .list, false)
          else do
            let views ← items.mapM fun (key, value) => do
              let key ← view made (id :: around) budget key
              let value ← view made (id :: around) budget value
              return View.collect [key, value] .tuple
            pure (View.collect views .list)
        | some (.map line entries) =>
          if around.contains id then pure (.enclosing .map, false)
          else do
            let views ← entries.mapM fun (key, value) => do
              let (value, whole) ← view made (id :: around) budget value
              return ((key, value), whole)
            pure (.map (withLine line (views.map (·.1))), views.all (·.2))
      if seen.2 then modify fun values => values.set! id (some seen.1)
      return seen

/-- The value of a document. The entries of a mapping at its root are seen each by itself. -/
def Document.value (document : Document) (marked : Bool) : Reading Value := do
  let made ← document.made marked
  let depth := document.nodes.size + 1
  let seen : Seen Value :=
    match made.getD document.root none with
    | some (.map line entries) => do
      let values ← entries.mapM fun (key, value) => do
        return (key, (← view made [] depth value).1)
      return .map (withLine line values)
    | _ => do return (← view made [] depth document.root).1
  return (seen.run (Array.replicate document.nodes.size none)).run.1

end SupplyLint.Yaml
