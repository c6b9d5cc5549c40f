import SupplyLint.Text.Split

/-! Paths. A place is the list of names that leads from the top of a tree to an entry. A written
path may start anywhere, go up with `..` and name what is not there; resolving it against a place
needs no tree, since there are no links to follow. -/
set_option autoImplicit false

namespace SupplyLint

open SupplyLint.Text

/-- The names from the top of a tree down to an entry. -/
abbrev Place := List String

namespace Place

def text (place : Place) : String :=
  "/" ++ join "/" place

def name (place : Place) : String :=
  place.getLastD ""

/-- The names that lead from a place to another one at or below it. -/
def below? (root place : Place) : Option (List String) :=
  match root, place with
  | [], names => some names
  | _ :: _, [] => none
  | name :: root, other :: place => if name == other then below? root place else none

/-- Where one name leads; the top is above itself. -/
def step (place : Place) (name : String) : Place :=
  if name == ".." then place.dropLast else place ++ [name]

end Place

/-- A path as it is written. The anchor holds the slashes at its head; one or two of them are kept,
and more count as one. -/
structure WrittenPath where
  anchor : String
  names : List String

namespace WrittenPath

def anchorOf : List Char → String
  | '/' :: '/' :: '/' :: _ => "/"
  | '/' :: '/' :: _ => "//"
  | '/' :: _ => "/"
  | _ => ""

/-- Whether a piece between slashes leads anywhere. -/
def isName (piece : String) : Bool :=
  !piece.isEmpty && piece != "."

def ofText (text : String) : WrittenPath :=
  ⟨anchorOf text.toList, (splitAll '/' text).filter isName⟩

def ofPlace (place : Place) : WrittenPath :=
  ⟨"/", place⟩

def text (path : WrittenPath) : String :=
  if path.anchor.isEmpty && path.names.isEmpty then "."
  else path.anchor ++ join "/" path.names

def isAbsolute (path : WrittenPath) : Bool :=
  !path.anchor.isEmpty

def parent (path : WrittenPath) : WrittenPath :=
  { path with names := path.names.dropLast }

/-- The paths above a path, the nearest first. -/
def above (path : WrittenPath) : List WrittenPath :=
  (List.range path.names.length).reverse.map fun count =>
    { path with names := path.names.take count }

def child (path : WrittenPath) (name : String) : WrittenPath :=
  { path with names := path.names ++ [name] }

def start (path : WrittenPath) (base : Place) : Place :=
  if path.isAbsolute then [] else base

/-- The place that a path leads to from a base; each `..` takes one name away. -/
def resolve (path : WrittenPath) (base : Place) : Place :=
  path.names.foldl Place.step (path.start base)

/-- The same path with all names resolved, read at a base. -/
def resolved (path : WrittenPath) (base : Place) : WrittenPath :=
  ⟨if path.isAbsolute then path.anchor else "/", path.resolve base⟩

end WrittenPath

/-- What follows the last dot of a name, with the dot; a dot at either end of the name starts
nothing. -/
def extension (name : String) : String :=
  match cutLast '.' name.toList with
  | some (before, after) =>
    if before.isEmpty || after.isEmpty then "" else String.ofList ('.' :: after)
  | none => ""

theorem Place.below?_eq_some {root place : Place} {names : List String} :
    root.below? place = some names ↔ place = root ++ names := by
  induction root generalizing place with
  | nil => simp [below?]
  | cons name root ih =>
    cases place with
    | nil => simp [below?]
    | cons other place =>
      by_cases same : name = other
      · simp [below?, same, ih]
      · simp [below?, same, Ne.symm same]

end SupplyLint
