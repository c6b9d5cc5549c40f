/-! Keyed lists: pairs in the order in which their keys were first put in. Putting a value under a
key that is there replaces the value and keeps the first key and its place. -/
set_option autoImplicit false

namespace SupplyLint

abbrev Keyed (κ ν : Type) := List (κ × ν)

namespace Keyed

variable {κ ν : Type} [BEq κ]

def get? (entries : Keyed κ ν) (key : κ) : Option ν :=
  match entries with
  | [] => none
  | (k, v) :: rest => if k == key then some v else get? rest key

def has (entries : Keyed κ ν) (key : κ) : Bool :=
  (entries.get? key).isSome

def put (entries : Keyed κ ν) (key : κ) (value : ν) : Keyed κ ν :=
  match entries with
  | [] => [(key, value)]
  | (k, v) :: rest => if k == key then (k, value) :: rest else (k, v) :: put rest key value

def erase (entries : Keyed κ ν) (key : κ) : Keyed κ ν :=
  entries.filter fun entry => !(entry.1 == key)

/-- Puts the pairs of the second list into the first, one after another. -/
def putAll (entries more : Keyed κ ν) : Keyed κ ν :=
  more.foldl (fun current entry => current.put entry.1 entry.2) entries

def ofPairs (pairs : List (κ × ν)) : Keyed κ ν :=
  putAll [] pairs

def keys (entries : Keyed κ ν) : List κ :=
  entries.map (·.1)

def values (entries : Keyed κ ν) : List ν :=
  entries.map (·.2)

end Keyed

end SupplyLint
