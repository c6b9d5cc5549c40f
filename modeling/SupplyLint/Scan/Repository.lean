import SupplyLint.Pipeline.Document

/-! Repositories as a scan sees them. A repository gives its pipeline files one after another; while
it does, it may run commands, remove its work directory, find the scan cancelled, or fail. All this
is a list of happenings, of which those after a failure never come about. -/
set_option autoImplicit false

namespace SupplyLint

/-- A program that a repository runs, with the seconds it may take and what is set for it. -/
structure Command where
  arguments : List String
  timeout : Nat
  environment : List (String × String)

inductive Item
  | document (document : Document)
  | unread (platform : Platform) (path message : String)

def Item.path : Item → String
  | .document found => found.path
  | .unread _ path _ => path

inductive Happening
  | item (item : Item)
  | check
  | cancel
  | command (command : Command)
  | removeWorkdir
  | fail (failure : Failure)

/-- What a repository does when it is asked for its files depends on whether it has a work
directory. -/
structure Repository where
  name : String
  needsClone : Bool := false
  documents : Bool → List Happening
  read : Resolver := Source.none

inductive WorkDir
  | none
  | present
  | removed
  deriving DecidableEq

structure Scene where
  cancelled : Bool := false
  workdir : WorkDir := .none
  commands : List Command := []

namespace Scene

def cancelledFailure (repository : String) : Failure :=
  .cancelled "scan cancelled" repository

def checkCancelled (scene : Scene) (repository : String) : Except Failure Unit :=
  if scene.cancelled then .error (cancelledFailure repository) else .ok ()

def removeWorkdir (scene : Scene) : Scene :=
  match scene.workdir with
  | .present => { scene with workdir := .removed }
  | _ => scene

/-- What a happening does to the scene, and the item that it gives. -/
def after (repository : String) (scene : Scene) : Happening → Scene × Except Failure (Option Item)
  | .item item => (scene, .ok (some item))
  | .check => (scene, (scene.checkCancelled repository).map fun _ => none)
  | .cancel => ({ scene with cancelled := true }, .ok none)
  | .command command => ({ scene with commands := scene.commands ++ [command] }, .ok none)
  | .removeWorkdir => (scene.removeWorkdir, .ok none)
  | .fail failure => (scene, .error failure)

end Scene

/-- The items that happenings give up to the first failure. -/
def itemsOf (repository : String) : List Happening → Scene → List Item × Option Failure
  | [], _ => ([], none)
  | happening :: rest, scene =>
    match scene.after repository happening with
    | (_, .error failure) => ([], some failure)
    | (next, .ok item) =>
      let (items, failure) := itemsOf repository rest next
      (item.toList ++ items, failure)

end SupplyLint
