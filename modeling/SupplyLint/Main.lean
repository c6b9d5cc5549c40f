import SupplyLint.CommandLine.Run

/-! The program. The files that it may look at are named on standard input, one path a line; it
opens no others and runs no other program, so a repository has to be cloned before. -/
set_option autoImplicit false

namespace SupplyLint.Main

open SupplyLint.CommandLine

def workingFolder : IO Place := do
  let path := (← IO.getEnv "PWD").getD "/"
  return (WrittenPath.ofText (Text.keptText path)).resolve []

def pathOf (line : String) : String :=
  String.ofList (Text.trimEndBy (fun c => c == '\n' || c == '\r') line.toList)

partial def readPaths (input : IO.FS.Stream) (paths : List String) : IO (List String) := do
  let line ← input.getLine
  if line.isEmpty then return paths.reverse
  readPaths input (pathOf line :: paths)

def readFiles (working : Place) : List String → Tree → IO Tree
  | [], tree => return tree
  | path :: rest, tree => do
    let content ← IO.FS.readBinFile path
    readFiles working rest
      (tree.addFile ((WrittenPath.ofText (Text.keptText path)).resolve working) content.toList)

def surroundings : IO Surroundings := do
  let working ← workingFolder
  let paths ← readPaths (← IO.getStdin) []
  let tree ← readFiles working (paths.filter (!·.isEmpty)) ((Tree.addFolder {} working))
  return {
    tree := tree
    working := working
    token := Text.keptText ((← IO.getEnv "GH_TOKEN").getD "")
    clone := .notRun "no program can be run" }

end SupplyLint.Main

def main (words : List String) : IO UInt32 := do
  let exit :=
    SupplyLint.CommandLine.run (← SupplyLint.Main.surroundings) (words.map SupplyLint.Text.keptText)
  (← IO.getStdout).putStr (SupplyLint.Text.shownText exit.out)
  (← IO.getStderr).putStr (SupplyLint.Text.shownText exit.err)
  match exit.failure with
  | some failure => (← IO.getStderr).putStrLn (SupplyLint.Text.shownText failure.message)
  | none => pure ()
  return exit.status.toUInt32
