import SupplyLint.Distinct
import SupplyLint.Github.Workflow
import SupplyLint.Gitlab.Configuration

/-! Documents and the pipelines that they define. The documents of a repository are read in the
order of their paths. References to files are looked up among the documents first and then in the
repository. -/
set_option autoImplicit false

namespace SupplyLint

structure Document where
  platform : Platform
  path : String
  content : List UInt8

/-- Pipelines and what is wrong with the documents that they come from. -/
structure Normalized where
  pipelines : List Pipeline := []
  problems : List Problem := []

namespace Document

def unknownPlatform (value : Value) : Failure :=
  if value.isHashable then
    match value.quoted with
    | .ok shown => .configuration ("No normalizer for platform " ++ shown)
    | .error fault => .fault fault
  else .fault (.unhashable value.kind)

/-- The pipeline of a document. No pipeline can be read for an unknown platform. -/
def pipeline (resolve : Resolver) (document : Document) : Normalizing Pipeline :=
  match document.platform with
  | .github => Github.normalize resolve document.path document.content
  | .gitlab => Gitlab.normalize resolve document.path document.content
  | .other value => throw (unknownPlatform value)

def byPath (documents : List Document) : List Document :=
  documents.mergeSort fun x y => !(y.path < x.path)

/-- Looks a path up among documents, of which the last with the path counts, and then elsewhere. -/
def resolver (documents : List Document) (fallback : Resolver) : Resolver := fun path =>
  match documents.reverse.find? (·.path == path) with
  | some document => .ok (some document.content)
  | none => fallback path

/-- Reads documents one by one; a problem that is there already is not noted again. -/
def readEach (resolve : Resolver) : List Document → Normalized → Except Failure Normalized
  | [], normalized => .ok normalized
  | document :: rest, normalized =>
    match (document.pipeline resolve).run with
    | ⟨.error failure, _⟩ => .error failure
    | ⟨.ok pipeline, problems⟩ =>
      readEach resolve rest
        { pipelines := normalized.pipelines ++ [pipeline]
          problems := problems.foldl addNew normalized.problems }

def readAll (documents : List Document) (fallback : Resolver) : Except Failure Normalized :=
  let sorted := byPath documents
  readEach (resolver sorted fallback) sorted {}

end Document

end SupplyLint
