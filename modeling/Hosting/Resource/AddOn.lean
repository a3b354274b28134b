import Hosting.Resource.Metadata

/-!
Add-ons of managed clusters, as records.
-/

namespace Hosting

/-- An add-on that is installed on a managed cluster. -/
structure AddOn where
  metadata : Metadata
  installNamespace : Option String := none
  deriving DecidableEq

namespace AddOn

def key (a : AddOn) : ObjectKey := a.metadata.key

open Json in
def ofJson? (v : Json) : Option AddOn := do
  match ← slots? ["metadata", "spec"] 0 v with
  | [metadata, spec] =>
    let metadata ← required Metadata.ofJson? metadata
    match ← required (slots? ["installNamespace"] 0) spec with
    | [install] => some { metadata := metadata, installNamespace := ← optional asString install }
    | _ => none
  | _ => none

def toJson (a : AddOn) : Json :=
  Kind.addOn.tagged [
    ("metadata", some a.metadata.toJson),
    ("spec", some (.ofPresent [("installNamespace", a.installNamespace.map .string)]))]

end AddOn
end Hosting
