import Hosting.Resource.Metadata
import Hosting.Text.Base64

/-!
Secrets, as records.
-/

namespace Hosting

/-- Named octets that only few may read. -/
structure Secret where
  metadata : Metadata
  data : Option (Table String Bytes) := none
  /-- Texts whose octets the hub is to enter into the data. -/
  stringData : Option (Table String String) := none
  type : Option String := none
  immutable : Option Bool := none
  deriving DecidableEq

namespace Secret

def key (s : Secret) : ObjectKey := s.metadata.key

/-- The octets under a name, unless there are none. -/
def value? (s : Secret) (name : String) : Option Bytes :=
  match s.data.bind (·.get? name) with
  | some (b :: bs) => some (b :: bs)
  | _ => none

open Json in
def ofJson? (v : Json) : Option Secret := do
  match ← members?
    ["apiVersion", "kind", "metadata", "data", "stringData", "type", "immutable"] v with
  | [version, kind, metadata, data, stringData, type, immutable] =>
    Kind.tagFits Kind.secret.apiVersion version
    Kind.tagFits Kind.secret.name kind
    some {
      metadata := (← optional Metadata.ofJson? metadata).getD {}
      data := ← optional (asTable fun b => asString b >>= fun s => Base64.decode? s.toList) data
      stringData := ← optional (asTable asString) stringData
      type := ← optional asString type
      immutable := ← optional asBool immutable }
  | _ => none

def toJson (s : Secret) : Json :=
  Kind.secret.tagged [
    ("metadata", some s.metadata.toJson),
    ("data", s.data.map fun t =>
      .object (t.entries.map fun e => (e.1, .string (String.ofList (Base64.encode e.2))))),
    ("stringData", s.stringData.map .ofTable),
    ("type", s.type.map .string),
    ("immutable", s.immutable.map .bool)]

end Secret
end Hosting
