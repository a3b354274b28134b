import Hosting.HostedWork
import Hosting.Kubeconfig
import Hosting.Resource.Secret

/-!
The two secrets of an import: the payload that brings the agent, and the credentials by
which it reaches the cluster, with the count of failed attempts to hand them over.
-/

namespace Hosting
namespace Secret

/-- The payload of an import secret, unless it is missing or empty. -/
def payload? (s : Secret) : Option Bytes := s.value? Names.importPayload

def payloadMissing : String := "the " ++ Names.importPayload ++ " is required"

/-- The way to the cluster that an auto-import secret gives: a kubeconfig, or one made
of its token and server; empty when it has neither. -/
def autoImportKubeconfig (s : Secret) : Bytes :=
  match s.value? Names.kubeconfig with
  | some bs => bs
  | none =>
    match s.value? Names.token, s.value? Names.server with
    | some token, some server =>
      let text (bs : Bytes) : String := String.ofList (Text.trim (Utf8.decodeLossy bs))
      Utf8.encode (Kubeconfig.tokenText (text server) (text token)).toList
    | _, _ => []

/-- The secret asks to be kept after the import. -/
def isKept (s : Secret) : Bool := (s.metadata.annotation? Names.keepAutoImport).isSome

def maxRetries : Nat := Nat.pow 2 32 - 1

/-- The failed attempts that the secret counts, none when it holds no number. -/
def retries (s : Secret) : Nat :=
  ((s.metadata.annotation? Names.autoImportRetry).bind fun v =>
    Text.natural? maxRetries (Text.trim v.toList)).getD 0

/-- The secret with one more failed attempt, and their number. -/
def retried (s : Secret) : Secret × Nat :=
  let n := min (s.retries + 1) maxRetries
  let annotations :=
    (s.metadata.annotations.getD .empty).insert Names.autoImportRetry (Text.decimal n)
  ({ s with metadata := { s.metadata with annotations := some annotations } }, n)

end Secret
end Hosting
