import Hosting.Names
import Hosting.Payload
import Hosting.Resource.ManifestWork
import Hosting.Text.Base64

/-!
The two works of a hosted cluster: the one that runs its agent on the hosting cluster, and
the one that hands the agent a kubeconfig.  A stored work is compared with what is wanted
of it, and brought up to it without touching what others have added.
-/

namespace Hosting

/-- Why a hosted work cannot be built. -/
inductive BuildError where
  | invalidPayload (index : Nat) (reason : String)
  | missingKubeconfig
  deriving DecidableEq, Repr

def BuildError.message : BuildError → String
  | .invalidPayload index reason =>
    "invalid import payload, document " ++ Text.decimal index ++ ": " ++ reason
  | .missingKubeconfig => "the kubeconfig is required for hosted mode and must not be empty"

namespace HostedWork

/-- Metadata of a work for `cluster` in the namespace of its hosting cluster. -/
def metadata (name hosting cluster : String) : Metadata where
  name := some name
  nspace := some hosting
  labels := some (.singleton Names.hostedCluster cluster)

/-- Which values the agent reports of the hosted agent's own object. -/
def readyFeedback (cluster : String) : ManifestConfig where
  resource := {
    group := Names.operatorGroup
    resource := "klusterlets"
    name := Names.klusterlet cluster }
  feedbackRules := [{ type := .jsonPaths, jsonPaths := [
    path "reason", path "status", path "message", path "lastTransitionTime",
    path "observedGeneration"] }]
where
  path (field : String) : JsonPath :=
    ⟨"ReadyToApply-" ++ field, ".status.conditions[?(@.type==\"ReadyToApply\")]." ++ field⟩

/-- The objects of a payload that a hosted work carries.  Namespaces stay out: they
belong to the hosting cluster and outlive the work. -/
def carried (objects : List Json) : List Json :=
  objects.filter fun v => (v.member? "kind").bind Json.string? != some "Namespace"

/-- The work that runs the agent of `cluster` on its hosting cluster. -/
def klusterlet (cluster hosting : String) (payload : Bytes) : Except BuildError ManifestWork :=
  match Payload.decodeAll payload with
  | .error r => .error (.invalidPayload r.index r.reason)
  | .ok objects => .ok {
      metadata := { metadata (Names.klusterletWork cluster) hosting cluster with
        annotations := some (.singleton Names.cleanupPriority "100") }
      spec := {
        manifests := carried objects
        deletion := some .foreground
        configs := [readyFeedback cluster] } }

def isAsciiBlank (b : UInt8) : Bool := b == 0x20 || b == 0x09 || b == 0x0A || b == 0x0C || b == 0x0D

/-- The secret through which the hosted agent reaches the managed cluster. -/
def kubeconfigSecret (cluster : String) (kubeconfig : Bytes) : Json :=
  .ofMembers [
    ("apiVersion", .string "v1"),
    ("kind", .string "Secret"),
    ("type", .string "Opaque"),
    ("metadata", .ofMembers [
      ("name", .string Names.externalKubeconfigSecret),
      ("namespace", .string (Names.klusterlet cluster))]),
    ("data", .ofMembers [
      (Names.kubeconfig, .string (String.ofList (Base64.encode kubeconfig)))])]

/-- The work that hands the hosted agent the way to the managed cluster.  Its object
is left in place when the work goes: the agent removes it after its last use. -/
def kubeconfig (cluster hosting : String) (content : Bytes) : Except BuildError ManifestWork :=
  if content.all isAsciiBlank then .error .missingKubeconfig
  else .ok {
    metadata := metadata (Names.kubeconfigWork cluster) hosting cluster
    spec := { manifests := [kubeconfigSecret cluster content], deletion := some .orphan } }

end HostedWork

namespace ManifestWork

/-- Every wanted entry is there. -/
def covers (have_ want : Option (Table String String)) : Bool :=
  (want.map (·.entries)).all fun es => es.all fun e => have_.bind (·.get? e.1) == some e.2

/-- The work already is as `desired` asks; what else it carries does not matter. -/
def fulfils (w desired : ManifestWork) : Bool :=
  w.spec.agrees desired.spec && covers w.metadata.labels desired.metadata.labels &&
    covers w.metadata.annotations desired.metadata.annotations

/-- The work with the spec, labels and annotations that `desired` asks for. -/
def updatedTo (w desired : ManifestWork) : ManifestWork :=
  let merged (old new : Option (Table String String)) : Option (Table String String) :=
    match new with
    | none => old
    | some t => some ((old.getD .empty).extend t)
  { w with
    spec := desired.spec
    metadata := { w.metadata with
      labels := merged w.metadata.labels desired.metadata.labels
      annotations := merged w.metadata.annotations desired.metadata.annotations } }

end ManifestWork
end Hosting
