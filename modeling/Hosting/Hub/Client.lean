import Hosting.Hub.Recorder
import Hosting.Hub.Request

/-!
The hub behind an API server.  Each request is one exchange over HTTP, or is refused
before it when its object lacks a name or a namespace, or when these make no URI.
-/

namespace Hosting
namespace Hub

/-- A request over HTTP, and what its answer means. -/
structure Exchange (α : Type) where
  call : Call
  read : Reply → Except Error α

namespace Exchange

def clusterPath (name : String) : String := Call.item Kind.managedCluster none name

def workPath (k : ObjectKey) : String := Call.item Kind.manifestWork (some k.nspace) k.name

def secretPath (k : ObjectKey) : String := Call.item Kind.secret (some k.nspace) k.name

/-- A name that a path can end with. -/
def checked (name : String) (go : α) : Except Error α :=
  if name = "" then .error .unsent else .ok go

def nameOf (m : Metadata) (k : Kind) : Except Error String :=
  match m.name with
  | some n => .ok n
  | none => .error (.invalidObject (k.name ++ " missing name"))

def spaceOf (m : Metadata) (k : Kind) : Except Error String :=
  match m.nspace with
  | some n => .ok n
  | none => .error (.invalidObject (k.name ++ " missing namespace"))

/-- The version that an update was made from, as a patch names it. -/
def versionJson (m : Metadata) : Json :=
  match m.resourceVersion with
  | some v => .string v
  | none => .null

/-- Takes all finalizers off. -/
def releasePatch : Json := .ofMembers [("metadata", .ofMembers [("finalizers", .null)])]

def finalizersPatch (m : Metadata) : Json :=
  .ofMembers [("metadata", .ofMembers [
    ("resourceVersion", versionJson m),
    ("finalizers", .array ((m.finalizers.getD []).map .string))])]

def statusPatch (c : ManagedCluster) : Json :=
  .ofMembers [
    ("metadata", .ofMembers [("resourceVersion", versionJson c.metadata)]),
    ("status", match c.status with
      | some cs => ManagedCluster.statusJson cs
      | none => .null)]

/-- The exchange that a request is made by. -/
def ofRequest (now : Instant) (r : Recorder) : (q : Request) → Except Error (Exchange q.Value)
  | .getCluster name =>
    checked name ⟨.get (clusterPath name), Reply.found ManagedCluster.ofJson?⟩
  | .setFinalizers c => do
    let name ← nameOf c.metadata Kind.managedCluster
    checked name ⟨.patch (clusterPath name) (finalizersPatch c.metadata),
      Reply.value ManagedCluster.ofJson?⟩
  | .setStatus c => do
    let name ← nameOf c.metadata Kind.managedCluster
    checked name ⟨.patch (clusterPath name ++ "/status") (statusPatch c),
      Reply.value ManagedCluster.ofJson?⟩
  | .listWorks nspace selector =>
    .ok ⟨.list (Call.collection Kind.manifestWork (some nspace)) selector,
      Reply.value (items? ManifestWork.ofJson?)⟩
  | .getWork k => checked k.name ⟨.get (workPath k), Reply.found ManifestWork.ofJson?⟩
  | .createWork w => do
    let nspace ← spaceOf w.metadata Kind.manifestWork
    .ok ⟨.post (Call.collection Kind.manifestWork (some nspace)) w.toJson,
      Reply.value ManifestWork.ofJson?⟩
  | .replaceWork w => do
    let name ← nameOf w.metadata Kind.manifestWork
    let nspace ← spaceOf w.metadata Kind.manifestWork
    checked name ⟨.put (workPath ⟨nspace, name⟩) w.toJson, Reply.value ManifestWork.ofJson?⟩
  | .deleteWork k =>
    checked k.name ⟨.delete (workPath k),
      fun a => Reply.done (a.value (remains? ManifestWork.ofJson?))⟩
  | .releaseWork k =>
    checked k.name ⟨.patch (workPath k) releasePatch,
      fun a => Reply.done (a.value ManifestWork.ofJson?)⟩
  | .getSecret k => checked k.name ⟨.get (secretPath k), Reply.found Secret.ofJson?⟩
  | .replaceSecret s => do
    let name ← nameOf s.metadata Kind.secret
    let nspace ← spaceOf s.metadata Kind.secret
    checked name ⟨.put (secretPath ⟨nspace, name⟩) s.toJson, Reply.value Secret.ofJson?⟩
  | .deleteSecret k =>
    checked k.name ⟨.delete (secretPath k),
      fun a => Reply.done (a.value (remains? Secret.ofJson?))⟩
  | .listAddOns nspace =>
    .ok ⟨.list (Call.collection Kind.addOn (some nspace)) none,
      Reply.value (items? AddOn.ofJson?)⟩
  | .publish about e =>
    .ok ⟨(r.next now about e).call r.controller, fun _ => .ok ()⟩

end Exchange

/-- What a request comes to that cannot be sent: an event is given up, all else fails. -/
def Request.unsent : (q : Request) → q.Answer
  | .publish _ _ => .ok ()
  | _ => .error .unsent

namespace Recorder

/-- What is remembered after a request and its answer, if it had one: an event that was
taken. -/
def after (now : Instant) (r : Recorder) (a : Option Reply) : Request → Recorder
  | .publish about e =>
    match a.map (Reply.value eventOfJson?) with
    | some (.ok ()) => r.remember now (r.next now about e)
    | _ => r.fresh now
  | _ => r

end Recorder

/-- The answer to a request by a server that takes HTTP requests. -/
def serve (send : Call → σ → Reply × σ) (now : Instant) (q : Request) (s : Recorder × σ) :
    q.Answer × (Recorder × σ) :=
  match Exchange.ofRequest now s.1 q with
  | .error e => (.error e, s)
  | .ok x =>
    match x.call.sent? with
    | none => (q.unsent, (s.1.after now none q, s.2))
    | some call =>
      let (a, server) := send call s.2
      (x.read a, (s.1.after now (some a) q, server))

end Hub
end Hosting
