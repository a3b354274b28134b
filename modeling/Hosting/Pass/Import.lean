import Hosting.AutoImport
import Hosting.Pass
import Hosting.Work

/-!
The import of a live cluster: the agent is brought to the hosting cluster, then it is
handed the way to the managed cluster.  Each step that has to wait for someone else is
recorded as a condition and ends the pass without a failure.
-/

namespace Hosting
namespace Pass

/-- Why a cluster cannot host another one's agent. -/
def hostingProblem? (hosting : String) : Option ManagedCluster → Option String
  | none => some "Hosting cluster is not a managed cluster of the hub"
  | some h =>
    if h.isDeleting then some ("The hosting cluster " ++ hosting ++ " is being deleted") else none

/-- Count a failed attempt in the auto-import secret. -/
def countRetry (s : Secret) : Pass Unit := do
  let _ ← ask (.replaceSecret s.retried.1)

def waitForKubeconfig : String :=
  "Wait for the klusterlet to apply the external managed kubeconfig"

/-- What the cluster shows without an auto-import secret. -/
def withoutSecret (now : Instant) (name : String) (works : ClusterWorks) (ready : Bool) :
    Condition :=
  if ready then Progress.succeeded now
  else Progress.pending now Progress.importing <|
    if works.hasHosted (Names.kubeconfigWork name) then waitForKubeconfig
    else "Wait for the user to provide the external managed kubeconfig"

/-- Use up the auto-import secret, unless it is to be kept. -/
def consume (c : ManagedCluster) (s : Secret) : Pass Unit := do
  if s.isKept then return
  ask (.deleteSecret ⟨c.anyName, Names.autoImportSecret⟩)
  publish c (.normal "AutoImportSecretDeleted" "Reconcile"
    ("The managed cluster " ++ c.anyName ++ " is imported, delete its auto-import secret"))

/-- Hand the agent the way to the cluster that the auto-import secret gives.  When that
fails, the failed attempt is counted in the secret. -/
def handOver (ctx : Context) (c : ManagedCluster) (hosting : String) (ready : Bool) (s : Secret) :
    Pass Unit := do
  match HostedWork.kubeconfig c.anyName hosting s.autoImportKubeconfig with
  | .error e =>
    failWith ctx c (Progress.pending ctx.now Progress.importFailed
      ("Build external managed kubeconfig manifest work failed, error: " ++ e.message)) (.build e)
  | .ok desired =>
    match ← attempt (applyWork c desired) with
    | .error f =>
      let recorded ← attempt (setConditions ctx c [Progress.notHandedOver ctx.now
        ("Apply external managed kubeconfig to the hosting cluster failed, error: " ++ f.message)])
      let counted ← attempt (countRetry s)
      throw (f.withMore ([recorded, counted].filterMap fun
        | .ok _ => none
        | .error g => some g))
    | .ok _ =>
      let state := if ready then Progress.succeeded ctx.now
        else Progress.pending ctx.now Progress.importing waitForKubeconfig
      setConditions ctx c [Progress.handedOver ctx.now, state]
      consume c s

/-- Bring the agent to the hosting cluster, and go on with the auto-import secret once it
is there. -/
def bringAgent (ctx : Context) (c : ManagedCluster) (works : ClusterWorks) (hosting : String)
    (payload : Bytes) : Pass Unit := do
  match HostedWork.klusterlet c.anyName hosting payload with
  | .error e =>
    failWith ctx c (Progress.pending ctx.now Progress.importFailed
      ("Import secret is invalid, error: " ++ e.message)) (.build e)
  | .ok desired =>
    match ← attempt (applyWork c desired) with
    | .error f =>
      failWith ctx c (Progress.pending ctx.now Progress.importing
        ("Apply importing resources to the hosting cluster failed, error: " ++ f.message)) f
    | .ok work =>
      syncFinalizer ctx c 1
      let ready := work.isReadyToApply c.anyName
      match ← ask (.getSecret ⟨c.anyName, Names.autoImportSecret⟩) with
      | none => setConditions ctx c [withoutSecret ctx.now c.anyName works ready]
      | some s =>
        if work.isAvailable then handOver ctx c hosting ready s
        else setConditions ctx c [Progress.pending ctx.now Progress.importing
          "Wait for importing resources to be available on the hosting cluster"]

def importCluster (ctx : Context) (c : ManagedCluster) (works : ClusterWorks) : Pass Unit := do
  let failed (message : String) : Pass Unit :=
    setConditions ctx c [Progress.pending ctx.now Progress.importFailed message]
  match c.hosting? with
  | none => failed "Waiting for the user to specify the hosting cluster"
  | some hosting =>
    match hostingProblem? hosting (← ask (.getCluster hosting)) with
    | some problem => failed problem
    | none =>
      match ← ask (.getSecret ⟨c.anyName, Names.importSecret c.anyName⟩) with
      | none =>
        setConditions ctx c [Progress.pending ctx.now Progress.waitForImporting
          "Wait for import secret to be created"]
      | some s =>
        match s.payload? with
        | none => failed ("Import secret is invalid, error: " ++ Secret.payloadMissing)
        | some payload => bringAgent ctx c works hosting payload

end Pass
end Hosting
