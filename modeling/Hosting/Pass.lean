import Hosting.Cluster
import Hosting.ClusterWorks
import Hosting.Failure
import Hosting.Finalizer
import Hosting.HostedWork
import Hosting.Hub.Update
import Hosting.Progress

/-!
A pass brings the hub closer to what one cluster asks for.  It is a dialogue with the
hub that ends with a failure or a value; this module has the steps that passes share.
-/

namespace Hosting

/-- What a pass goes by beside the hub. -/
structure Context where
  settings : Settings := {}
  now : Instant

/-- A dialogue with the hub that may fail. -/
abbrev Pass (α : Type) : Type := ExceptT Failure (Dialogue Hub.Request Hub.Request.Answer) α

namespace ManagedCluster

def reference (c : ManagedCluster) : Hub.Reference where
  apiVersion := some Kind.managedCluster.apiVersion
  kind := some Kind.managedCluster.name
  name := c.metadata.name
  nspace := c.metadata.nspace
  uid := c.metadata.uid

end ManagedCluster

namespace Pass

variable {α : Type}

def ofTalk (t : Hub.Talk (Except Failure α)) : Pass α := ExceptT.mk t

/-- Ask the hub; what it refuses ends the pass. -/
def ask (q : Hub.Request) : Pass q.Value :=
  ofTalk ((·.mapError .hub) <$> Hub.ask q)

/-- The outcome of a part of the pass, which goes on also when the part fails. -/
def attempt (p : Pass α) : Pass (Except Failure α) := ofTalk (.ok <$> p.run)

/-- Tell of an event about the cluster. -/
def publish (c : ManagedCluster) (e : Hub.Event) : Pass Unit :=
  ofTalk ((fun _ => .ok ()) <$> Hub.ask (.publish c.reference e))

/-- Selects the hosted works of a cluster. -/
def hostedSelector (cluster : String) : String := Names.hostedCluster ++ "=" ++ cluster

/-- The works of the cluster, its own and those on its hosting cluster. -/
def listWorks (c : ManagedCluster) : Pass ClusterWorks := do
  let own ← ask (.listWorks c.anyName none)
  match c.hosting? with
  | none => return { own := own }
  | some hosting =>
    let hosted ← ask (.listWorks hosting (some (hostedSelector c.anyName)))
    return { own := own, hosted := hosted }

/-! ## Conditions -/

/-- The cluster with the conditions entered, unless it has them all. -/
def mergeConditions (now : Instant) (new : List Condition) (c : ManagedCluster) :
    Option ManagedCluster :=
  let (cs, changed) := Conditions.merge now new c.conditions
  if changed.isEmpty then none else some { c with status := some cs }

/-- The cluster shows the state that the condition tells. -/
def shows (c : ManagedCluster) (new : Condition) : Bool :=
  (Conditions.find? c.conditions new.type).any (·.sameState new)

/-- Write conditions to the cluster's status, and tell of those that changed.  Nothing is
asked of the hub when the cluster as it was read shows them all. -/
def setConditions (ctx : Context) (c : ManagedCluster) (new : List Condition) : Pass Unit := do
  if new.all (shows c) then return
  let u ← ofTalk (.ok <$> Hub.updateCluster c.anyName .status (mergeConditions ctx.now new)
    ctx.settings.retries)
  let _ ← ofTalk (pure (u.written.mapError .hub))
  match u.seen.getLast? with
  | none => return
  | some last =>
    ((Conditions.merge ctx.now new last.conditions).2.filterMap Progress.event?).forM (publish c)

/-- Record a condition, then fail; a failure to record it is added. -/
def failWith (ctx : Context) (c : ManagedCluster) (new : Condition) (f : Failure) : Pass α := do
  match ← attempt (setConditions ctx c [new]) with
  | .ok () => throw f
  | .error g => throw (f.withMore [g])

/-! ## The finalizer -/

def removeFinalizer (c : ManagedCluster) : Option ManagedCluster :=
  (c.metadata.dropFinalizer? Names.workFinalizer).map fun m => { c with metadata := m }

/-- No finalizer is added to a cluster that is being deleted. -/
def addFinalizer (c : ManagedCluster) : Option ManagedCluster :=
  if c.isDeleting then none
  else (c.metadata.addFinalizer? Names.workFinalizer).map fun m => { c with metadata := m }

def updateFinalizers (ctx : Context) (c : ManagedCluster)
    (edit : ManagedCluster → Option ManagedCluster) (e : Hub.Event) : Pass Unit := do
  let u ← ofTalk (.ok <$> Hub.updateCluster c.anyName .finalizers edit ctx.settings.retries)
  if ← ofTalk (pure (u.written.mapError .hub)) then publish c e

/-- Keep the finalizer on the cluster exactly as long as it has works. -/
def syncFinalizer (ctx : Context) (c : ManagedCluster) (works : Nat) : Pass Unit := do
  let present := c.metadata.hasFinalizer Names.workFinalizer
  if works = 0 then
    if present then
      updateFinalizers ctx c removeFinalizer (.normal "ManagedClusterFinalizerRemoved" "Reconcile"
        ("The managed cluster " ++ c.anyName ++ " manifestwork finalizer is removed"))
  else if !present && !c.isDeleting then
    updateFinalizers ctx c addFinalizer (.normal "ManagedClusterFinalizerAdded" "Reconcile"
      ("The managed cluster " ++ c.anyName ++ " manifestwork finalizer is added"))

/-! ## Works -/

/-- Bring a work to the hub: create it, or update the one that is there unless it already
is as desired.  Gives the work as it is stored. -/
def applyWork (c : ManagedCluster) (desired : ManifestWork) : Pass ManifestWork := do
  let shown := desired.anyKey.nspace ++ "/" ++ desired.anyKey.name
  match ← ask (.getWork desired.anyKey) with
  | none =>
    let created ← ask (.createWork desired)
    publish c (.normal "ManifestWorkCreated" "Reconcile"
      ("The manifest work " ++ shown ++ " is created"))
    return created
  | some existing =>
    if existing.fulfils desired then return existing
    let stored ← ask (.replaceWork (existing.updatedTo desired))
    publish c (.normal "ManifestWorkUpdated" "Reconcile"
      ("The manifest work " ++ shown ++ " is updated"))
    return stored

end Pass
end Hosting
