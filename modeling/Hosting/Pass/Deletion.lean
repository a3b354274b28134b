import Hosting.Outcome
import Hosting.Pass
import Hosting.Work

/-!
The removal of a deleting cluster's works.  As long as the cluster is in reach, its own
works go first, then, once its namespace is clear, the hosted ones stage by stage; a
cluster out of reach loses them all at once, finalizers included.
-/

namespace Hosting
namespace Pass

/-- Delete hosted works that are not being deleted yet. -/
def deleteHosted (ws : List ManifestWork) : Pass Unit :=
  ws.forM fun w => if w.isDeleting then pure () else ask (.deleteWork w.anyKey)

/-- Delete a work, and take off the finalizers that still hold it. -/
def forceWork (k : ObjectKey) : Pass Unit := do
  ask (.deleteWork k)
  match ← ask (.getWork k) with
  | none => return
  | some w =>
    if (w.metadata.finalizers.getD []).isEmpty then return
    ask (.releaseWork k)

def deleteByForce (ctx : Context) (c : ManagedCluster) (works : ClusterWorks) : Pass Unit := do
  setConditions ctx c [Progress.pending ctx.now Progress.forceDetaching
    "The managed cluster is being detached by force"]
  works.own.forM fun w => forceWork ⟨c.anyName, w.anyName⟩
  deleteHosted (works.inOrder c.anyName)
  publish c (.warning "ManifestWorksForceDeleted" "Delete"
    ("The managed cluster " ++ c.anyName ++
      " is unavailable, its manifest works are force deleted"))

/-- An own work that is to be deleted now: not an add-on's, not being deleted already,
and not to be postponed. -/
def isDue (ctx : Context) (c : ManagedCluster) (w : ManifestWork) : Bool :=
  !w.isAddOnWork c.anyName && !w.isDeleting &&
    !c.postpones w.metadata ctx.now ctx.settings.postponeWindow

/-- No work and no add-on is left in the namespace. -/
def isClear (nspace : String) : Pass Bool := do
  let works ← ask (.listWorks nspace none)
  if works.isEmpty then return (← ask (.listAddOns nspace)).isEmpty
  return false

def deleteInOrder (ctx : Context) (c : ManagedCluster) (works : ClusterWorks) : Pass Unit := do
  setConditions ctx c [Progress.pending ctx.now Progress.detaching
    "The managed cluster is being detached now"]
  let due := works.own.filter (isDue ctx c)
  due.forM fun w => ask (.deleteWork ⟨c.anyName, w.anyName⟩)
  if !due.isEmpty then
    publish c (.normal "ManifestWorksDeleted" "Delete"
      ("The manifest works " ++ Text.join ", " (due.map (·.anyName)) ++ " of managed cluster " ++
        c.anyName ++ " are deleted"))
  if ← isClear c.anyName then deleteHosted (works.stage c.anyName)

/-- Delete the works of the cluster, and take its finalizer off once none is left. -/
def deletion (ctx : Context) (c : ManagedCluster) (works : ClusterWorks) : Pass Outcome := do
  if works.isEmpty then return .done
  if c.needsForce ctx.now ctx.settings.silenceTimeout then deleteByForce ctx c works
  else deleteInOrder ctx c works
  let remaining ← listWorks c
  syncFinalizer ctx c remaining.total
  return if remaining.isEmpty then .done else .again ctx.settings.deletionRequeue

end Pass
end Hosting
