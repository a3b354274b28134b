import Hosting.Hub.Event
import Hosting.Names
import Hosting.Resource.Condition

/-!
The conditions by which a cluster tells how far its import or its removal has come, and
the events that go with them.
-/

namespace Hosting
namespace Progress

/-! ## Reasons -/

def waitForImporting : String := "ManagedClusterWaitForImporting"

def importing : String := "ManagedClusterImporting"

def importFailed : String := "ManagedClusterImportFailed"

def imported : String := "ManagedClusterImported"

def detaching : String := "ManagedClusterDetaching"

def forceDetaching : String := "ManagedClusterForceDetaching"

def kubeconfigCreated : String := "ExternalManagedKubeconfigCreated"

def kubeconfigNotCreated : String := "ExternalManagedKubeconfigNotCreated"

/-! ## Conditions -/

/-- The import has not succeeded, for a reason. -/
def pending (now : Instant) (reason message : String) : Condition :=
  ⟨Names.importSucceeded, .false, reason, message, some now⟩

def succeeded (now : Instant) : Condition :=
  ⟨Names.importSucceeded, .true, imported, "Import succeeded", some now⟩

def handedOver (now : Instant) : Condition :=
  ⟨Names.kubeconfigCreated, .true, kubeconfigCreated,
    "The external managed kubeconfig is applied to the hosting cluster", some now⟩

def notHandedOver (now : Instant) (message : String) : Condition :=
  ⟨Names.kubeconfigCreated, .false, kubeconfigNotCreated, message, some now⟩

/-! ## Events -/

/-- The event of a condition that has changed, none when it is a routine one. -/
def event? (c : Condition) : Option Hub.Event :=
  if [imported, detaching, forceDetaching].contains c.reason then
    some (.normal c.reason "Reconcile" c.message)
  else if [importFailed, kubeconfigNotCreated].contains c.reason then
    some (.warning c.reason "Reconcile" c.message)
  else none

end Progress
end Hosting
