/-!
Names agreed with the other programs of the hub: annotations, labels, conditions, and the
names of the secrets and works that belong to a cluster.
-/

namespace Hosting
namespace Names

/-- Annotation that chooses where a cluster's agent runs. -/
def deployMode : String := "import.open-cluster-management.io/klusterlet-deploy-mode"

/-- Annotation that names the cluster hosting another one's agent. -/
def hostingCluster : String := "import.open-cluster-management.io/hosting-cluster-name"

/-- Label of a hosted work; its value is the managed cluster. -/
def hostedCluster : String := "import.open-cluster-management.io/hosted-cluster"

/-- Finalizer that holds a cluster as long as it has works. -/
def workFinalizer : String :=
  "managedcluster-import-controller.open-cluster-management.io/manifestwork-cleanup"

/-- Label of the secrets that carry an import payload. -/
def importSecretLabel : String :=
  "managedcluster-import-controller.open-cluster-management.io/import-secret"

/-- Annotation of an auto-import secret that outlives the import. -/
def keepAutoImport : String :=
  "managedcluster-import-controller.open-cluster-management.io/keeping-auto-import-secret"

/-- Annotation that counts the failed attempts of an auto-import secret. -/
def autoImportRetry : String :=
  "managedcluster-import-controller.open-cluster-management.io/auto-import-retry"

/-- Annotation of a work that outlives a reachable cluster's deletion for a while. -/
def postponeDeletion : String := "open-cluster-management/postpone-delete"

/-- Annotation that puts off a work's removal by the agent. -/
def cleanupPriority : String := "open-cluster-management.io/cleanup-priority"

def autoImportSecret : String := "auto-import-secret"

def importSecret (cluster : String) : String := cluster ++ "-import"

/-! ## Secret data -/

def importPayload : String := "import.yaml"

def kubeconfig : String := "kubeconfig"

def token : String := "token"

def server : String := "server"

/-! ## Hosted works -/

def klusterletWorkSuffix : String := "hosted-klusterlet"

def kubeconfigWorkSuffix : String := "hosted-kubeconfig"

def klusterletWork (cluster : String) : String := cluster ++ "-" ++ klusterletWorkSuffix

def kubeconfigWork (cluster : String) : String := cluster ++ "-" ++ kubeconfigWorkSuffix

/-- The hosted agent's own object, and its namespace on the hosting cluster. -/
def klusterlet (cluster : String) : String := "klusterlet-" ++ cluster

def addOnWorkPrefix (cluster : String) : String := cluster ++ "-klusterlet-addon"

def externalKubeconfigSecret : String := "external-managed-kubeconfig"

def operatorGroup : String := "operator.open-cluster-management.io"

def readyToApply : String := "ReadyToApply-status"

/-! ## Conditions -/

/-- Whether the hub hears from a cluster. -/
def clusterAvailable : String := "ManagedClusterConditionAvailable"

def workAvailable : String := "Available"

def importSucceeded : String := "ManagedClusterImportSucceeded"

def kubeconfigCreated : String := "ExternalManagedKubeconfigCreatedSucceeded"

end Names
end Hosting
