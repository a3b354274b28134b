/-!
The kinds of objects and the names under which the hub serves them.
-/

namespace Hosting

/-- How a kind of object is registered with the hub. -/
structure Kind where
  group : String
  version : String
  name : String
  plural : String
  namespaced : Bool
  hasStatus : Bool
  deriving DecidableEq, Repr

namespace Kind

def apiVersion (k : Kind) : String :=
  if k.group = "" then k.version else k.group ++ "/" ++ k.version

def definitionName (k : Kind) : String := k.plural ++ "." ++ k.group

def managedCluster : Kind where
  group := "cluster.open-cluster-management.io"
  version := "v1"
  name := "ManagedCluster"
  plural := "managedclusters"
  namespaced := false
  hasStatus := true

def manifestWork : Kind where
  group := "work.open-cluster-management.io"
  version := "v1"
  name := "ManifestWork"
  plural := "manifestworks"
  namespaced := true
  hasStatus := true

def addOn : Kind where
  group := "addon.open-cluster-management.io"
  version := "v1alpha1"
  name := "ManagedClusterAddOn"
  plural := "managedclusteraddons"
  namespaced := true
  hasStatus := false

def secret : Kind where
  group := ""
  version := "v1"
  name := "Secret"
  plural := "secrets"
  namespaced := true
  hasStatus := false

def event : Kind where
  group := "events.k8s.io"
  version := "v1"
  name := "Event"
  plural := "events"
  namespaced := true
  hasStatus := false

end Kind
end Hosting
