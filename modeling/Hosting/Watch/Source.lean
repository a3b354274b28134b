import Hosting.Cluster
import Hosting.Resource.ManifestWork
import Hosting.Resource.Secret

/-!
Which cluster an observed object belongs to: the cluster whose pass has to look at it.
-/

namespace Hosting
namespace Watch

/-- An object seen on one of the watched streams. -/
inductive Source where
  | cluster (c : ManagedCluster)
  | work (w : ManifestWork)
  /-- A secret that has the label of import secrets. -/
  | importSecret (s : Secret)
  /-- A secret that has the name of auto-import secrets. -/
  | autoImportSecret (s : Secret)

/-- The cluster of a hosted work with the given suffix, which is not empty. -/
def named? (work suffix : String) : Option String :=
  ((Text.dropTrailing? ("-" ++ suffix).toList work.toList).map String.ofList).filter (· != "")

/-- The cluster of a work: the one that a hosted work's name tells, else the one that its
label tells, else its namespace. -/
def workCluster? (w : ManifestWork) : Option String :=
  (named? w.anyName Names.klusterletWorkSuffix).or <|
    (named? w.anyName Names.kubeconfigWorkSuffix).or <|
      (w.metadata.label? Names.hostedCluster).or w.metadata.nspace

/-- The cluster that an object belongs to.  A cluster counts only when it is hosted, a
secret only under its cluster's name for it. -/
def Source.cluster? : Source → Option String
  | .cluster c => if c.isHosted then some c.anyName else none
  | .work w => workCluster? w
  | .importSecret s =>
    s.metadata.nspace.filter fun c => s.metadata.anyName == Names.importSecret c
  | .autoImportSecret s =>
    if s.metadata.anyName = Names.autoImportSecret then s.metadata.nspace else none

end Watch
end Hosting
