import Hosting.Pass.Deletion
import Hosting.Pass.Import

/-!
A whole pass: which of its steps a cluster needs.
-/

namespace Hosting

/-- One pass over the named cluster, from a fresh read.  A cluster that is gone or not
hosted is left alone. -/
def reconcile (ctx : Context) (name : String) : Pass Outcome := do
  match ← Pass.ask (.getCluster name) with
  | none => return .done
  | some c =>
    if c.isHosted then
      let works ← Pass.listWorks c
      Pass.syncFinalizer ctx c works.total
      if c.isDeleting then Pass.deletion ctx c works
      else
        Pass.importCluster ctx c works
        return .done
    else return .done

end Hosting
