import Hosting.Names
import Hosting.Resource.ManifestWork

/-!
What the agent reports through a work.
-/

namespace Hosting
namespace ManifestWork

/-- The agent reports the work as available. -/
def isAvailable (w : ManifestWork) : Bool := w.conditions.has Names.workAvailable .true

/-- The report is about the hosted agent's own object. -/
def isKlusterlet (cluster : String) (r : AppliedResource) : Bool :=
  r.group == Names.operatorGroup && (r.kind == "Klusterlet" || r.resource == "klusterlets") &&
    r.name == Names.klusterlet cluster

/-- The value says that the agent is ready to be applied. -/
def saysReady (v : FeedbackValue) : Bool :=
  v.name == Names.readyToApply &&
    (v.value.string.any (Text.sameLetters · "true") || v.value.boolean == some true)

/-- The hosted agent of `cluster` reports through the work that it is ready. -/
def isReadyToApply (w : ManifestWork) (cluster : String) : Bool :=
  w.reports.any fun r => isKlusterlet cluster r.resource && r.feedback.any saysReady

/-- The work belongs to an add-on of `cluster`. -/
def isAddOnWork (w : ManifestWork) (cluster : String) : Bool :=
  w.metadata.name.any fun n =>
    (Text.dropLeading? (Names.addOnWorkPrefix cluster).toList n.toList).isSome

end ManifestWork
end Hosting
