import Hosting.Dialogue
import Hosting.Hub.Error
import Hosting.Hub.Event
import Hosting.Resource.AddOn
import Hosting.Resource.ManagedCluster
import Hosting.Resource.ManifestWork
import Hosting.Resource.Secret

/-!
The requests that a program can make of the hub, each with the type of its answer.
-/

namespace Hosting
namespace Hub

/-- What the hub can be asked.  An update carries the version of the object that it was
made from, and is refused when the hub has another one by now. -/
inductive Request where
  | getCluster (name : String)
  | setFinalizers (c : ManagedCluster)
  | setStatus (c : ManagedCluster)
  | listWorks (nspace : String) (selector : Option String)
  | getWork (key : ObjectKey)
  | createWork (w : ManifestWork)
  | replaceWork (w : ManifestWork)
  | deleteWork (key : ObjectKey)
  /-- Take all finalizers off a work, so that its deletion comes to an end. -/
  | releaseWork (key : ObjectKey)
  | getSecret (key : ObjectKey)
  | replaceSecret (s : Secret)
  | deleteSecret (key : ObjectKey)
  | listAddOns (nspace : String)
  | publish (about : Reference) (e : Event)

namespace Request

/-- What the hub gives when it does as asked: for a look-up, nothing when there is no
such object; for a write, the object as it is stored. -/
@[reducible] def Value : Request → Type
  | .getCluster _ => Option ManagedCluster
  | .setFinalizers _ | .setStatus _ => ManagedCluster
  | .listWorks _ _ => List ManifestWork
  | .getWork _ => Option ManifestWork
  | .createWork _ | .replaceWork _ => ManifestWork
  | .getSecret _ => Option Secret
  | .replaceSecret _ => Secret
  | .listAddOns _ => List AddOn
  | .deleteWork _ | .releaseWork _ | .deleteSecret _ | .publish _ _ => Unit

abbrev Answer (q : Request) : Type := Except Error q.Value

end Request

/-- A program that talks to the hub. -/
abbrev Talk (α : Type) : Type := Dialogue Request Request.Answer α

def ask (q : Request) : Talk q.Answer := .question q

end Hub
end Hosting
