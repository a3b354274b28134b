import Hosting.Names
import Hosting.Resource.ManagedCluster

/-!
What a cluster's annotations, conditions and deletion say: whether its agent is hosted and
where, whether its removal has to be forced, and which works may outlive it for a while.
-/

namespace Hosting

/-- Where a cluster's agent runs: on the cluster itself, on another one, or as an
annotation says that is not known. -/
inductive DeployMode where
  | default
  | hosted
  | unknown (mode : String)
  deriving DecidableEq, Repr

namespace ManagedCluster

def deployMode (c : ManagedCluster) : DeployMode :=
  match c.metadata.annotation? Names.deployMode with
  | none => .default
  | some mode =>
    if mode = "" || Text.sameLetters mode "default" then .default
    else if Text.sameLetters mode "hosted" then .hosted
    else .unknown mode

def isHosted (c : ManagedCluster) : Bool := c.deployMode == .hosted

/-- The cluster named to host this one's agent, if any text is left of its name
without the blanks around it. -/
def hosting? (c : ManagedCluster) : Option String :=
  ((c.metadata.annotation? Names.hostingCluster).map Text.trimmed).filter (· != "")

/-- The cluster is known to be out of reach.  A missing report is not enough. -/
def isUnavailable (c : ManagedCluster) : Bool := c.conditions.has Names.clusterAvailable .false

/-- When its deletion was asked for, to the whole second. -/
def deletedAt? (c : ManagedCluster) : Option Instant :=
  c.metadata.deletionTimestamp.bind (·.wholeSecond?)

/-- The works of the deleting cluster are to be deleted by force: it is out of reach,
or has been deleting for the time of `timeout` without being reported available. -/
def needsForce (c : ManagedCluster) (now : Instant) (timeout : Option Duration) : Bool :=
  if c.isUnavailable then true
  else match timeout with
    | none => false
    | some d =>
      if c.conditions.has Names.clusterAvailable .true then false
      else match c.deletedAt? with
        | none => false
        | some deleted => 0 ≤ now.since deleted && d.nanos ≤ now.since deleted

/-- An object asked to outlive the deleting cluster, and its window of so long a time
is still open. -/
def postpones (c : ManagedCluster) (m : Metadata) (now : Instant) (window : Duration) : Bool :=
  if (m.annotation? Names.postponeDeletion).isNone then false
  else match c.deletedAt? with
    | none => false
    | some deleted => now.since deleted < 0 || now.since deleted < window.nanos

end ManagedCluster
end Hosting
