import Hosting.Resource.Condition
import Hosting.Resource.Metadata

/-!
Managed clusters, as records.
-/

namespace Hosting

/-- A cluster that the hub manages. -/
structure ManagedCluster where
  metadata : Metadata
  hubAcceptsClient : Bool := false
  leaseDurationSeconds : Option Int := none
  status : Option Conditions := none
  deriving DecidableEq

namespace ManagedCluster

def nameText (c : ManagedCluster) : String := c.metadata.nameText

def anyName (c : ManagedCluster) : String := c.metadata.anyName

theorem anyName_eq {c : ManagedCluster} (h : c.metadata.IsNamed) : c.anyName = c.nameText := h

/-- The reported conditions, none before the first report. -/
def conditions (c : ManagedCluster) : Conditions := c.status.getD []

def isDeleting (c : ManagedCluster) : Bool := c.metadata.isDeleting

open Json in
def ofJson? (v : Json) : Option ManagedCluster := do
  match ← slots? ["metadata", "spec", "status"] 3 v with
  | [metadata, spec, status] =>
    let metadata ← required Metadata.ofJson? metadata
    match ← required (slots? ["hubAcceptsClient", "leaseDurationSeconds"] 0) spec with
    | [accepts, lease] =>
      some {
        metadata := metadata
        hubAcceptsClient := ← withDefault false asBool accepts
        leaseDurationSeconds := ← optional asInt32 lease
        status := ← optional statusOfJson? status }
    | _ => none
  | _ => none
where
  statusOfJson? (v : Json) : Option Conditions := do
    match ← slots? ["conditions"] 0 v with
    | [conditions] => withDefault [] Conditions.ofJson? conditions
    | _ => none

def statusJson (cs : Conditions) : Json := .ofMembers [("conditions", cs.toJson)]

def toJson (c : ManagedCluster) : Json :=
  Kind.managedCluster.tagged [
    ("metadata", some c.metadata.toJson),
    ("spec", some (.ofPresent [
      ("hubAcceptsClient", some (.bool c.hubAcceptsClient)),
      ("leaseDurationSeconds", c.leaseDurationSeconds.map .int)])),
    ("status", c.status.map statusJson)]

end ManagedCluster
end Hosting
