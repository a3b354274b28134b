import Hosting.Hub.Request

/-!
Updates of a cluster that may meet those of others.  Each attempt edits a fresh copy, so
an edit never overwrites what someone else has written; an attempt that comes too late
is made again.
-/

namespace Hosting
namespace Hub

/-- The part of a cluster that an update writes. -/
inductive Part where
  | status
  | finalizers
  deriving DecidableEq, Repr

def Part.write (p : Part) (c : ManagedCluster) : Talk (Except Error ManagedCluster) :=
  match p with
  | .status => ask (.setStatus c)
  | .finalizers => ask (.setFinalizers c)

/-- How an update ended: whether anything was written, and the copies that were read on
the way, in order. -/
structure Update where
  written : Except Error Bool
  seen : List ManagedCluster

/-- One attempt at an update: how it ended, and whether it came too late. -/
def tryUpdate (name : String) (part : Part) (edit : ManagedCluster → Option ManagedCluster) :
    Talk (Update × Bool) := do
  match ← ask (.getCluster name) with
  | .error e => return (⟨.error e, []⟩, false)
  | .ok none => return (⟨.ok false, []⟩, false)
  | .ok (some c) =>
    match edit c with
    | none => return (⟨.ok false, [c]⟩, false)
    | some edited =>
      match ← part.write edited with
      | .ok _ => return (⟨.ok true, [c]⟩, false)
      | .error e => return (⟨.error e, [c]⟩, e.isConflict)

/-- Edit a cluster, and try again up to `retries` times when the hub has a newer version.
Nothing is written when the cluster is gone or the edit leaves it as it is. -/
def updateCluster (name : String) (part : Part) (edit : ManagedCluster → Option ManagedCluster) :
    (retries : Nat) → Talk Update
  | 0 => Prod.fst <$> tryUpdate name part edit
  | n + 1 => do
    let (first, late) ← tryUpdate name part edit
    if late then
      let rest ← updateCluster name part edit n
      return { rest with seen := first.seen ++ rest.seen }
    else return first

end Hub
end Hosting
