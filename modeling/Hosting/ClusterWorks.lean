import Hosting.Names
import Hosting.Resource.ManifestWork

/-!
The works that belong to one cluster, and the order in which the hosted ones go: what the
agent has to clean up goes before the agent, and the agent before its credentials.
-/

namespace Hosting

/-- The works of one managed cluster. -/
structure ClusterWorks where
  /-- Those in the cluster's own namespace. -/
  own : List ManifestWork := []
  /-- Those labelled with the cluster in the namespace of its hosting cluster. -/
  hosted : List ManifestWork := []

namespace ClusterWorks

def total (ws : ClusterWorks) : Nat := ws.own.length + ws.hosted.length

def isEmpty (ws : ClusterWorks) : Bool := ws.total == 0

def hosted? (ws : ClusterWorks) (name : String) : Option ManifestWork :=
  ws.hosted.find? (·.metadata.name == some name)

def hasHosted (ws : ClusterWorks) (name : String) : Bool := (ws.hosted? name).isSome

theorem isEmpty_iff {ws : ClusterWorks} : ws.isEmpty = true ↔ ws.own = [] ∧ ws.hosted = [] := by
  simp [isEmpty, total]

theorem hasHosted_iff {ws : ClusterWorks} {name : String} :
    ws.hasHosted name = true ↔ ∃ w ∈ ws.hosted, w.metadata.name = some name := by
  simp [hasHosted, hosted?]

/-- The hosted works beside the two that bring and connect the agent of `cluster`. -/
def others (ws : ClusterWorks) (cluster : String) : List ManifestWork :=
  ws.hosted.filter fun w =>
    w.anyName != Names.klusterletWork cluster && w.anyName != Names.kubeconfigWork cluster

/-- All hosted works, in the order in which they are to go. -/
def inOrder (ws : ClusterWorks) (cluster : String) : List ManifestWork :=
  ws.others cluster ++ (ws.hosted? (Names.klusterletWork cluster)).toList ++
    (ws.hosted? (Names.kubeconfigWork cluster)).toList

/-- The hosted works that are to go next.  The agent outlives what it has to clean up,
and its credentials outlive the agent; a work that is still finalizing is not gone. -/
def stage (ws : ClusterWorks) (cluster : String) : List ManifestWork :=
  if (ws.others cluster).isEmpty then
    ((ws.hosted? (Names.klusterletWork cluster)).or
      (ws.hosted? (Names.kubeconfigWork cluster))).toList
  else ws.others cluster

/-- What goes next are hosted works. -/
theorem mem_hosted_of_mem_stage {ws : ClusterWorks} {cluster : String} {w : ManifestWork}
    (h : w ∈ ws.stage cluster) : w ∈ ws.hosted := by
  unfold stage at h
  split at h
  · simp only [Option.mem_toList, Option.or_eq_some_iff] at h
    rcases h with h | ⟨_, h⟩ <;> exact List.mem_of_find?_eq_some h
  · exact (List.mem_filter.mp h).1

end ClusterWorks
end Hosting
