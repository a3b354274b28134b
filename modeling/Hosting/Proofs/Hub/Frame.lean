import Hosting.Cluster
import Hosting.Hub.Memory
import Hosting.Proofs.Conditions
import Hosting.Proofs.Finalizer
import Hosting.Proofs.Table

/-!
# What a change of the hub leaves alone

`Alike` is a change of no object: one that only uses up what was laid in wait, or tells of
something.  `Within` bounds a change to the objects of a scope; such changes add up
(`Within.trans`).  `bare` is what stays the same of a cluster when only its finalizers and
its status are written, and `Tended` says what also stays the same of these.
-/

namespace Hosting

namespace ManagedCluster

/-- The finalizer is on the cluster that keeps it as long as it has works. -/
def isHeld (c : ManagedCluster) : Bool := c.metadata.hasFinalizer Names.workFinalizer

theorem isHeld_congr {c d : ManagedCluster} (h : d.metadata.finalizers = c.metadata.finalizers) :
    d.isHeld = c.isHeld := by
  unfold isHeld Metadata.hasFinalizer
  rw [h]

/-- The cluster without what updates write: finalizers, status and version. -/
def bare (c : ManagedCluster) : ManagedCluster :=
  { c with
    metadata := { c.metadata with finalizers := none, resourceVersion := none }
    status := none }

section

variable {c d : ManagedCluster} (h : c.bare = d.bare)

include h

theorem nameText_of_bare : c.nameText = d.nameText := by
  show c.bare.nameText = d.bare.nameText
  rw [h]

theorem isNamed_of_bare : c.metadata.IsNamed ↔ d.metadata.IsNamed := by
  show c.bare.metadata.IsNamed ↔ d.bare.metadata.IsNamed
  rw [h]

theorem isDeleting_of_bare : c.isDeleting = d.isDeleting := by
  show c.bare.isDeleting = d.bare.isDeleting
  rw [h]

theorem isHosted_of_bare : c.isHosted = d.isHosted := by
  show c.bare.isHosted = d.bare.isHosted
  rw [h]

theorem hosting?_of_bare : c.hosting? = d.hosting? := by
  show c.bare.hosting? = d.bare.hosting?
  rw [h]

theorem postpones_of_bare (m : Metadata) (now : Instant) (window : Duration) :
    c.postpones m now window = d.postpones m now window := by
  show c.bare.postpones m now window = d.bare.postpones m now window
  rw [h]

end

/-- The conditions by which a cluster tells how far its import or its removal has come. -/
def progressTypes : List String := [Names.importSucceeded, Names.kubeconfigCreated]

/-- The cluster `d` is `c` but for its version, the finalizer that holds it, and the first
entry of each of two conditions; entries that were missing come after those of `c`. -/
structure Tended (c d : ManagedCluster) : Prop where
  bare : d.bare = c.bare
  finalizers : Finalizers.others d.metadata.finalizers = Finalizers.others c.metadata.finalizers
  conditions : d.conditions.besides progressTypes = c.conditions.besides progressTypes
  types : c.conditions.map (·.type) <+: d.conditions.map (·.type)

namespace Tended

theorem refl (c : ManagedCluster) : Tended c c := ⟨rfl, rfl, rfl, List.prefix_refl _⟩

theorem trans {c d e : ManagedCluster} (h : Tended c d) (h' : Tended d e) : Tended c e where
  bare := h'.bare.trans h.bare
  finalizers := h'.finalizers.trans h.finalizers
  conditions := h'.conditions.trans h.conditions
  types := h.types.trans h'.types

end Tended
end ManagedCluster

namespace Hub
namespace Memory

/-! ## No change of objects -/

/-- The hub holds the same objects. -/
structure Alike (m m' : Memory) : Prop where
  clusters : m'.clusters = m.clusters
  works : m'.works = m.works
  secrets : m'.secrets = m.secrets
  addOns : m'.addOns = m.addOns

namespace Alike

variable {m m' m'' : Memory}

theorem refl (m : Memory) : Alike m m := ⟨rfl, rfl, rfl, rfl⟩

theorem trans (h : Alike m m') (h' : Alike m' m'') : Alike m m'' :=
  ⟨h'.clusters.trans h.clusters, h'.works.trans h.works, h'.secrets.trans h.secrets,
    h'.addOns.trans h.addOns⟩

end Alike

/-! ## Bounded changes -/

/-- Which objects a change may concern. -/
structure Scope where
  clusters : String → Prop := fun _ => False
  works : ObjectKey → Prop := fun _ => False
  secrets : ObjectKey → Prop := fun _ => False

/-- Every object outside the scope, and every add-on, is as before. -/
structure Within (s : Scope) (m m' : Memory) : Prop where
  clusters : ∀ n, ¬s.clusters n → m'.clusters.get? n = m.clusters.get? n
  works : ∀ k, ¬s.works k → m'.works.get? k = m.works.get? k
  secrets : ∀ k, ¬s.secrets k → m'.secrets.get? k = m.secrets.get? k
  addOns : m'.addOns = m.addOns

namespace Within

variable {s s' : Scope} {m m' m'' : Memory}

theorem refl (s : Scope) (m : Memory) : Within s m m :=
  ⟨fun _ _ => rfl, fun _ _ => rfl, fun _ _ => rfl, rfl⟩

theorem trans (h : Within s m m') (h' : Within s m' m'') : Within s m m'' where
  clusters n hn := (h'.clusters n hn).trans (h.clusters n hn)
  works k hk := (h'.works k hk).trans (h.works k hk)
  secrets k hk := (h'.secrets k hk).trans (h.secrets k hk)
  addOns := h'.addOns.trans h.addOns

theorem symm (h : Within s m m') : Within s m' m where
  clusters n hn := (h.clusters n hn).symm
  works k hk := (h.works k hk).symm
  secrets k hk := (h.secrets k hk).symm
  addOns := h.addOns.symm

theorem mono (h : Within s m m') (hc : ∀ n, s.clusters n → s'.clusters n)
    (hw : ∀ k, s.works k → s'.works k) (hs : ∀ k, s.secrets k → s'.secrets k) :
    Within s' m m' where
  clusters n hn := h.clusters n fun h => hn (hc n h)
  works k hk := h.works k fun h => hk (hw k h)
  secrets k hk := h.secrets k fun h => hk (hs k h)
  addOns := h.addOns

theorem of_alike (s : Scope) (h : Alike m m') : Within s m m' where
  clusters n _ := by rw [h.clusters]
  works k _ := by rw [h.works]
  secrets k _ := by rw [h.secrets]
  addOns := h.addOns

theorem clusters_eq (h : Within s m m') (hc : ∀ n, ¬s.clusters n) : m'.clusters = m.clusters :=
  Table.ext_get? fun n => h.clusters n (hc n)

theorem works_eq (h : Within s m m') (hw : ∀ k, ¬s.works k) : m'.works = m.works :=
  Table.ext_get? fun k => h.works k (hw k)

theorem secrets_eq (h : Within s m m') (hs : ∀ k, ¬s.secrets k) : m'.secrets = m.secrets :=
  Table.ext_get? fun k => h.secrets k (hs k)

end Within
end Memory
end Hub
end Hosting
