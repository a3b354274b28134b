import Hosting.Proofs.Reconcile
import Hosting.Proofs.Run

/-!
# The order in which a cluster is taken down

As long as a deleting cluster is in reach, a work is only ever deleted when its turn has
come: what the agent has to clean up goes before the agent, and the agent before its
credentials.  The order is kept by no record; `teardown_in_order` says that it is kept all
the same, through any number of passes and whatever happens between them.
-/

namespace Hosting

open Hub (Request Memory)

/-- The cluster is being deleted, is hosted by another one, and is in reach. -/
def ManagedCluster.leavesInOrder (c : ManagedCluster) (ctx : Context) : Bool :=
  c.isHosted && c.isDeleting && c.hosting?.any (· != c.nameText) &&
    !c.needsForce ctx.now ctx.settings.silenceTimeout

namespace Teardown

/-- The cluster is gone, or leaves in order. -/
def graceful (name : String) (ctx : Context) (m : Memory) : Bool :=
  (m.clusters.get? name).all (·.leavesInOrder ctx)

/-- An own work may be deleted: it is there, no add-on's, not being deleted already, and
not to be postponed. -/
structure OwnDue (ctx : Context) (c : ManagedCluster) (k : ObjectKey) (m : Memory) : Prop where
  notAddOn : ¬(Names.addOnWorkPrefix c.nameText).toList <+: k.name.toList
  work : ∃ w, m.works.get? k = some w ∧ w.isDeleting = false ∧
    c.postpones w.metadata ctx.now ctx.settings.postponeWindow = false

/-- A hosted work may be deleted: it is there and not being deleted already, the cluster's
namespace is clear, and what has to go before it is gone, finalizers and all. -/
structure HostedDue (c : ManagedCluster) (k : ObjectKey) (m : Memory) : Prop where
  clear : m.Clear c.nameText
  work : ∃ w, m.Labelled c.nameText k w ∧ w.isDeleting = false
  agentLast : k.name = Names.klusterletWork c.nameText →
    ∀ k' w', m.Labelled c.nameText k' w' → k'.nspace = k.nspace →
      k'.name = Names.klusterletWork c.nameText ∨ k'.name = Names.kubeconfigWork c.nameText
  credentialsLast : k.name = Names.kubeconfigWork c.nameText →
    ∀ k' w', m.Labelled c.nameText k' w' → k'.nspace = k.nspace → k' = k

/-- The deletion of a work in its turn. -/
def InTurn (name : String) (i : Issued) (k : ObjectKey) : Prop :=
  ∃ c h, i.hub.clusters.get? name = some c ∧ c.nameText = name ∧ c.hosting? = some h ∧ h ≠ name ∧
    (k.nspace = name ∧ OwnDue i.ctx c k i.hub ∨ k.nspace = h ∧ HostedDue c k i.hub)

/-- Works are deleted in their turn, and never held back finalizers taken off. -/
def Orderly (name : String) (i : Issued) : Prop :=
  match i.request with
  | .deleteWork k => InTurn name i k
  | .releaseWork _ => False
  | _ => True

variable {name : String} {ctx : Context} {c : ManagedCluster} {m m' : Memory} {w : ManifestWork}

/-! ## The stages -/

section

variable {ws : ClusterWorks} {cluster : String} (hws : ∀ w ∈ ws.hosted, w.metadata.IsNamed)

include hws

theorem name_of_mem_hosted_of_others (h : (ws.others cluster).isEmpty = true)
    (hw : w ∈ ws.hosted) :
    w.nameText = Names.klusterletWork cluster ∨ w.nameText = Names.kubeconfigWork cluster := by
  refine Decidable.or_iff_not_not_and_not.mpr fun hnot => ?_
  have hother := (ClusterWorks.mem_others_iff hws).mpr ⟨hw, hnot⟩
  rw [List.isEmpty_iff.mp h] at hother
  cases hother

/-- A work that is not set aside as one of the others bears one of the two names. -/
theorem others_of_mem_stage (hw : w ∈ ws.stage cluster)
    (hname : w.nameText = Names.klusterletWork cluster ∨
      w.nameText = Names.kubeconfigWork cluster) : (ws.others cluster).isEmpty = true := by
  unfold ClusterWorks.stage at hw
  split at hw
  · next h => exact h
  · exact absurd hname (not_or.mpr ((ClusterWorks.mem_others_iff hws).mp hw).2)

/-- The credentials are only next when nothing else is left. -/
theorem name_of_mem_hosted_of_kubeconfig (hw : w ∈ ws.stage cluster)
    (hname : w.nameText = Names.kubeconfigWork cluster)
    {v : ManifestWork} (hv : v ∈ ws.hosted) : v.nameText = Names.kubeconfigWork cluster := by
  have hothers := others_of_mem_stage hws hw (Or.inr hname)
  refine (name_of_mem_hosted_of_others hws hothers hv).resolve_left fun hvname => ?_
  unfold ClusterWorks.stage at hw
  rw [if_pos hothers, Option.mem_toList, Option.or_eq_some_iff] at hw
  rcases hw with hw | ⟨hnone, -⟩
  · -- then the agent's own work would be next
    have hagent : w.metadata.name = some (Names.klusterletWork cluster) := by
      simpa using List.find?_some hw
    rw [ManifestWork.nameText_eq_iff (Names.kubeconfigWork_ne_empty cluster), hagent] at hname
    exact Names.klusterletWork_ne_kubeconfigWork cluster cluster (Option.some.inj hname)
  · unfold ClusterWorks.hosted? at hnone
    rw [List.find?_eq_none] at hnone
    rw [ManifestWork.nameText_eq_iff (Names.klusterletWork_ne_empty cluster)] at hvname
    exact hnone v hv (by simp [hvname])

end

/-! ## Each turn -/

theorem notAddOn_of_isDue (hnamed : c.metadata.IsNamed) (hdue : Pass.isDue ctx c w = true) :
    ¬(Names.addOnWorkPrefix c.nameText).toList <+: w.nameText.toList := by
  rintro ⟨r, hr⟩
  have hnot : w.isAddOnWork c.nameText = false := by
    unfold Pass.isDue at hdue
    rw [Bool.and_eq_true, Bool.and_eq_true, Bool.not_eq_true', ManagedCluster.anyName_eq hnamed]
      at hdue
    exact hdue.1.1
  have hne : w.nameText ≠ "" := by
    intro he
    rw [he] at hr
    simp [Names.addOnWorkPrefix] at hr
  have hname := (ManifestWork.nameText_eq_iff hne).mp rfl
  unfold ManifestWork.isAddOnWork at hnot
  rw [hname, Option.any_some, Text.dropLeading?_eq_some_iff.mpr hr.symm] at hnot
  cases hnot

theorem ownDue_of_turn (hm : m.Named) (hc : c.metadata.IsNamed) (h : Pass.OwnTurn ctx c m w m') :
    w.key.nspace = c.nameText ∧ ∀ d, d.bare = c.bare → OwnDue ctx d w.key m' := by
  have hown := Pass.nspace_of_mem_own hm.toFiled h.listed
  refine ⟨by rw [hown.2], fun d hbare => ⟨?_, w, ?_, ?_, ?_⟩⟩
  · rw [ManagedCluster.nameText_of_bare hbare, hown.2]
    exact notAddOn_of_isDue hc h.due
  · rw [h.same, hown.1]
  all_goals
    have hdue := h.due
    unfold Pass.isDue at hdue
    rw [Bool.and_eq_true, Bool.and_eq_true, Bool.not_eq_true', Bool.not_eq_true',
      Bool.not_eq_true'] at hdue
  · exact hdue.1.2
  · rw [ManagedCluster.postpones_of_bare hbare]
    exact hdue.2

/-- A labelled work of the hosting namespace that is there now was listed. -/
theorem listed_of_labelled (hm : m.Filed) (hn : ',' ∉ c.nameText.toList)
    (hsheds : Hub.Memory.Sheds m m') {k : ObjectKey} {v : ManifestWork}
    (hv : m'.Labelled c.nameText k v) (hspace : c.hosting? = some k.nspace) :
    ∃ u ∈ (m.worksOf c).hosted, u.nameText = k.name := by
  obtain ⟨u, hu, hleaves⟩ := hsheds k v hv.1
  refine ⟨u, (Hub.Memory.mem_hosted_iff hn).mpr ⟨k, ⟨hu, ?_⟩, hspace⟩, ?_⟩
  · unfold Metadata.label?
    rw [← hleaves.labels]
    exact hv.2
  · exact congrArg ObjectKey.name (hm.works k u hu)

theorem hostedDue_of_turn (hm : m.Named) (hn : ',' ∉ c.nameText.toList)
    (hne : c.hosting? ≠ some c.nameText) (h : Pass.HostedTurn c m w m') :
    c.hosting? = some w.key.nspace ∧ ∀ d, d.bare = c.bare → HostedDue d w.key m' := by
  have hlisted := ClusterWorks.mem_hosted_of_mem_stage h.listed
  have hnames : ∀ w ∈ (m.worksOf c).hosted, w.metadata.IsNamed := fun _ => hm.hosted
  obtain ⟨hstored, hspace⟩ := Pass.nspace_of_mem_hosted hm.toFiled hlisted
  have hthere := (h.turn hne).1.trans hstored
  obtain ⟨k, hk, -⟩ := (Hub.Memory.mem_hosted_iff hn).mp hlisted
  refine ⟨hspace, fun d hbare => ?_⟩
  have hname : d.nameText = c.nameText := ManagedCluster.nameText_of_bare hbare
  refine ⟨?_, ?_, ?_, ?_⟩
  · rw [hname]
    exact (h.turn hne).2
  · rw [hname]
    exact ⟨w, ⟨hthere, hk.2⟩, h.live⟩
  · rw [hname]
    intro hagent k' v hv hspace'
    obtain ⟨u, hu, huname⟩ := listed_of_labelled hm.toFiled hn h.sheds hv (hspace' ▸ hspace)
    rw [← huname]
    exact name_of_mem_hosted_of_others hnames
      (others_of_mem_stage hnames h.listed (Or.inl hagent)) hu
  · rw [hname]
    intro hcredentials k' v hv hspace'
    obtain ⟨u, hu, huname⟩ := listed_of_labelled hm.toFiled hn h.sheds hv (hspace' ▸ hspace)
    have hu := name_of_mem_hosted_of_kubeconfig hnames h.listed hcredentials hu
    have hname' := huname.symm.trans (hu.trans hcredentials.symm)
    exact congr (congrArg ObjectKey.mk hspace') hname'

theorem issuedBy_orderly (hn : ',' ∉ name.toList) (hm : m.Named)
    (hg : graceful name ctx m = true) :
    ∀ i ∈ Run.issuedBy ctx name m, Orderly name i := by
  have hleaves (c : ManagedCluster) (hc : m.clusters.get? name = some c) :
      c.leavesInOrder ctx = true := by
    unfold graceful at hg
    rwa [hc] at hg
  have hmeets : Pass.Meets ctx.now (fun q m' => Orderly name ⟨ctx, q, m'⟩) (fun _ _ => True)
      (reconcile ctx name) m := by
    have hl : Hub.Lenient fun q m' => Orderly name ⟨ctx, q, m'⟩ := by
      intro q m' hq
      cases q <;> first | trivial | exact absurd trivial hq
    refine reconcile_meets hl hm (fun _ _ _ => trivial) (fun _ => trivial)
      (fun _ _ _ _ _ _ _ _ => trivial) fun c hc hname hhosted hdel => ?_
    have hc' := hleaves c hc
    unfold ManagedCluster.leavesInOrder at hc'
    simp only [Bool.and_eq_true, Bool.not_eq_true', Option.any_eq_true, bne_iff_ne] at hc'
    obtain ⟨⟨-, h, hh, hne⟩, hforce⟩ := hc'
    subst hname
    have hself : c.hosting? ≠ some c.nameText := by
      rw [hh, ne_eq, Option.some.injEq]
      exact hne
    refine (Pass.deletion_meets hl hm hc hdel (fun hf => ?_) (fun w m' hw => ?_)
      fun w m' hw => ?_).imp (fun _ _ hq => hq) fun _ _ _ => trivial
    · rw [hforce] at hf
      cases hf
    · obtain ⟨d, hd, hbare⟩ := hw.cluster
      have hdue := ownDue_of_turn hm (hm.clusterNames _ c hc) hw
      exact ⟨d, h, hd, ManagedCluster.nameText_of_bare hbare,
        (ManagedCluster.hosting?_of_bare hbare).trans hh, hne, Or.inl ⟨hdue.1, hdue.2 d hbare⟩⟩
    · obtain ⟨d, hd, hbare⟩ := hw.cluster
      have hdue := hostedDue_of_turn hm hn hself hw
      refine ⟨d, h, hd, ManagedCluster.nameText_of_bare hbare,
        (ManagedCluster.hosting?_of_bare hbare).trans hh, hne, Or.inr ⟨?_, hdue.2 d hbare⟩⟩
      exact Option.some.inj (hdue.1.symm.trans hh)
  intro i hi
  obtain ⟨e, he, rfl⟩ := List.mem_map.mp hi
  exact (Dialogue.meets_iff.mp hmeets).1 e he

/-- Through any number of passes over a cluster that leaves in order, and whatever happens
between them, works are deleted in their turn and no finalizer of a work is forced off. -/
theorem teardown_in_order (hn : ',' ∉ name.toList) (hm : m.Named) {run : List Happening}
    (hrun : Run.isNamed run = true) (hg : Run.begins (graceful name) name run m = true) :
    ∀ i ∈ Run.issued name run m, Orderly name i :=
  Run.forall_issued (fun _ _ hm hg => issuedBy_orderly hn hm hg) hrun hm hg

def deleted? (i : Issued) : Option ObjectKey :=
  match i.request with
  | .deleteWork k => some k
  | _ => none

open Sample in
/-- A work of its own, one of an add-on, the agent and its credentials. -/
def sample : List Happening := [
  .change (.cluster (deleting (held (hosted "c" "h")))),
  .change (.work (work "c" "w")),
  .change (.work (work "c" "c-klusterlet-addon-x")),
  .change (.work (labelled "h" "c-hosted-klusterlet" "c")),
  .change (.work (labelled "h" "c-hosted-kubeconfig" "c")),
  onePass, release "c" "w", delete "c" "c-klusterlet-addon-x", release "c" "c-klusterlet-addon-x",
  onePass, release "h" "c-hosted-klusterlet", onePass, release "h" "c-hosted-kubeconfig", onePass]

theorem teardown_of_sample :
    (Run.issued "c" sample {}).filterMap deleted? =
        [⟨"c", "w"⟩, ⟨"h", "c-hosted-klusterlet"⟩, ⟨"h", "c-hosted-kubeconfig"⟩] ∧
      (Run.after "c" sample {}).clusters.get? "c" = none ∧
        ∀ i ∈ Run.issued "c" sample {}, Orderly "c" i := by
  have h : (Run.issued "c" sample {}).filterMap deleted? =
        [⟨"c", "w"⟩, ⟨"h", "c-hosted-klusterlet"⟩, ⟨"h", "c-hosted-kubeconfig"⟩] ∧
      (Run.after "c" sample {}).clusters.get? "c" = none ∧
        Run.begins (graceful "c") "c" sample {} = true := by decide +kernel
  exact ⟨h.1, h.2.1, teardown_in_order (by decide) Hub.Memory.named_empty (by decide +kernel) h.2.2⟩

end Teardown
end Hosting
