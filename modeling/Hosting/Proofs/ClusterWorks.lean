import Hosting.Pass
import Hosting.Proofs.Hub.Answer
import Hosting.Proofs.Text.Split

/-!
# The works of a cluster

`worksOf` is the listing of a cluster's works as it would be made in a given state of the
hub.  The selector finds the works that carry the cluster's label as long as the name of
the cluster holds no `,` (`selects_hostedSelector`).
-/

namespace Hosting

/-! ## Selectors -/

theorem selects_hostedSelector {name : String} (h : ',' ∉ name.toList) (m : Metadata) :
    Hub.Memory.selects m (some (Pass.hostedSelector name)) =
      (m.label? Names.hostedCluster == some name) := by
  have hlist : (Pass.hostedSelector name).toList =
      Names.hostedCluster.toList ++ '=' :: name.toList := by
    simp [Pass.hostedSelector]
  have hcomma : ',' ∉ (Pass.hostedSelector name).toList := by
    have hlabel : ',' ∉ Names.hostedCluster.toList ++ ['='] := by decide
    rw [hlist]
    simpa [h] using hlabel
  have hequal : '=' ∉ Names.hostedCluster.toList := by decide
  unfold Hub.Memory.selects
  dsimp only
  rw [Text.splitAt_of_notMem hcomma, hlist]
  simp [Text.cutAt?_append_cons hequal]

/-- What is selected has the label of hosted works, though with another value perhaps when the
cluster's name has a `,`. -/
theorem label?_of_selects {name : String} {m : Metadata}
    (h : Hub.Memory.selects m (some (Pass.hostedSelector name)) = true) :
    ∃ v, m.label? Names.hostedCluster = some v := by
  have hlist : (Pass.hostedSelector name).toList =
      (Names.hostedCluster.toList ++ ['=']) ++ name.toList := by
    simp [Pass.hostedSelector]
  have hcomma : ',' ∉ Names.hostedCluster.toList ++ ['='] := by decide
  have hequal : '=' ∉ Names.hostedCluster.toList := by decide
  obtain ⟨x, xs, hsplit⟩ := Text.splitAt_append hcomma name.toList
  unfold Hub.Memory.selects at h
  dsimp only at h
  rw [hlist, hsplit, List.all_cons, List.append_assoc, List.singleton_append,
    Text.cutAt?_append_cons hequal] at h
  exact ⟨_, by simpa using (Bool.and_eq_true_iff.mp h).1⟩

/-! ## Names -/

/-- The works of two clusters differ in how their names end. -/
theorem Names.klusterletWork_ne_kubeconfigWork (a b : String) :
    Names.klusterletWork a ≠ Names.kubeconfigWork b := by
  intro h
  have h := congrArg (fun s : String => s.toList.getLast?) h
  simp [Names.klusterletWork, Names.kubeconfigWork, Names.klusterletWorkSuffix,
    Names.kubeconfigWorkSuffix] at h

theorem Names.klusterletWork_inj {a b : String}
    (h : Names.klusterletWork a = Names.klusterletWork b) : a = b := by
  have h := congrArg String.toList h
  simp only [Names.klusterletWork, String.toList_append, List.append_cancel_right_eq] at h
  exact String.toList_inj.mp h

theorem Names.kubeconfigWork_inj {a b : String}
    (h : Names.kubeconfigWork a = Names.kubeconfigWork b) : a = b := by
  have h := congrArg String.toList h
  simp only [Names.kubeconfigWork, String.toList_append, List.append_cancel_right_eq] at h
  exact String.toList_inj.mp h

theorem Names.klusterletWork_ne_empty (name : String) : Names.klusterletWork name ≠ "" := by
  intro h
  have h := congrArg String.toList h
  simp [Names.klusterletWork, Names.klusterletWorkSuffix] at h

theorem Names.kubeconfigWork_ne_empty (name : String) : Names.kubeconfigWork name ≠ "" := by
  intro h
  have h := congrArg String.toList h
  simp [Names.kubeconfigWork, Names.kubeconfigWorkSuffix] at h

theorem ManifestWork.nameText_eq_iff {w : ManifestWork} {name : String} (h : name ≠ "") :
    w.nameText = name ↔ w.metadata.name = some name := by
  unfold ManifestWork.nameText Metadata.nameText
  cases w.metadata.name with
  | none => simp [Ne.symm h]
  | some n => simp

theorem ClusterWorks.mem_others_iff {ws : ClusterWorks} {cluster : String} {w : ManifestWork}
    (hws : ∀ w ∈ ws.hosted, w.metadata.IsNamed) :
    w ∈ ws.others cluster ↔ w ∈ ws.hosted ∧ w.nameText ≠ Names.klusterletWork cluster ∧
      w.nameText ≠ Names.kubeconfigWork cluster := by
  unfold others
  rw [List.mem_filter, Bool.and_eq_true, bne_iff_ne, bne_iff_ne]
  refine and_congr_right fun hw => ?_
  rw [ManifestWork.anyName_eq (hws w hw)]

/-! ## Listings -/

namespace Hub
namespace Memory

variable {m m' : Memory} {c d : ManagedCluster} {w : ManifestWork}

/-- The works of the cluster, its own and those on its hosting cluster. -/
def worksOf (m : Memory) (c : ManagedCluster) : ClusterWorks where
  own := m.worksIn c.nameText none
  hosted := match c.hosting? with
    | none => []
    | some h => m.worksIn h (some (Pass.hostedSelector c.nameText))

theorem worksIn_congr (h : m'.works = m.works) (nspace : String) (selector : Option String) :
    m'.worksIn nspace selector = m.worksIn nspace selector := by
  unfold worksIn
  rw [h]

theorem worksOf_congr (h : m'.works = m.works) (c : ManagedCluster) :
    m'.worksOf c = m.worksOf c := by
  unfold worksOf
  simp only [worksIn_congr h]

/-- The work is filed under `k` and labelled with the cluster `name`. -/
def Labelled (m : Memory) (name : String) (k : ObjectKey) (w : ManifestWork) : Prop :=
  m.works.get? k = some w ∧ w.metadata.label? Names.hostedCluster = some name

theorem mem_own_iff : w ∈ (m.worksOf c).own ↔ ∃ k, m.works.get? k = some w ∧
    k.nspace = c.nameText := by
  show w ∈ m.worksIn _ _ ↔ _
  rw [mem_worksIn]
  simp [selects]

theorem mem_hosted_iff_selects : w ∈ (m.worksOf c).hosted ↔ ∃ k, m.works.get? k = some w ∧
    c.hosting? = some k.nspace ∧
      selects w.metadata (some (Pass.hostedSelector c.nameText)) = true := by
  unfold worksOf
  cases c.hosting? with
  | none => simp
  | some h => simp only [mem_worksIn, Option.some.injEq, eq_comm]

theorem mem_hosted_iff (hn : ',' ∉ c.nameText.toList) :
    w ∈ (m.worksOf c).hosted ↔ ∃ k, m.Labelled c.nameText k w ∧ c.hosting? = some k.nspace := by
  unfold Labelled
  simp only [mem_hosted_iff_selects, selects_hostedSelector hn, beq_iff_eq, and_assoc, and_comm]

theorem Named.own (hm : m.Named) (hw : w ∈ (m.worksOf c).own) : w.metadata.IsNamed := by
  obtain ⟨k, hk, -⟩ := mem_own_iff.mp hw
  exact hm.workNames k w hk

theorem Named.hosted (hm : m.Named) (hw : w ∈ (m.worksOf c).hosted) : w.metadata.IsNamed := by
  obtain ⟨k, hk, -⟩ := mem_hosted_iff_selects.mp hw
  exact hm.workNames k w hk

/-- A work is there in the cluster's namespace, or with its label in that of its hosting
cluster. -/
def HoldsWork (m : Memory) (c : ManagedCluster) : Prop :=
  ∃ k w, m.works.get? k = some w ∧ (k.nspace = c.nameText ∨
    c.hosting? = some k.nspace ∧ w.metadata.label? Names.hostedCluster = some c.nameText)

theorem worksOf_eq_empty_iff (hn : ',' ∉ c.nameText.toList) :
    (m.worksOf c).total = 0 ↔ ¬m.HoldsWork c := by
  have hempty : (m.worksOf c).total = 0 ↔ (m.worksOf c).own = [] ∧ (m.worksOf c).hosted = [] := by
    simp [ClusterWorks.total]
  rw [hempty, List.eq_nil_iff_forall_not_mem, List.eq_nil_iff_forall_not_mem]
  simp only [mem_own_iff, mem_hosted_iff hn, Labelled, HoldsWork]
  constructor
  · rintro ⟨hown, hhosted⟩ ⟨k, w, hk, h | h⟩
    · exact hown w ⟨k, hk, h⟩
    · exact hhosted w ⟨k, ⟨hk, h.2⟩, h.1⟩
  · intro h
    constructor
    · rintro w ⟨k, hk, hs⟩
      exact h ⟨k, w, hk, Or.inl hs⟩
    · rintro w ⟨k, hk, hs⟩
      exact h ⟨k, w, hk.1, Or.inr ⟨hs, hk.2⟩⟩

theorem holdsWork_congr (hw : m'.works = m.works) (hc : d.bare = c.bare) :
    m'.HoldsWork d ↔ m.HoldsWork c := by
  unfold HoldsWork
  rw [hw, ManagedCluster.nameText_of_bare hc, ManagedCluster.hosting?_of_bare hc]

end Memory
end Hub
end Hosting
