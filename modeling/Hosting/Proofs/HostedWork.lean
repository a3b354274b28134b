import Hosting.HostedWork
import Hosting.Proofs.Payload
import Hosting.Proofs.Table

/-!
# Hosted works

What the two works of a hosted cluster are, and what is stored once one of them is brought
to the hub (`brought`): it is as desired, and bringing it once more changes nothing.
-/

namespace Hosting

theorem WorkSpec.agrees_self_iff {s : WorkSpec} :
    s.agrees s = true ↔ ∀ v ∈ s.manifests, v.agrees v = true := by
  simp [agrees, Json.agreesItems_self_iff]

/-! ## The two works -/

namespace HostedWork

variable {cluster hosting : String} {payload content : Bytes} {w : ManifestWork}

theorem label?_metadata (name hosting cluster : String) :
    (metadata name hosting cluster).label? Names.hostedCluster = some cluster :=
  Table.get?_singleton_self _ _

theorem klusterlet_eq_ok (h : klusterlet cluster hosting payload = .ok w) :
    ∃ objects, Payload.decodeAll payload = .ok objects ∧ w = {
      metadata := { metadata (Names.klusterletWork cluster) hosting cluster with
        annotations := some (.singleton Names.cleanupPriority "100") }
      spec := {
        manifests := carried objects
        deletion := some .foreground
        configs := [readyFeedback cluster] } } := by
  unfold klusterlet at h
  split at h
  · cases h
  · next objects hobjects =>
    cases h
    exact ⟨objects, hobjects, rfl⟩

theorem key_klusterlet (h : klusterlet cluster hosting payload = .ok w) :
    w.key = ⟨hosting, Names.klusterletWork cluster⟩ := by
  obtain ⟨objects, -, rfl⟩ := klusterlet_eq_ok h
  rfl

theorem label?_klusterlet (h : klusterlet cluster hosting payload = .ok w) :
    w.metadata.label? Names.hostedCluster = some cluster := by
  obtain ⟨objects, -, rfl⟩ := klusterlet_eq_ok h
  exact label?_metadata (Names.klusterletWork cluster) hosting cluster

theorem agrees_self_of_klusterlet (h : klusterlet cluster hosting payload = .ok w) :
    w.spec.agrees w.spec = true := by
  obtain ⟨objects, hobjects, rfl⟩ := klusterlet_eq_ok h
  refine WorkSpec.agrees_self_iff.mpr fun v hv => ?_
  exact Payload.agrees_self_of_decodeAll hobjects v (List.mem_filter.mp hv).1

theorem kubeconfig_eq_ok (h : kubeconfig cluster hosting content = .ok w) :
    w = {
      metadata := metadata (Names.kubeconfigWork cluster) hosting cluster
      spec := { manifests := [kubeconfigSecret cluster content], deletion := some .orphan } } := by
  unfold kubeconfig at h
  split at h
  · cases h
  · cases h
    rfl

theorem kubeconfig_of_blank (h : ∀ b ∈ content, isAsciiBlank b = true) :
    kubeconfig cluster hosting content = .error .missingKubeconfig :=
  if_pos (List.all_eq_true.mpr h)

theorem kubeconfig_of_mem {b : UInt8} (hb : b ∈ content) (hnot : isAsciiBlank b = false) :
    ∃ w, kubeconfig cluster hosting content = .ok w := by
  have hall : ¬content.all isAsciiBlank = true := by
    intro hall
    rw [List.all_eq_true.mp hall b hb] at hnot
    cases hnot
  unfold kubeconfig
  rw [if_neg hall]
  exact ⟨_, rfl⟩

theorem key_kubeconfig (h : kubeconfig cluster hosting content = .ok w) :
    w.key = ⟨hosting, Names.kubeconfigWork cluster⟩ := by
  rw [kubeconfig_eq_ok h]
  rfl

theorem label?_kubeconfig (h : kubeconfig cluster hosting content = .ok w) :
    w.metadata.label? Names.hostedCluster = some cluster := by
  rw [kubeconfig_eq_ok h]
  exact label?_metadata _ _ _

theorem isExact_kubeconfigSecret (cluster : String) (content : Bytes) :
    (kubeconfigSecret cluster content).isExact = true := by
  refine Json.isExact_ofMembers fun m hm => ?_
  simp only [List.mem_cons, List.not_mem_nil, or_false] at hm
  rcases hm with rfl | rfl | rfl | rfl | rfl
  · rfl
  · rfl
  · rfl
  · exact Json.isExact_ofMembers fun m hm => by
      simp only [List.mem_cons, List.not_mem_nil, or_false] at hm
      rcases hm with rfl | rfl <;> rfl
  · exact Json.isExact_ofMembers fun m hm => by
      simp only [List.mem_cons, List.not_mem_nil, or_false] at hm
      rw [hm]
      rfl

theorem agrees_self_of_kubeconfig (h : kubeconfig cluster hosting content = .ok w) :
    w.spec.agrees w.spec = true := by
  rw [kubeconfig_eq_ok h]
  refine WorkSpec.agrees_self_iff.mpr fun v hv => ?_
  rw [List.mem_singleton.mp hv]
  exact Json.agrees_self_of_isExact (isExact_kubeconfigSecret cluster content)

/-- What the work `desired` asks for is one of the two works' own. -/
structure IsOwn (cluster hosting : String) (desired : ManifestWork) : Prop where
  key : desired.key = ⟨hosting, Names.klusterletWork cluster⟩ ∨
    desired.key = ⟨hosting, Names.kubeconfigWork cluster⟩
  named : desired.metadata.IsNamed
  self : desired.spec.agrees desired.spec = true
  label : desired.metadata.label? Names.hostedCluster = some cluster
  labels : ∀ l, l ≠ Names.hostedCluster → desired.metadata.label? l = none
  annotations : ∀ a, a ≠ Names.cleanupPriority → desired.metadata.annotation? a = none

theorem isOwn_of_klusterlet (h : klusterlet cluster hosting payload = .ok w) :
    IsOwn cluster hosting w where
  key := Or.inl (key_klusterlet h)
  named := by
    obtain ⟨objects, -, rfl⟩ := klusterlet_eq_ok h
    rfl
  self := agrees_self_of_klusterlet h
  label := label?_klusterlet h
  labels l hl := by
    obtain ⟨objects, -, rfl⟩ := klusterlet_eq_ok h
    exact Table.get?_singleton_of_ne hl _
  annotations a ha := by
    obtain ⟨objects, -, rfl⟩ := klusterlet_eq_ok h
    exact Table.get?_singleton_of_ne ha _

theorem isOwn_of_kubeconfig (h : kubeconfig cluster hosting content = .ok w) :
    IsOwn cluster hosting w where
  key := Or.inr (key_kubeconfig h)
  named := by
    rw [kubeconfig_eq_ok h]
    rfl
  self := agrees_self_of_kubeconfig h
  label := label?_kubeconfig h
  labels l hl := by
    rw [kubeconfig_eq_ok h]
    exact Table.get?_singleton_of_ne hl _
  annotations a ha := by
    rw [kubeconfig_eq_ok h]
    rfl

end HostedWork

/-! ## Bringing a work -/

namespace ManifestWork

/-- The work under no version. -/
def unversioned (w : ManifestWork) : ManifestWork :=
  { w with metadata := { w.metadata with resourceVersion := none } }

/-- What is stored once the work `desired` is brought to where `old` is. -/
def brought (desired : ManifestWork) : Option ManifestWork → ManifestWork
  | none => { desired with status := none }
  | some w => if w.fulfils desired then w else w.updatedTo desired

variable {desired w w' : ManifestWork} {old : Option ManifestWork}

theorem brought_some (desired w : ManifestWork) :
    desired.brought (some w) = if w.fulfils desired then w else w.updatedTo desired := rfl

theorem fulfils_of_unversioned (h : w.unversioned = w'.unversioned) (desired : ManifestWork) :
    w.fulfils desired = w'.fulfils desired := by
  show w.unversioned.fulfils desired = w'.unversioned.fulfils desired
  rw [h]

theorem status_of_unversioned (h : w.unversioned = w'.unversioned) : w.status = w'.status := by
  show w.unversioned.status = w'.unversioned.status
  rw [h]

theorem label?_of_unversioned (h : w.unversioned = w'.unversioned) (l : String) :
    w.metadata.label? l = w'.metadata.label? l := by
  show w.unversioned.metadata.label? l = w'.unversioned.metadata.label? l
  rw [h]

theorem annotation?_of_unversioned (h : w.unversioned = w'.unversioned) (a : String) :
    w.metadata.annotation? a = w'.metadata.annotation? a := by
  show w.unversioned.metadata.annotation? a = w'.unversioned.metadata.annotation? a
  rw [h]

theorem key_of_unversioned (h : w.unversioned = w'.unversioned) : w.key = w'.key := by
  show w.unversioned.key = w'.unversioned.key
  rw [h]

theorem covers_iff {have_ want : Option (Table String String)} :
    covers have_ want = true ↔
      ∀ k v, want.bind (·.get? k) = some v → have_.bind (·.get? k) = some v := by
  cases want with
  | none => simp [covers]
  | some t =>
    simp only [covers, Option.map_some, Option.all_some, List.all_eq_true, beq_iff_eq,
      Option.bind_some]
    constructor
    · intro h k v hk
      exact h (k, v) (Table.mem_entries_iff.mpr hk)
    · intro h e he
      exact h e.1 e.2 (Table.mem_entries_iff.mp he)

/-- The entries that were there, under those that are wanted. -/
def merged (had want : Option (Table String String)) : Option (Table String String) :=
  want.elim had fun t => some ((had.getD .empty).extend t)

theorem covers_merged (had want : Option (Table String String)) :
    covers (merged had want) want = true := by
  refine covers_iff.mpr fun k v hk => ?_
  cases want with
  | none => cases hk
  | some t => exact Table.get?_extend_of_some _ hk

theorem get?_merged_of_none (had : Option (Table String String))
    {want : Option (Table String String)} {k : String} (hk : want.bind (·.get? k) = none) :
    (merged had want).bind (·.get? k) = had.bind (·.get? k) := by
  cases want with
  | none => rfl
  | some t =>
    refine (Table.get?_extend_of_none _ hk).trans ?_
    cases had <;> rfl

theorem labels_updatedTo (w desired : ManifestWork) : (w.updatedTo desired).metadata.labels =
    merged w.metadata.labels desired.metadata.labels := by
  unfold updatedTo merged
  cases desired.metadata.labels <;> rfl

theorem annotations_updatedTo (w desired : ManifestWork) :
    (w.updatedTo desired).metadata.annotations =
      merged w.metadata.annotations desired.metadata.annotations := by
  unfold updatedTo merged
  cases desired.metadata.annotations <;> rfl

theorem fulfils_updatedTo (hself : desired.spec.agrees desired.spec = true) (w : ManifestWork) :
    (w.updatedTo desired).fulfils desired = true := by
  unfold fulfils
  rw [Bool.and_eq_true, Bool.and_eq_true, labels_updatedTo, annotations_updatedTo]
  exact ⟨⟨hself, covers_merged _ _⟩, covers_merged _ _⟩

theorem fulfils_brought (hself : desired.spec.agrees desired.spec = true)
    (old : Option ManifestWork) : (desired.brought old).fulfils desired = true := by
  cases old with
  | none =>
    show desired.fulfils desired = true
    unfold fulfils
    rw [hself, covers_iff.mpr fun _ _ h => h, covers_iff.mpr fun _ _ h => h]
    rfl
  | some w =>
    rw [brought_some]
    split
    · assumption
    · exact fulfils_updatedTo hself w

theorem brought_of_fulfils (h : w.fulfils desired = true) : desired.brought (some w) = w :=
  if_pos h

theorem status_brought (desired : ManifestWork) (old : Option ManifestWork) :
    (desired.brought old).status = old.bind (·.status) := by
  cases old with
  | none => rfl
  | some w =>
    rw [brought_some]
    split <;> rfl

theorem key_brought (h : ∀ w, old = some w → w.key = desired.key) :
    (desired.brought old).key = desired.key := by
  cases old with
  | none => rfl
  | some w =>
    have hw : w.key = desired.key := h w rfl
    rw [brought_some]
    split <;> exact hw

/-! ## What is left to others -/

/-- The work but for its spec, labels, annotations and version. -/
def core (w : ManifestWork) : ManifestWork :=
  { w with
    spec := {}
    metadata := { w.metadata with labels := none, annotations := none, resourceVersion := none } }

/-- Status, finalizers and the time of deletion are as they were, and so are the labels and
annotations that are not those of a hosted work. -/
structure Retains (w w' : ManifestWork) : Prop where
  core : w'.core = w.core
  labels : ∀ l, l ≠ Names.hostedCluster → w'.metadata.label? l = w.metadata.label? l
  annotations : ∀ a, a ≠ Names.cleanupPriority →
    w'.metadata.annotation? a = w.metadata.annotation? a

namespace Retains

theorem refl (w : ManifestWork) : Retains w w := ⟨rfl, fun _ _ => rfl, fun _ _ => rfl⟩

theorem trans {w'' : ManifestWork} (h : Retains w w') (h' : Retains w' w'') : Retains w w'' where
  core := h'.core.trans h.core
  labels l hl := (h'.labels l hl).trans (h.labels l hl)
  annotations a ha := (h'.annotations a ha).trans (h.annotations a ha)

end Retains

theorem retains_updatedTo {cluster hosting : String} (h : HostedWork.IsOwn cluster hosting desired)
    (w : ManifestWork) : Retains w (w.updatedTo desired) := by
  refine ⟨rfl, fun l hl => ?_, fun a ha => ?_⟩
  · unfold Metadata.label?
    rw [labels_updatedTo]
    exact get?_merged_of_none _ (h.labels l hl)
  · unfold Metadata.annotation?
    rw [annotations_updatedTo]
    exact get?_merged_of_none _ (h.annotations a ha)

theorem retains_brought {cluster hosting : String} (h : HostedWork.IsOwn cluster hosting desired)
    (hw' : w'.unversioned = (desired.brought (some w)).unversioned) : Retains w w' := by
  have hbrought : Retains w (desired.brought (some w)) := by
    rw [brought_some]
    split
    · exact Retains.refl w
    · exact retains_updatedTo h w
  refine hbrought.trans ⟨?_, fun l _ => ?_, fun a _ => ?_⟩
  · show w'.unversioned.core = (desired.brought (some w)).unversioned.core
    rw [hw']
  · exact label?_of_unversioned hw' l
  · exact annotation?_of_unversioned hw' a

end ManifestWork
end Hosting
