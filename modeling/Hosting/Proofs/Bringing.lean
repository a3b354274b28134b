import Hosting.Proofs.Pass.Abreast
import Hosting.Proofs.Run
import Hosting.Proofs.Version

/-!
# Bringing a work is a merge

A work is brought to the hub by one of the calls that create and update it, or by none.  Whether
one is made is told by comparison, and what it stores is told by a merge; `merge_is_lawful` says
that the two fit: a call is left out exactly when it would change nothing, so that what is brought
once stays as it is when it is brought again.
-/

namespace Hosting

namespace ManifestWork

variable {desired w : ManifestWork}

/-- Nothing is changed from `w` to `w'`, with specs compared as `fulfils` compares them. -/
structure Same (w w' : ManifestWork) : Prop where
  spec : w.spec.agrees w'.spec = true
  metadata : w'.metadata = w.metadata
  status : w'.status = w.status

/-- Entries that are there already leave a table as it is.  Without any entries that are wanted,
a table would still be made where there was none. -/
theorem merged_eq_self_iff {had want : Option (Table String String)} (hwant : want ≠ some .empty) :
    merged had want = had ↔ covers had want = true := by
  refine ⟨fun h => h ▸ covers_merged had want, fun h => ?_⟩
  cases want with
  | none => rfl
  | some t =>
    rw [covers_iff] at h
    cases had with
    | none =>
      refine absurd (congrArg some (Table.ext_get? fun k => ?_)) hwant
      cases hk : t.get? k with
      | none => rfl
      | some v => cases h k v hk
    | some u =>
      refine congrArg some (Table.ext_get? fun k => ?_)
      cases hk : t.get? k with
      | none => exact Table.get?_extend_of_none u hk
      | some v => exact (Table.get?_extend_of_some u hk).trans (h k v hk).symm

/-- The comparison foresees whether the merge would change anything. -/
theorem fulfils_iff_same (hlabels : desired.metadata.labels ≠ some .empty)
    (hannotations : desired.metadata.annotations ≠ some .empty) :
    w.fulfils desired = true ↔ Same w (w.updatedTo desired) := by
  have hmetadata : (w.updatedTo desired).metadata = w.metadata ↔
      merged w.metadata.labels desired.metadata.labels = w.metadata.labels ∧
        merged w.metadata.annotations desired.metadata.annotations = w.metadata.annotations := by
    rw [← labels_updatedTo, ← annotations_updatedTo]
    refine ⟨fun h => ⟨by rw [h], by rw [h]⟩, fun h => ?_⟩
    show { w.metadata with
      labels := (w.updatedTo desired).metadata.labels
      annotations := (w.updatedTo desired).metadata.annotations } = w.metadata
    rw [h.1, h.2]
  rw [merged_eq_self_iff hlabels, merged_eq_self_iff hannotations] at hmetadata
  unfold fulfils
  rw [Bool.and_eq_true, Bool.and_eq_true, and_assoc, ← hmetadata]
  exact ⟨fun h => ⟨h.1, h.2, rfl⟩, fun h => ⟨h.spec, h.metadata⟩⟩

/-- The work `w` has come of `old` by what `desired` asks for: all else is kept, status,
finalizers and the time of deletion among it. -/
structure Keeps (desired old w : ManifestWork) : Prop where
  core : w.core = old.core
  labels : ∀ l, desired.metadata.label? l = none → w.metadata.label? l = old.metadata.label? l
  annotations : ∀ a, desired.metadata.annotation? a = none →
    w.metadata.annotation? a = old.metadata.annotation? a

theorem Keeps.refl (desired w : ManifestWork) : Keeps desired w w :=
  ⟨rfl, fun _ _ => rfl, fun _ _ => rfl⟩

theorem keeps_updatedTo (desired old : ManifestWork) :
    Keeps desired old (old.updatedTo desired) := by
  refine ⟨rfl, fun l hl => ?_, fun a ha => ?_⟩
  · unfold Metadata.label?
    rw [labels_updatedTo]
    exact get?_merged_of_none _ hl
  · unfold Metadata.annotation?
    rw [annotations_updatedTo]
    exact get?_merged_of_none _ ha

end ManifestWork

namespace HostedWork

/-- One of the two works of a hosted cluster. -/
inductive Built (desired : ManifestWork) : Prop where
  | klusterlet {cluster hosting : String} {payload : Bytes}
      (h : HostedWork.klusterlet cluster hosting payload = .ok desired)
  | kubeconfig {cluster hosting : String} {content : Bytes}
      (h : HostedWork.kubeconfig cluster hosting content = .ok desired)

namespace Built

variable {desired : ManifestWork}

theorem isOwn (h : Built desired) : ∃ cluster hosting, IsOwn cluster hosting desired := by
  cases h with
  | klusterlet h => exact ⟨_, _, isOwn_of_klusterlet h⟩
  | kubeconfig h => exact ⟨_, _, isOwn_of_kubeconfig h⟩

theorem named (h : Built desired) : desired.metadata.IsNamed := by
  obtain ⟨cluster, hosting, hown⟩ := h.isOwn
  exact hown.named

theorem labels_ne (h : Built desired) : desired.metadata.labels ≠ some .empty := by
  obtain ⟨cluster, hosting, hown⟩ := h.isOwn
  intro hempty
  have hlabel := hown.label
  unfold Metadata.label? at hlabel
  rw [hempty] at hlabel
  cases hlabel

theorem annotations_ne (h : Built desired) : desired.metadata.annotations ≠ some .empty := by
  intro hempty
  cases h with
  | klusterlet h =>
    obtain ⟨objects, -, rfl⟩ := klusterlet_eq_ok h
    have hpriority := congrArg (Option.bind · (·.get? Names.cleanupPriority)) hempty
    have hsome : (Table.singleton Names.cleanupPriority "100").get? Names.cleanupPriority =
        some "100" := Table.get?_singleton_self _ _
    cases hsome.symm.trans hpriority
  | kubeconfig h =>
    rw [kubeconfig_eq_ok h] at hempty
    cases hempty

end Built
end HostedWork

namespace Bringing

open Hub (Memory Operation Write)
open Hub.Memory (Alike ifCurrent_of_same stamped unlessFailing)
open HostedWork (Built)
open ManifestWork (Keeps Same fulfils_iff_same)
open Pass

variable {t : Instant} {c : ManagedCluster} {desired old w : ManifestWork} {m : Memory}
  {op : Operation} {k : ObjectKey} {note : Write}

/-! ## Calls -/

/-- What is stored of a work that was not there. -/
def created (desired : ManifestWork) (m : Memory) : ManifestWork :=
  { desired with metadata := stamped desired.metadata (m.version + 1), status := none }

/-- What is stored in the place of the work `old`. -/
def replaced (desired old : ManifestWork) (m : Memory) : ManifestWork :=
  { old.updatedTo desired with
    metadata := stamped (old.updatedTo desired).metadata (m.version + 1) }

/-- The hub after a call that stores a work. -/
def storing (m : Memory) (k : ObjectKey) (w : ManifestWork) (note : Write) : Memory :=
  { m with works := m.works.insert k w, version := m.version + 1, writes := m.writes ++ [note] }

/-- The call that creates a work, or the one that updates it, was to fail, and nothing is done. -/
structure Foiled (m : Memory) (f : Failure) (m' : Memory) : Prop where
  waylaid : ∃ op text, (op = .createWork ∨ op = .replaceWork) ∧
    m.failures.get? op = some text ∧ f = .hub (.rejected text)
  alike : Alike m m'
  writes : m'.writes = m.writes

/-- The work is stored, which is the one write. -/
structure Stored (m : Memory) (k : ObjectKey) (w : ManifestWork) (note : Write) (m' : Memory) :
    Prop where
  works : m'.works = m.works.insert k w
  writes : m'.writes = m.writes ++ [note]

/-- The call is foiled, or it stores the work `w` and gives it. -/
def Ends (m : Memory) (k : ObjectKey) (w : ManifestWork) (note : Write) :
    Except Failure ManifestWork × Memory → Prop
  | (.error f, m') => Foiled m f m'
  | (.ok w', m') => w' = w ∧ Stored m k w note m'

theorem createWork_eq (hw : m.works.get? desired.key = none) :
    m.createWork desired = m.unlessFailing .createWork
      (.ok (created desired m),
        storing m desired.key (created desired m) (.createWork desired.key)) := by
  unfold Memory.createWork
  rw [hw]
  rfl

/-- An update carries the version of the work that it was made from, so that it is not stale. -/
theorem replaceWork_eq (hw : m.works.get? desired.key = some old) (hkey : old.key = desired.key) :
    m.replaceWork (old.updatedTo desired) = m.unlessFailing .replaceWork
      (.ok (replaced desired old m),
        storing m desired.key (replaced desired old m) (.replaceWork desired.key)) := by
  have hk : (old.updatedTo desired).key = desired.key := hkey
  unfold Memory.replaceWork
  rw [hk, hw]
  exact congrArg _ (ifCurrent_of_same rfl)

theorem ends_call {p : Pass ManifestWork} (hop : op = .createWork ∨ op = .replaceWork)
    {r : Except Hub.Error ManifestWork × Memory}
    (hr : r = m.unlessFailing op (.ok w, storing m k w note))
    (hp : m.talk t p.run = (r.1.mapError .hub, r.2)) (e : Hub.Event) :
    Ends m k w note (m.talk t (p >>= fun w => publish c e >>= fun _ => pure w).run) := by
  unfold unlessFailing at hr
  cases hf : m.failures.get? op with
  | some text =>
    rw [hf] at hr
    subst hr
    rw [talk_bind_error (congrArg Prod.fst hp), hp]
    exact ⟨⟨op, text, hop, hf, rfl⟩, ⟨rfl, rfl, rfl, rfl⟩, rfl⟩
  | none =>
    rw [hf] at hr
    subst hr
    rw [talk_bind_ok (congrArg Prod.fst hp), hp]
    exact ⟨rfl, rfl, rfl⟩

/-! ## The whole step -/

section Calls

variable (hnamed : desired.metadata.IsNamed)

include hnamed

theorem talk_applyWork (hw : m.works.get? desired.key = some w)
    (hful : w.fulfils desired = true) (t : Instant) (c : ManagedCluster) :
    m.talk t (applyWork c desired).run = (.ok w, m) := by
  have hlook := talk_getWork m t desired.key
  unfold applyWork
  rw [ManifestWork.anyKey_eq hnamed, talk_bind_ok (congrArg Prod.fst hlook), hlook, hw]
  dsimp only
  rw [if_pos hful]
  rfl

theorem ends_create (hw : m.works.get? desired.key = none) (t : Instant) (c : ManagedCluster) :
    Ends m desired.key (created desired m) (.createWork desired.key)
      (m.talk t (applyWork c desired).run) := by
  have hlook := talk_getWork m t desired.key
  unfold applyWork
  rw [ManifestWork.anyKey_eq hnamed, talk_bind_ok (congrArg Prod.fst hlook), hlook, hw]
  exact ends_call (Or.inl rfl) (createWork_eq hw) (talk_ask m t (.createWork desired)) _

theorem ends_replace (hw : m.works.get? desired.key = some old) (hkey : old.key = desired.key)
    (hful : ¬old.fulfils desired = true) (t : Instant) (c : ManagedCluster) :
    Ends m desired.key (replaced desired old m) (.replaceWork desired.key)
      (m.talk t (applyWork c desired).run) := by
  have hlook := talk_getWork m t desired.key
  unfold applyWork
  rw [ManifestWork.anyKey_eq hnamed, talk_bind_ok (congrArg Prod.fst hlook), hlook, hw]
  dsimp only
  rw [if_neg hful]
  exact ends_call (Or.inr rfl) (replaceWork_eq hw hkey)
    (talk_ask m t (.replaceWork (old.updatedTo desired))) _

end Calls

/-- The work `w` that a call gives is the stored one, and is as `desired` asks; it has come of the
work before by a merge, which was written exactly if it changes anything. -/
structure Merges (desired w : ManifestWork) (m m' : Memory) : Prop where
  stored : m'.works.get? desired.key = some w
  fulfils : w.fulfils desired = true
  again : ∀ t c, m'.talk t (applyWork c desired).run = (.ok w, m')
  fresh : m.works.get? desired.key = none →
    w = created desired m ∧ m'.writes = m.writes ++ [.createWork desired.key]
  keeps : ∀ old, m.works.get? desired.key = some old → Keeps desired old w
  skipped : ∀ old, m.works.get? desired.key = some old → Same old (old.updatedTo desired) →
    w = old ∧ m' = m
  written : ∀ old, m.works.get? desired.key = some old → ¬Same old (old.updatedTo desired) →
    m'.writes = m.writes ++ [.replaceWork desired.key]

/-- The call is foiled, or it merges. -/
def Lawful (desired : ManifestWork) (m : Memory) : Except Failure ManifestWork × Memory → Prop
  | (.error f, m') => Foiled m f m'
  | (.ok w, m') => Merges desired w m m'

theorem Stored.get? {m' : Memory} (h : Stored m k w note m') : m'.works.get? k = some w := by
  rw [h.works, Table.get?_insert_self]

theorem lawful_of_ends {r : Except Failure ManifestWork × Memory} (h : Ends m k w note r)
    (hmerges : ∀ m', Stored m k w note m' → Merges desired w m m') : Lawful desired m r := by
  obtain ⟨f | w', m'⟩ := r
  · exact h
  · obtain ⟨rfl, hstored⟩ := h
    exact hmerges m' hstored

section Merges

variable {m' : Memory} (h : Built desired)

include h

theorem merges_create (hw : m.works.get? desired.key = none)
    (hstored : Stored m desired.key (created desired m) (.createWork desired.key) m') :
    Merges desired (created desired m) m m' := by
  obtain ⟨cluster, hosting, hown⟩ := h.isOwn
  have hful : (created desired m).fulfils desired = true :=
    ManifestWork.fulfils_brought hown.self none
  have hnone (old : ManifestWork) : m.works.get? desired.key ≠ some old := by
    rw [hw]
    exact nofun
  exact {
    stored := hstored.get?
    fulfils := hful
    again := talk_applyWork h.named hstored.get? hful
    fresh := fun _ => ⟨rfl, hstored.writes⟩
    keeps := fun old hold => absurd hold (hnone old)
    skipped := fun old hold => absurd hold (hnone old)
    written := fun old hold => absurd hold (hnone old) }

theorem merges_skip (hw : m.works.get? desired.key = some old)
    (hful : old.fulfils desired = true) : Merges desired old m m := by
  have hsame : Same old (old.updatedTo desired) :=
    (fulfils_iff_same h.labels_ne h.annotations_ne).mp hful
  have honly {x : ManifestWork} (hx : m.works.get? desired.key = some x) : old = x :=
    Option.some.inj (hw.symm.trans hx)
  exact {
    stored := hw
    fulfils := hful
    again := talk_applyWork h.named hw hful
    fresh := fun hnone => nomatch hw.symm.trans hnone
    keeps := fun x hx => honly hx ▸ Keeps.refl desired old
    skipped := fun x hx _ => ⟨honly hx, rfl⟩
    written := fun x hx hnot => absurd (honly hx ▸ hsame) hnot }

theorem merges_replace (hw : m.works.get? desired.key = some old)
    (hful : ¬old.fulfils desired = true)
    (hstored : Stored m desired.key (replaced desired old m) (.replaceWork desired.key) m') :
    Merges desired (replaced desired old m) m m' := by
  obtain ⟨cluster, hosting, hown⟩ := h.isOwn
  have hful' : (replaced desired old m).fulfils desired = true :=
    ManifestWork.fulfils_updatedTo hown.self old
  have hnot : ¬Same old (old.updatedTo desired) :=
    fun hsame => hful ((fulfils_iff_same h.labels_ne h.annotations_ne).mpr hsame)
  -- the new version is no part of what is kept
  have hkept : Keeps desired old (replaced desired old m) :=
    ⟨rfl, (ManifestWork.keeps_updatedTo desired old).labels,
      (ManifestWork.keeps_updatedTo desired old).annotations⟩
  have honly {x : ManifestWork} (hx : m.works.get? desired.key = some x) : old = x :=
    Option.some.inj (hw.symm.trans hx)
  exact {
    stored := hstored.get?
    fulfils := hful'
    again := talk_applyWork h.named hstored.get? hful'
    fresh := fun hnone => nomatch hw.symm.trans hnone
    keeps := fun x hx => honly hx ▸ hkept
    skipped := fun x hx hsame => absurd (honly hx ▸ hsame) hnot
    written := fun _ _ _ => hstored.writes }

end Merges

/-- Whatever the hub holds, bringing a work of a hosted cluster is a merge, or it is foiled and
leaves all as it is. -/
theorem merge_is_lawful (hm : m.Filed) (h : Built desired) (t : Instant) (c : ManagedCluster) :
    Lawful desired m (m.talk t (applyWork c desired).run) := by
  cases hw : m.works.get? desired.key with
  | none => exact lawful_of_ends (ends_create h.named hw t c) fun m' => merges_create h hw
  | some old =>
    have hkey : old.key = desired.key := hm.works _ _ hw
    by_cases hful : old.fulfils desired = true
    · rw [talk_applyWork h.named hw hful]
      exact merges_skip h hw hful
    · exact lawful_of_ends (ends_replace h.named hw hkey hful t c)
        fun m' => merges_replace h hw hful

def credentials : ManifestWork where
  metadata := HostedWork.metadata (Names.kubeconfigWork "c") "h" "c"
  spec := { manifests := [HostedWork.kubeconfigSecret "c" [0x6B]], deletion := some .orphan }

/-- The work is there without its spec, and the agent has its finalizer on it. -/
def drifted : Memory :=
  Run.after "c" [.change (.work (Sample.labelled "h" (Names.kubeconfigWork "c") "c"))] {}

/-- The hub after the work is brought, with the answer. -/
def remedied : Except Failure ManifestWork × Memory :=
  drifted.talk Sample.now (applyWork (Sample.hosted "c" "h") credentials).run

theorem drifted_is_merged : Lawful credentials drifted remedied ∧ remedied.1.toBool = true ∧
    remedied.2.writes = [.replaceWork ⟨"h", Names.kubeconfigWork "c"⟩] := by
  have hbuilt : HostedWork.kubeconfig "c" "h" [0x6B] = .ok credentials := rfl
  have hnamed : drifted.Named := Run.named_after _ Hub.Memory.named_empty (by decide +kernel)
  refine ⟨?_, by decide +kernel⟩
  exact merge_is_lawful hnamed.toFiled (.kubeconfig hbuilt) Sample.now (Sample.hosted "c" "h")

end Bringing
end Hosting
