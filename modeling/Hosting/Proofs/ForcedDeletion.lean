import Hosting.Proofs.Independence
import Hosting.Proofs.Pass.Force

/-!
# What a cluster out of reach leaves behind

The works of a deleting cluster that does not answer are all removed in one pass.  In a hub that
refuses nothing this always succeeds: `cleared_by_force` says what is left of the works, and in
which order they were deleted.
-/

namespace Hosting
namespace ForcedDeletion

open Hub (Memory)
open Pass Sample

variable {name : String} {ctx : Context} {c : ManagedCluster} {m m' : Memory} {t : Instant}

/-- The work `w` under `k` is in the namespace of the hosting cluster, with the label of `c`. -/
def Hosts (c : ManagedCluster) (m : Memory) (k : ObjectKey) (w : ManifestWork) : Prop :=
  m.Labelled c.nameText k w ∧ c.hosting? = some k.nspace

/-- A hosted work is under `k` that is not being deleted. -/
def HostsLive (c : ManagedCluster) (m : Memory) (k : ObjectKey) : Prop :=
  ∃ w, Hosts c m k w ∧ w.isDeleting = false

/-- Keys of works in the order in which these go, each once: own works, those that the agent
has to clean up, the agent, and its credentials. -/
structure InTurn (c : ManagedCluster) (m : Memory) (own others agent credentials : List ObjectKey) :
    Prop where
  once : (own ++ (others ++ agent ++ credentials)).Nodup
  own : ∀ k, k ∈ own ↔ k.nspace = c.nameText ∧ ∃ w, m.works.get? k = some w
  others : ∀ k, k ∈ others ↔ HostsLive c m k ∧ k.name ≠ Names.klusterletWork c.nameText ∧
    k.name ≠ Names.kubeconfigWork c.nameText
  agent : ∀ k, k ∈ agent ↔ HostsLive c m k ∧ k.name = Names.klusterletWork c.nameText
  credentials : ∀ k, k ∈ credentials ↔ HostsLive c m k ∧
    k.name = Names.kubeconfigWork c.nameText

/-- What becomes of the works in the state `m` when those of the cluster `c` are deleted by
force. -/
structure Cleared (c : ManagedCluster) (m m' : Memory) : Prop where
  own : ∀ k, k.nspace = c.nameText → m'.works.get? k = none
  idle : ∀ k w, Hosts c m k w → w.isDeleting = false → w.metadata.finalizers.getD [] = [] →
    m'.works.get? k = none
  finalizing : ∀ k w, Hosts c m k w →
    (w.isDeleting = true ∨ w.metadata.finalizers.getD [] ≠ []) →
      ∃ w', m'.works.get? k = some w' ∧ w'.isDeleting = true ∧
        w'.metadata.finalizers = w.metadata.finalizers ∧ w'.content = w.content
  foreign : ∀ k, k.nspace ≠ c.nameText → (∀ w, ¬Hosts c m k w) →
    m'.works.get? k = m.works.get? k
  order : ∃ own others agent credentials, InTurn c m own others agent credentials ∧
    m'.deletions = m.deletions ++ (own ++ (others ++ agent ++ credentials))

/-! ## The pass -/

/-- A pass over a deleting cluster in a quiet hub is a deletion from the state that it found. -/
theorem talk_reconcile (hq : m.Quiet) (hnamed : c.metadata.IsNamed)
    (hc : m.clusters.get? name = some c) (hhosted : c.isHosted = true)
    (hdel : c.isDeleting = true) :
    m.talk t (reconcile ctx name).run = m.talk t (do
      syncFinalizer ctx c (m.worksOf c).total
      deletion ctx c (m.worksOf c) : Pass Outcome).run := by
  have hread : m.talk t (ask (.getCluster name)).run = (.ok (some c), m) := by
    rw [talk_ask, ← hc]
    rfl
  have hlist := talk_listWorks hq hnamed t
  unfold reconcile
  rw [talk_bind_ok (congrArg Prod.fst hread), hread]
  dsimp only
  rw [if_pos hhosted, talk_bind_ok (congrArg Prod.fst hlist), hlist, if_pos hdel]

/-- No step of a deletion is refused. -/
theorem outcome_ok (hn : ',' ∉ name.toList) (hm : m.Named) (hq : m.Quiet)
    (hc : m.clusters.get? name = some c) (hhosted : c.isHosted = true)
    (hdel : c.isDeleting = true) : ∃ o, Run.outcome ctx name m = .ok o := by
  have hnamed : c.metadata.IsNamed := hm.clusterNames name c hc
  have hcalm := Independence.calm_sight hm.toFiled hq name
  have hfits : Fits (Independence.sight name m) c := by
    refine ⟨hnamed, hm.clusters name c hc, ?_, hn⟩
    show c.hosting? = (m.clusters.get? name).bind _
    rw [hc]
    rfl
  have habreast : Abreast ctx.now (Independence.sight name m) (Well (· = ·)) (do
      syncFinalizer ctx c (m.worksOf c).total
      deletion ctx c (m.worksOf c)) _ m m :=
    (abreast_syncFinalizer (Twins.refl hcalm) hfits.anyName _).bind fun _ _ _ _ _ h₁ =>
      abreast_deletion h₁ hfits fun w hw => seen_of_hosted hm hcalm hfits hw
  obtain ⟨o, -, ho, -⟩ := habreast.1
  exact ⟨o, (congrArg Prod.fst (talk_reconcile hq hnamed hc hhosted hdel)).trans ho⟩

/-! ## What was listed -/

theorem hosts_iff (hn : ',' ∉ c.nameText.toList) (hm : m.Filed) {k : ObjectKey}
    {w : ManifestWork} : Hosts c m k w ↔ w ∈ (m.worksOf c).hosted ∧ w.key = k := by
  constructor
  · rintro ⟨hlabelled, hspace⟩
    exact ⟨(Hub.Memory.mem_hosted_iff hn).mpr ⟨k, hlabelled, hspace⟩, hm.works k w hlabelled.1⟩
  · rintro ⟨hw, rfl⟩
    obtain ⟨k, hlabelled, hspace⟩ := (Hub.Memory.mem_hosted_iff hn).mp hw
    have hkey := hm.works k w hlabelled.1
    subst hkey
    exact ⟨hlabelled, hspace⟩

theorem mem_forced_iff (hn : ',' ∉ c.nameText.toList) (hm : m.Filed) {ws : List ManifestWork}
    (named : String → Prop) (hws : ∀ w, w ∈ ws ↔ w ∈ (m.worksOf c).hosted ∧ named w.nameText)
    (k : ObjectKey) : k ∈ ws.filterMap forced? ↔ HostsLive c m k ∧ named k.name := by
  have hforced (w : ManifestWork) : forced? w = some k ↔ w.isDeleting = false ∧ w.key = k := by
    unfold forced?
    cases w.isDeleting <;> simp
  simp only [List.mem_filterMap, hforced, hws]
  constructor
  · rintro ⟨w, ⟨hw, hnamed⟩, hlive, rfl⟩
    exact ⟨⟨w, (hosts_iff hn hm).mpr ⟨hw, rfl⟩, hlive⟩, hnamed⟩
  · rintro ⟨⟨w, hw, hlive⟩, hnamed⟩
    obtain ⟨hlisted, rfl⟩ := (hosts_iff hn hm).mp hw
    exact ⟨w, ⟨hlisted, hnamed⟩, hlive, rfl⟩

theorem filterMap_forced? (ws : List ManifestWork) :
    ws.filterMap forced? = (ws.filter fun w => !w.isDeleting).map ManifestWork.key := by
  induction ws with
  | nil => rfl
  | cons w ws ih =>
    rw [List.filterMap_cons, List.filter_cons, forced?]
    cases w.isDeleting with
    | true => exact ih
    | false => exact congrArg (w.key :: ·) ih

theorem mem_ownKeys_iff (hm : m.Filed) (k : ObjectKey) :
    k ∈ (m.worksOf c).own.map ManifestWork.key ↔
      k.nspace = c.nameText ∧ ∃ w, m.works.get? k = some w := by
  rw [List.mem_map]
  constructor
  · rintro ⟨w, hw, rfl⟩
    obtain ⟨hstored, hkey⟩ := nspace_of_mem_own hm hw
    exact ⟨congrArg ObjectKey.nspace hkey, w, hstored⟩
  · rintro ⟨hspace, w, hw⟩
    exact ⟨w, Hub.Memory.mem_own_iff.mpr ⟨k, hw, hspace⟩, hm.works k w hw⟩

theorem inTurn_of_listed (hn : ',' ∉ c.nameText.toList) (hm : m.Named)
    (hne : c.hosting? ≠ some c.nameText) :
    InTurn c m ((m.worksOf c).own.map ManifestWork.key)
      (((m.worksOf c).others c.nameText).filterMap forced?)
      (((m.worksOf c).hosted? (Names.klusterletWork c.nameText)).toList.filterMap forced?)
      (((m.worksOf c).hosted? (Names.kubeconfigWork c.nameText)).toList.filterMap forced?) where
  once := by
    rw [← List.filterMap_append, ← List.filterMap_append, List.nodup_append]
    refine ⟨Hub.Memory.nodup_worksIn hm.toFiled _ _, ?_, fun k hk k' hk' he => ?_⟩
    · refine List.Nodup.sublist ?_ (nodup_inOrder (c := c) hm)
      rw [filterMap_forced?]
      exact List.filter_sublist.map _
    · subst he
      obtain ⟨hspace, -⟩ := (mem_ownKeys_iff hm.toFiled k).mp hk
      have hlive := (mem_forced_iff hn hm.toFiled (fun _ => True)
        (fun w => (mem_inOrder_iff hm).trans (and_iff_left trivial).symm) k).mp hk'
      obtain ⟨⟨w, ⟨-, hhosting⟩, -⟩, -⟩ := hlive
      exact hne (hspace ▸ hhosting)
  own := mem_ownKeys_iff hm.toFiled
  others := mem_forced_iff hn hm.toFiled (fun n => n ≠ _ ∧ n ≠ _) fun _ => mem_others_iff hm
  agent := mem_forced_iff hn hm.toFiled (· = _) fun _ =>
    mem_toList_hosted? hm.toFiled (Names.klusterletWork_ne_empty _)
  credentials := mem_forced_iff hn hm.toFiled (· = _) fun _ =>
    mem_toList_hosted? hm.toFiled (Names.kubeconfigWork_ne_empty _)

/-! ## What is left -/

theorem cleared_of_swept (hn : ',' ∉ c.nameText.toList) (hm : m.Named)
    (hne : c.hosting? ≠ some c.nameText) (h : Swept t c m m') : Cleared c m m' where
  own := h.own
  idle k w hw hlive hnone := by
    obtain ⟨hlisted, rfl⟩ := (hosts_iff hn hm.toFiled).mp hw
    rw [h.hosted w hlisted, afterForce, hlive, if_neg Bool.false_ne_true, afterDeletion, hnone]
    rfl
  finalizing k w hw hheld := by
    obtain ⟨hlisted, rfl⟩ := (hosts_iff hn hm.toFiled).mp hw
    rw [h.hosted w hlisted, afterForce]
    cases hdel : w.isDeleting with
    | true => exact ⟨w, rfl, hdel, rfl, rfl⟩
    | false =>
      rw [hdel, or_iff_right Bool.false_ne_true] at hheld
      have hleft : afterDeletion t w = some _ :=
        if_neg fun hempty => hheld (List.isEmpty_iff.mp hempty)
      exact ⟨_, hleft, isDeleting_afterDeletion hleft, rfl, rfl⟩
  foreign k hspace hnot := by
    refine h.others k hspace fun w hw he => hnot w ((hosts_iff hn hm.toFiled).mpr ⟨hw, he⟩)
  order := ⟨_, _, _, _, inTurn_of_listed hn hm hne, by
    rw [h.deletions, ClusterWorks.inOrder, List.filterMap_append, List.filterMap_append]⟩

/-- One pass over a deleting cluster that is out of reach, and not hosted by itself, clears its
namespace and deletes all its hosted works, whatever their finalizers. -/
theorem cleared_by_force (hn : ',' ∉ name.toList) (hm : m.Named) (hq : m.Quiet)
    (hc : m.clusters.get? name = some c) (hhosted : c.isHosted = true)
    (hdel : c.isDeleting = true) (hne : c.hosting? ≠ some name)
    (hforce : c.needsForce ctx.now ctx.settings.silenceTimeout = true) :
    (∃ o, Run.outcome ctx name m = .ok o) ∧ Cleared c m (Run.afterPass ctx name m) := by
  have hok : ∃ o, Run.outcome ctx name m = .ok o := outcome_ok hn hm hq hc hhosted hdel
  refine ⟨hok, ?_⟩
  obtain ⟨o, ho⟩ := hok
  obtain rfl : c.nameText = name := hm.clusters name c hc
  have hswept : Yields (fun _ => Swept ctx.now c m) (Run.outcome ctx c.nameText m)
      (Run.afterPass ctx c.nameText m) := by
    unfold Run.outcome Run.afterPass
    rw [talk_reconcile hq (hm.clusterNames _ c hc) hc hhosted hdel]
    exact Dialogue.Meets.run (deletion_swept hm hq hc hdel hne hforce)
  rw [ho] at hswept
  exact cleared_of_swept hn hm hne hswept

/-- A cluster that does not answer, with a work that is held, one that is not, one of an add-on,
and four hosted ones; the credentials are being deleted already. -/
def stranded : Memory :=
  Run.after "c" [
    .change (.cluster { held (deleting (hosted "c" "h")) with status := some [
      { type := Names.clusterAvailable, status := .false, reason := "", message := ""
        lastTransition := some now }] }),
    .change (.work (work "c" "w")),
    .change (.work { metadata := { name := some "v", nspace := some "c" } }),
    .change (.work (work "c" "c-klusterlet-addon-x")),
    .change (.work { metadata := HostedWork.metadata "a" "h" "c" }),
    .change (.work (labelled "h" "z" "c")),
    .change (.work (labelled "h" "c-hosted-klusterlet" "c")),
    .change (.work (labelled "h" "c-hosted-kubeconfig" "c")),
    delete "h" "c-hosted-kubeconfig"] {}

theorem cleared_of_stranded :
    (Run.afterPass { now := now } "c" stranded).deletions =
        stranded.deletions ++ [⟨"c", "c-klusterlet-addon-x"⟩, ⟨"c", "v"⟩, ⟨"c", "w"⟩,
          ⟨"h", "a"⟩, ⟨"h", "z"⟩, ⟨"h", "c-hosted-klusterlet"⟩] ∧
      ∃ c, stranded.clusters.get? "c" = some c ∧
        (∃ o, Run.outcome { now := now } "c" stranded = .ok o) ∧
          Cleared c stranded (Run.afterPass { now := now } "c" stranded) := by
  have hcluster : (stranded.clusters.get? "c").any (fun c =>
      c.isHosted && c.isDeleting && c.hosting? != some "c" &&
        c.needsForce now (some 3600)) = true := by
    decide +kernel
  obtain ⟨c, hc, hfacts⟩ := (Option.any_eq_true _ _).mp hcluster
  simp only [Bool.and_eq_true, bne_iff_ne] at hfacts
  have hquiet : stranded.Quiet := by
    refine ⟨fun op => ?_, by decide +kernel⟩
    cases op <;> rfl
  have hnamed : stranded.Named := Run.named_after _ Hub.Memory.named_empty (by decide +kernel)
  refine ⟨by decide +kernel, c, hc, ?_⟩
  exact cleared_by_force (by decide) hnamed hquiet hc hfacts.1.1.1 hfacts.1.1.2 hfacts.1.2
    hfacts.2

end ForcedDeletion
end Hosting
