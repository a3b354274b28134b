import Hosting.Proofs.ForcedDeletion
import Hosting.Proofs.Release

/-!
# A deletion that nothing holds up

Each pass over a deleting cluster goes by what it finds listed: it clears the cluster's namespace
and takes the next stage of the hosted works.  When no work is held and nobody else has anything
left in the namespace, the stages follow each other pass by pass, whichever way the works are
removed.  `done_within_three` says that the third pass is the last one that is needed, however
many works there were.
-/

namespace Hosting

namespace Hub.Memory

variable {m : Memory}

/-- Add-ons come and go by others alone. -/
theorem addOns_answer (t : Instant) (q : Request) : (m.answer t q).2.addOns = m.addOns := by
  have hupdate (op : Operation) (write : String → Write)
      (edit : ManagedCluster → ManagedCluster) (c : ManagedCluster) :
      (m.updateCluster op write edit c).2.addOns = m.addOns :=
    (updateCluster_gives op write edit c).elim (fun _ h => h.addOns)
      fun _ _ ⟨_, _, hwithin, _⟩ => hwithin.addOns
  cases q with
  | setFinalizers c => exact hupdate _ _ _ c
  | setStatus c => exact hupdate _ _ _ c
  | listWorks n s =>
    exact (listWorks_gives t n s).elim (fun _ h => h.addOns) fun _ _ h => congrArg _ h.2
  | createWork w =>
    exact (createWork_gives w).elim (fun _ h => h.addOns) fun _ _ h => h.2.2.1.addOns
  | replaceWork w =>
    exact (replaceWork_gives w).elim (fun _ h => h.addOns) fun _ _ ⟨_, _, _, h, _⟩ => h.addOns
  | deleteWork k =>
    exact (deleteWork_gives t k).elim (fun _ h => h.addOns) fun _ _ h => h.1.addOns
  | releaseWork k =>
    exact (releaseWork_gives k).elim (fun _ h => h.addOns) fun _ _ h => h.1.addOns
  | replaceSecret s =>
    exact (replaceSecret_gives s).elim (fun _ h => h.addOns) fun _ _ h => h.2.1.addOns
  | deleteSecret k =>
    exact (deleteSecret_gives k).elim (fun _ h => h.addOns) fun _ _ h => h.1.addOns
  | _ => rfl

theorem worksIn_of_clear {nspace : String} (h : m.Clear nspace) (selector : Option String) :
    m.worksIn nspace selector = [] := by
  rw [List.eq_nil_iff_forall_not_mem]
  intro w hw
  obtain ⟨k, hk, hspace, -⟩ := mem_worksIn.mp hw
  exact h.works k w hk hspace

theorem addOnsIn_of_clear {nspace : String} (h : m.Clear nspace) : m.addOnsIn nspace = [] := by
  unfold addOnsIn
  rw [List.map_eq_nil_iff, List.filter_eq_nil_iff]
  rintro ⟨k, a⟩ he hspace
  exact h.addOns k a (Table.mem_entries_iff.mp he) (beq_iff_eq.mp hspace)

end Hub.Memory

namespace Pass

open Hub (Memory Request)

variable {α β : Type} {t : Instant} {c : ManagedCluster} {m m' m'' : Memory} {k : ObjectKey}
  {ks ks' : List ObjectKey}

theorem Meets.addOns {p : Pass α} {post : α → Memory → Prop}
    (h : Meets t Anything (Yields post) p m) :
    Meets t Anything (Yields fun a m' => m'.addOns = m.addOns ∧ post a m') p m := by
  have hstep (q : Request) (m₁ : Memory) (_ : True) (h₁ : m₁.addOns = m.addOns) :
      (m₁.answer t q).2.addOns = m.addOns :=
    (Hub.Memory.addOns_answer t q).trans h₁
  refine (Dialogue.Meets.keeps h hstep rfl).imp (fun _ _ _ => trivial) ?_
  rintro (f | a) m' ⟨haddOns, hpost⟩
  · trivial
  · exact ⟨haddOns, hpost⟩

/-! ## Works that nothing holds -/

/-- The work under `k`, if it is there, has no finalizers. -/
def Loose (m : Memory) (k : ObjectKey) : Prop :=
  ∀ w, m.works.get? k = some w → w.metadata.finalizers.getD [] = []

/-- Of the works those under the keys `ks` are gone, and no others. -/
structure Emptied (ks : List ObjectKey) (m m' : Memory) : Prop where
  quiet : m'.Quiet
  clusters : m'.clusters = m.clusters
  addOns : m'.addOns = m.addOns
  works : ∀ k, m'.works.get? k = if k ∈ ks then none else m.works.get? k

namespace Emptied

theorem refl (hq : m.Quiet) : Emptied [] m m := ⟨hq, rfl, rfl, fun _ => rfl⟩

theorem trans (h : Emptied ks m m') (h' : Emptied ks' m' m'') : Emptied (ks ++ ks') m m'' where
  quiet := h'.quiet
  clusters := h'.clusters.trans h.clusters
  addOns := h'.addOns.trans h.addOns
  works k := by
    rw [h'.works, h.works]
    by_cases hk : k ∈ ks <;> simp [hk]

theorem loose (h : Emptied ks m m') (hk : Loose m k) : Loose m' k := by
  intro w hw
  rw [h.works, Option.ite_none_left_eq_some] at hw
  exact hk w hw.2

end Emptied

theorem deleteWork_emptied (hq : m.Quiet) (hk : Loose m k) :
    Meets t Anything (Yields fun _ m' => Emptied [k] m m') (ask (.deleteWork k)) m := by
  have hremoves := removes_deleteWork t k
  refine Dialogue.meets_map.mpr ⟨trivial, ?_⟩
  cases hw : m.works.get? k with
  | none =>
    rw [hremoves.gone m hq hw]
    refine ⟨hq, rfl, rfl, fun k' => ?_⟩
    by_cases hk' : k' = k <;> simp [hk', hw]
  | some w =>
    obtain ⟨ws, hanswer, hws⟩ := hremoves.there m w hq hw
    have hleft : afterDeletion t w = none := by
      unfold afterDeletion
      rw [hk w hw]
      rfl
    rw [hanswer]
    refine ⟨⟨hq.failures, hq.conflicts⟩, rfl, rfl, fun k' => ?_⟩
    simp only [List.mem_singleton, ← hleft]
    exact hws k'

theorem forceWork_emptied (hq : m.Quiet) (hk : Loose m k) :
    Meets t Anything (Yields fun _ m' => Emptied [k] m m') (forceWork k) m := by
  refine meets_bind_yields.mpr ((deleteWork_emptied hq hk).yields_imp fun _ m₁ h₁ => ?_)
  have hgone : m₁.works.get? k = none := by
    rw [h₁.works, if_pos (List.mem_singleton.mpr rfl)]
  exact meets_bind_yields.mpr (getWork_meets (fun _ _ _ => trivial) hgone (meets_pure.mpr h₁))

/-- A loop over works that nothing holds leaves none of them, also when one comes twice. -/
theorem forM_emptied (key : β → ObjectKey) {f : β → Pass Unit} {xs : List β} (hq : m.Quiet)
    (hloose : ∀ x ∈ xs, Loose m (key x))
    (hf : ∀ x ∈ xs, ∀ m', m'.Quiet → Loose m' (key x) →
      Meets t Anything (Yields fun _ m'' => Emptied [key x] m' m'') (f x) m') :
    Meets t Anything (Yields fun _ m' => Emptied (xs.map key) m m') (xs.forM f) m := by
  induction xs generalizing m with
  | nil => exact meets_pure.mpr (Emptied.refl hq)
  | cons x xs ih =>
    refine meets_bind_yields.mpr
      ((hf x List.mem_cons_self m hq (hloose x List.mem_cons_self)).yields_imp fun _ m₁ h₁ => ?_)
    refine (ih h₁.quiet (fun y hy => ?_) fun y hy => ?_).yields_imp fun _ m₂ h₂ => h₁.trans h₂
    · exact h₁.loose (hloose y (List.mem_cons_of_mem x hy))
    · exact hf y (List.mem_cons_of_mem x hy)

theorem deleteHosted_emptied {ws : List ManifestWork} (hnamed : ∀ w ∈ ws, w.metadata.IsNamed)
    (hq : m.Quiet)
    (hws : ∀ w ∈ ws, w.isDeleting = false ∧ Loose m w.key) :
    Meets t Anything (Yields fun _ m' => Emptied (ws.map ManifestWork.key) m m')
      (deleteHosted ws) m := by
  refine forM_emptied ManifestWork.key hq (fun w hw => (hws w hw).2) fun w hw m' hq' hloose => ?_
  rw [(hws w hw).1, if_neg Bool.false_ne_true, ManifestWork.anyKey_eq (hnamed w hw)]
  exact deleteWork_emptied hq' hloose

/-- A namespace without works and add-ons is seen to be clear. -/
theorem isClear_yields (nspace : String) :
    Meets t Anything (Yields fun b m' => m' = m ∧ (m.Clear nspace → b = true))
      (isClear nspace) m := by
  refine meets_bind_yields.mpr (ask_meets (Hub.Memory.listWorks_gives t _ _) trivial
    (fun _ _ _ => trivial) ?_)
  rintro ws m' ⟨hws, rfl⟩
  dsimp only [Yields]
  split
  · refine meets_bind_yields.mpr (Dialogue.meets_map.mpr ⟨trivial, rfl, fun hclear => ?_⟩)
    rw [Hub.Memory.addOnsIn_of_clear hclear]
    rfl
  · next hsome =>
    refine meets_pure.mpr ⟨rfl, fun hclear => absurd ?_ hsome⟩
    rw [hws, Hub.Memory.worksIn_of_clear hclear]
    rfl

end Pass

/-! ## One pass -/

namespace Detachment

open Hub (Memory)
open Pass Sample

variable {name : String} {t : Instant} {ctx : Context} {c d : ManagedCluster} {m m' m'' : Memory}
  {w : ManifestWork} {n : Nat} {o : Outcome}

/-- The work `w` under `k` is in the cluster's namespace, or with the label of the cluster in that
of its hosting cluster. -/
def Belongs (c : ManagedCluster) (k : ObjectKey) (w : ManifestWork) : Prop :=
  k.nspace = c.nameText ∨
    c.hosting? = some k.nspace ∧ w.metadata.label? Names.hostedCluster = some c.nameText

instance (c : ManagedCluster) (k : ObjectKey) (w : ManifestWork) : Decidable (Belongs c k w) :=
  inferInstanceAs (Decidable (_ ∨ _))

/-- Nothing holds up the removal of the works of `c`: none has finalizers or is being deleted
already, and in the namespace of the cluster nothing is left of an add-on, and no work is to
be postponed. -/
structure Unblocked (ctx : Context) (c : ManagedCluster) (m : Memory) : Prop where
  loose : ∀ k w, m.works.get? k = some w → Belongs c k w →
    w.metadata.finalizers.getD [] = [] ∧ w.isDeleting = false
  due : ∀ k w, m.works.get? k = some w → k.nspace = c.nameText →
    w.isAddOnWork c.nameText = false ∧
      c.postpones w.metadata ctx.now ctx.settings.postponeWindow = false
  addOns : ∀ k a, m.addOns.get? k = some a → k.nspace ≠ c.nameText

theorem Unblocked.own (h : Unblocked ctx c m) (hm : m.Filed) (hc : c.metadata.IsNamed)
    (hw : w ∈ (m.worksOf c).own) :
    isDue ctx c w = true ∧ Loose m (ownKey c w) := by
  obtain ⟨hstored, hkey⟩ := nspace_of_mem_own hm hw
  have hspace : w.key.nspace = c.nameText := congrArg ObjectKey.nspace hkey
  obtain ⟨hnone, hlive⟩ := h.loose w.key w hstored (Or.inl hspace)
  obtain ⟨hown, hdue⟩ := h.due w.key w hstored hspace
  refine ⟨?_, fun v hv => ?_⟩
  · unfold isDue
    rw [ManagedCluster.anyName_eq hc, hown, hlive, hdue]
    rfl
  · rw [ownKey, ← hkey, hstored, Option.some.injEq] at hv
    rw [← hv, hnone]

theorem Unblocked.hosted (h : Unblocked ctx c m) (hn : ',' ∉ c.nameText.toList) (hm : m.Filed)
    (hw : w ∈ (m.worksOf c).hosted) : w.isDeleting = false ∧ Loose m w.key := by
  obtain ⟨k, ⟨hstored, hlabel⟩, hspace⟩ := (Hub.Memory.mem_hosted_iff hn).mp hw
  have hkey := hm.works k w hstored
  subst hkey
  obtain ⟨hnone, hlive⟩ := h.loose w.key w hstored (Or.inr ⟨hspace, hlabel⟩)
  refine ⟨hlive, fun v hv => ?_⟩
  rw [hstored, Option.some.injEq] at hv
  rw [← hv, hnone]

/-- What a pass leaves of the works: none of the cluster's namespace, none of the stage that it
took, and of the others those that were there. -/
structure Drained (c : ManagedCluster) (m m' : Memory) : Prop where
  own : ∀ k, k.nspace = c.nameText → m'.works.get? k = none
  stage : ∀ w ∈ (m.worksOf c).stage c.nameText, m'.works.get? w.key = none
  rest : ∀ k w, m'.works.get? k = some w → m.works.get? k = some w

theorem drained_of_emptied (hm : m.Filed) {ks : List ObjectKey} {m₁ : Memory}
    (hsame : m₁.works = m.works) (h : Emptied ks m₁ m')
    (hown : ∀ w ∈ (m.worksOf c).own, w.key ∈ ks)
    (hstage : ∀ w ∈ (m.worksOf c).stage c.nameText, w.key ∈ ks) : Drained c m m' where
  own k hk := by
    rw [h.works, hsame]
    split
    · rfl
    · next hnot =>
      rw [Option.eq_none_iff_forall_ne_some]
      intro w hw
      have hlisted := hown w (Hub.Memory.mem_own_iff.mpr ⟨k, hw, hk⟩)
      exact hnot (hm.works k w hw ▸ hlisted)
  stage w hw := by rw [h.works, if_pos (hstage w hw)]
  rest k w hw := by
    rw [h.works, Option.ite_none_left_eq_some, hsame] at hw
    exact hw.2

theorem Drained.spared (h : Drained c m m') (hs : Spared m' m'') : Drained c m m'' :=
  ⟨hs.works ▸ h.own, hs.works ▸ h.stage, hs.works ▸ h.rest⟩

/-- Once its own works are gone, the namespace of the cluster is clear. -/
theorem clear_of_emptied (hm : m.Filed) (hfree : Unblocked ctx c m) {m₁ : Memory}
    (hworks : m₁.works = m.works) (haddOns : m₁.addOns = m.addOns)
    (h : Emptied ((m.worksOf c).own.map ManifestWork.key) m₁ m') : m'.Clear c.nameText := by
  refine ⟨fun k w hw hspace => ?_, fun k a ha => ?_⟩
  · rw [h.works, Option.ite_none_left_eq_some, hworks] at hw
    have hlisted : w ∈ (m.worksOf c).own := Hub.Memory.mem_own_iff.mpr ⟨k, hw.2, hspace⟩
    exact hw.1 (List.mem_map.mpr ⟨w, hlisted, hm.works k w hw.2⟩)
  · rw [h.addOns, haddOns] at ha
    exact hfree.addOns k a ha

theorem deleteStage_drained (hn : ',' ∉ c.nameText.toList) (hm : m.Named)
    (hfree : Unblocked ctx c m) {m₁ : Memory} (hworks : m₁.works = m.works)
    (haddOns : m₁.addOns = m.addOns) (hc : There c m₁)
    (h : Emptied ((m.worksOf c).own.map ManifestWork.key) m₁ m') :
    Meets t Anything (Yields fun _ m'' => Drained c m m'' ∧ m''.Quiet ∧ There c m'')
      (do if ← isClear c.nameText then deleteHosted ((m.worksOf c).stage c.nameText)) m' := by
  have hclear := clear_of_emptied hm.toFiled hfree hworks haddOns h
  have hlisted (w : ManifestWork) (hw : w ∈ (m.worksOf c).stage c.nameText) :=
    hfree.hosted hn hm.toFiled (ClusterWorks.mem_hosted_of_mem_stage hw)
  have hnamed (w : ManifestWork) (hw : w ∈ (m.worksOf c).stage c.nameText) :
      w.metadata.IsNamed := hm.hosted (ClusterWorks.mem_hosted_of_mem_stage hw)
  refine meets_bind_yields.mpr ((isClear_yields _).yields_imp fun b m₂ ⟨hsame, hb⟩ => ?_)
  rw [hsame, hb hclear, if_pos rfl]
  refine (deleteHosted_emptied hnamed h.quiet fun w hw => ⟨(hlisted w hw).1, ?_⟩).yields_imp
    fun _ m₃ h₃ => ?_
  · refine h.loose ?_
    rw [Loose, hworks]
    exact (hlisted w hw).2
  have hboth := h.trans h₃
  refine ⟨drained_of_emptied hm.toFiled hworks hboth (fun w hw => ?_) fun w hw => ?_,
    hboth.quiet, ?_⟩
  · exact List.mem_append_left _ (List.mem_map_of_mem hw)
  · exact List.mem_append_right _ (List.mem_map_of_mem hw)
  · rw [There, hboth.clusters]
    exact hc

theorem deleteInOrder_drained (hn : ',' ∉ c.nameText.toList) (hm : m.Named) (hq : m.Quiet)
    (hc : m.clusters.get? c.nameText = some c) (hfree : Unblocked ctx c m) :
    Meets t Anything (Yields fun _ m' => Drained c m m' ∧ m'.Quiet ∧ There c m')
      (deleteInOrder ctx c (m.worksOf c)) m := by
  have hnamed : c.metadata.IsNamed := hm.clusterNames _ c hc
  have hdue : (m.worksOf c).own.filter (isDue ctx c) = (m.worksOf c).own :=
    List.filter_eq_self.mpr fun w hw => (hfree.own hm.toFiled hnamed hw).1
  unfold deleteInOrder
  rw [hdue, ManagedCluster.anyName_eq hnamed]
  refine meets_bind_yields.mpr ((setConditions_spared hq hnamed hc _).addOns.yields_imp
    fun _ m₁ ⟨haddOns₁, h₁, hc₁⟩ => ?_)
  refine meets_bind_yields.mpr ((forM_emptied (ownKey c) h₁.quiet (fun w hw => ?_)
    fun w hw m' hq' hk => ?_).yields_imp fun _ m₂ h₂ => ?_)
  · rw [Loose, h₁.works]
    exact (hfree.own hm.toFiled hnamed hw).2
  · rw [ManifestWork.anyName_eq (hm.own hw)]
    exact deleteWork_emptied hq' hk
  rw [map_ownKey hm.toFiled] at h₂
  dsimp only [Yields]
  split
  · refine meets_bind_yields.mpr ((publish_spared h₂.quiet _).addOns.yields_imp
      fun _ m₃ ⟨haddOns₃, h₃, hclusters₃⟩ => ?_)
    have h₁₃ : Emptied ((m.worksOf c).own.map ManifestWork.key) m₁ m₃ :=
      ⟨h₃.quiet, hclusters₃.trans h₂.clusters, haddOns₃.trans h₂.addOns, h₃.works ▸ h₂.works⟩
    exact deleteStage_drained hn hm hfree h₁.works haddOns₁ hc₁ h₁₃
  · exact deleteStage_drained hn hm hfree h₁.works haddOns₁ hc₁ h₂

theorem deleteByForce_drained (hn : ',' ∉ c.nameText.toList) (hm : m.Named) (hq : m.Quiet)
    (hc : m.clusters.get? c.nameText = some c) (hfree : Unblocked ctx c m) :
    Meets t Anything (Yields fun _ m' => Drained c m m' ∧ m'.Quiet ∧ There c m')
      (deleteByForce ctx c (m.worksOf c)) m := by
  have hnamed : c.metadata.IsNamed := hm.clusterNames _ c hc
  unfold deleteByForce
  rw [ManagedCluster.anyName_eq hnamed]
  refine meets_bind_yields.mpr
    ((setConditions_spared hq hnamed hc _).yields_imp fun _ m₁ ⟨h₁, hc₁⟩ => ?_)
  refine meets_bind_yields.mpr ((forM_emptied (ownKey c) h₁.quiet (fun w hw => ?_)
    fun w hw m' hq' hk => ?_).yields_imp fun _ m₂ h₂ => ?_)
  · rw [Loose, h₁.works]
    exact (hfree.own hm.toFiled hnamed hw).2
  · rw [ManifestWork.anyName_eq (hm.own hw)]
    exact forceWork_emptied hq' hk
  rw [map_ownKey hm.toFiled] at h₂
  have hlisted (w : ManifestWork) (hw : w ∈ (m.worksOf c).inOrder c.nameText) :=
    hfree.hosted hn hm.toFiled ((mem_inOrder_iff hm).mp hw)
  have hnames (w : ManifestWork) (hw : w ∈ (m.worksOf c).inOrder c.nameText) :
      w.metadata.IsNamed := hm.hosted ((mem_inOrder_iff hm).mp hw)
  refine meets_bind_yields.mpr ((deleteHosted_emptied hnames h₂.quiet fun w hw =>
    ⟨(hlisted w hw).1, ?_⟩).yields_imp fun _ m₃ h₃ => ?_)
  · refine h₂.loose ?_
    rw [Loose, h₁.works]
    exact (hlisted w hw).2
  have h₁₃ := h₂.trans h₃
  refine (publish_spared h₃.quiet _).yields_imp fun _ m₄ ⟨h₄, hclusters₄⟩ => ?_
  have hdrained : Drained c m m₃ := by
    refine drained_of_emptied hm.toFiled h₁.works h₁₃ (fun w hw => ?_) fun w hw => ?_
    · exact List.mem_append_left _ (List.mem_map_of_mem hw)
    · refine List.mem_append_right _ (List.mem_map_of_mem ((mem_inOrder_iff hm).mpr ?_))
      exact ClusterWorks.mem_hosted_of_mem_stage hw
  refine ⟨hdrained.spared h₄, h₄.quiet, ?_⟩
  rw [There, hclusters₄, h₁₃.clusters]
  exact hc₁

theorem deletion_drained (hn : ',' ∉ c.nameText.toList) (hm : m.Named) (hq : m.Quiet)
    (hc : m.clusters.get? c.nameText = some c) (hdel : c.isDeleting = true)
    (hfree : Unblocked ctx c m) :
    Meets t Anything (Yields fun _ => Drained c m) (do
      syncFinalizer ctx c (m.worksOf c).total
      deletion ctx c (m.worksOf c)) m := by
  have hnamed : c.metadata.IsNamed := hm.clusterNames _ c hc
  refine meets_bind_yields.mpr
    ((syncFinalizer_spared hq hnamed ⟨c, hc, rfl, rfl⟩ hdel _).yields_imp
      fun _ m₁ ⟨h₁, hsame⟩ => ?_)
  unfold deletion
  by_cases hempty : (m.worksOf c).isEmpty = true
  · rw [if_pos hempty]
    obtain ⟨hown, hhosted⟩ := ClusterWorks.isEmpty_iff.mp hempty
    refine meets_pure.mpr (drained_of_emptied hm.toFiled h₁.works (Emptied.refl h₁.quiet)
      (fun w hw => ?_) fun w hw => ?_)
    · rw [hown] at hw
      cases hw
    · have hw := ClusterWorks.mem_hosted_of_mem_stage hw
      rw [hhosted] at hw
      cases hw
  · have hsome : (m.worksOf c).total ≠ 0 := fun hnone => hempty (beq_iff_eq.mpr hnone)
    obtain rfl := hsame hsome
    have hfinish {m₂ : Memory} (h₂ : Drained c m₁ m₂ ∧ m₂.Quiet ∧ There c m₂) :
        Meets t Anything (Yields fun _ => Drained c m₁) (do
          let remaining ← listWorks c
          syncFinalizer ctx c remaining.total
          return if remaining.isEmpty then Outcome.done
            else .again ctx.settings.deletionRequeue) m₂ := by
      refine meets_bind_yields.mpr (listWorks_meets (fun _ _ _ => trivial) hnamed
        (fun _ _ _ _ => trivial) ?_)
      refine meets_bind_yields.mpr
        ((syncFinalizer_spared h₂.2.1 hnamed h₂.2.2 hdel _).yields_imp fun _ m₃ ⟨h₃, _⟩ => ?_)
      exact meets_pure.mpr (h₂.1.spared h₃)
    rw [if_neg hempty]
    split
    · exact meets_bind_yields.mpr
        ((deleteByForce_drained hn hm hq hc hfree).yields_imp fun _ m₂ => hfinish)
    · exact meets_bind_yields.mpr
        ((deleteInOrder_drained hn hm hq hc hfree).yields_imp fun _ m₂ => hfinish)

/-! ## Stage by stage -/

/-- With how many stages the work goes, its own included: the credentials are the last. -/
def turn (cluster : String) (w : ManifestWork) : Nat :=
  if w.nameText = Names.kubeconfigWork cluster then 1
  else if w.nameText = Names.klusterletWork cluster then 2
  else 3

theorem turn_pos (cluster : String) (w : ManifestWork) : 1 ≤ turn cluster w := by
  unfold turn
  split
  · exact Nat.le_refl 1
  · split <;> omega

theorem turn_le (cluster : String) (w : ManifestWork) : turn cluster w ≤ 3 := by
  unfold turn
  split
  · omega
  · split <;> omega

theorem turn_eq_three {cluster : String} (hagent : w.nameText ≠ Names.klusterletWork cluster)
    (hcredentials : w.nameText ≠ Names.kubeconfigWork cluster) : turn cluster w = 3 := by
  rw [turn, if_neg hcredentials, if_neg hagent]

theorem turn_eq_two {cluster : String} (hagent : w.nameText = Names.klusterletWork cluster) :
    turn cluster w = 2 := by
  rw [turn, hagent, if_neg (Names.klusterletWork_ne_kubeconfigWork _ _), if_pos rfl]

/-- The works with the most stages before them are those that go next. -/
theorem mem_stage_of_max (hm : m.Named) (hw : w ∈ (m.worksOf c).hosted)
    (hmax : ∀ v ∈ (m.worksOf c).hosted, turn c.nameText v ≤ turn c.nameText w) :
    w ∈ (m.worksOf c).stage c.nameText := by
  have hagent := fun {v} => mem_toList_hosted? (c := c) (w := v) hm.toFiled
    (Names.klusterletWork_ne_empty c.nameText)
  have hcredentials := fun {v} => mem_toList_hosted? (c := c) (w := v) hm.toFiled
    (Names.kubeconfigWork_ne_empty c.nameText)
  by_cases hempty : (m.worksOf c).others c.nameText = []
  · rw [ClusterWorks.stage, hempty, List.isEmpty_nil, if_pos rfl, Option.mem_toList,
      Option.or_eq_some_iff]
    by_cases hname : w.nameText = Names.klusterletWork c.nameText
    · exact Or.inl (Option.mem_toList.mp (hagent.mpr ⟨hw, hname⟩))
    · have hname' : w.nameText = Names.kubeconfigWork c.nameText := by
        refine Decidable.of_not_not fun hnot => ?_
        have hother := (mem_others_iff hm).mpr ⟨hw, hname, hnot⟩
        rw [hempty] at hother
        cases hother
      refine Or.inr ⟨?_, Option.mem_toList.mp (hcredentials.mpr ⟨hw, hname'⟩)⟩
      rw [Option.eq_none_iff_forall_ne_some]
      intro v hv
      obtain ⟨hv, hvname⟩ := hagent.mp (Option.mem_toList.mpr hv)
      have hle := hmax v hv
      rw [turn_eq_two hvname, turn, if_pos hname'] at hle
      omega
  · rw [ClusterWorks.stage, if_neg (by simpa using hempty)]
    obtain ⟨v, hv⟩ := List.exists_mem_of_ne_nil _ hempty
    obtain ⟨hv, hvagent, hvcredentials⟩ := (mem_others_iff hm).mp hv
    have hle := hmax v hv
    rw [turn_eq_three hvagent hvcredentials] at hle
    refine (mem_others_iff hm).mpr ⟨hw, fun hname => ?_, fun hname => ?_⟩
    · rw [turn_eq_two hname] at hle
      omega
    · rw [turn, if_pos hname] at hle
      omega

/-- No more than `n` stages of hosted works are left. -/
def StagesLeft (n : Nat) (c : ManagedCluster) (m : Memory) : Prop :=
  ∀ w ∈ (m.worksOf c).hosted, turn c.nameText w ≤ n

theorem Drained.stagesLeft (h : Drained c m m') (hn : ',' ∉ c.nameText.toList) (hm : m.Named)
    (hm' : m'.Filed) (hle : StagesLeft (n + 1) c m) : StagesLeft n c m' := by
  intro w hw
  obtain ⟨hstored', -⟩ := nspace_of_mem_hosted hm' hw
  obtain ⟨k, ⟨hstored, hlabel⟩, hspace⟩ := (Hub.Memory.mem_hosted_iff hn).mp hw
  have hw₀ : w ∈ (m.worksOf c).hosted :=
    (Hub.Memory.mem_hosted_iff hn).mpr ⟨k, ⟨h.rest k w hstored, hlabel⟩, hspace⟩
  refine Nat.le_of_not_lt fun hlt => ?_
  have hmax (v : ManifestWork) (hv : v ∈ (m.worksOf c).hosted) :
      turn c.nameText v ≤ turn c.nameText w := by
    have := hle v hv
    omega
  rw [h.stage w (mem_stage_of_max hm hw₀ hmax)] at hstored'
  cases hstored'

/-! ## Pass after pass -/

/-- Passes over the cluster, all of which succeed, lead from one state to the other; there are
at most `n`, and the last one is done. -/
inductive DoneWithin (ctx : Context) (name : String) : Nat → Memory → Memory → Prop where
  | last {n : Nat} {m : Memory} (done : Run.outcome ctx name m = .ok .done) :
    DoneWithin ctx name (n + 1) m (Run.afterPass ctx name m)
  | next {n : Nat} {m m' : Memory} {o : Outcome} (ok : Run.outcome ctx name m = .ok o)
    (rest : DoneWithin ctx name n (Run.afterPass ctx name m) m') :
    DoneWithin ctx name (n + 1) m m'

/-- The hub holds the cluster `c` under `name`, which is deleting and hosted, and refuses
nothing. -/
structure Leaving (name : String) (c : ManagedCluster) (m : Memory) : Prop where
  named : m.Named
  quiet : m.Quiet
  stored : m.clusters.get? name = some c
  hosted : c.isHosted = true
  deleting : c.isDeleting = true

theorem Leaving.nameText_eq (h : Leaving name c m) : c.nameText = name :=
  h.named.clusters name c h.stored

theorem drained_after (h : Leaving name c m) (hn : ',' ∉ name.toList) (hfree : Unblocked ctx c m)
    (hok : Run.outcome ctx name m = .ok o) : Drained c m (Run.afterPass ctx name m) := by
  have hcnamed : c.metadata.IsNamed := h.named.clusterNames name c h.stored
  obtain rfl := h.nameText_eq
  have hyields : Yields (fun _ => Drained c m) (Run.outcome ctx c.nameText m)
      (Run.afterPass ctx c.nameText m) := by
    unfold Run.outcome Run.afterPass
    rw [ForcedDeletion.talk_reconcile h.quiet hcnamed h.stored h.hosted h.deleting]
    exact Dialogue.Meets.run (deletion_drained hn h.named h.quiet h.stored h.deleting hfree)
  rw [hok] at hyields
  exact hyields

theorem Unblocked.after (h : Unblocked ctx c m) (hbare : d.bare = c.bare)
    (hrest : ∀ k w, m'.works.get? k = some w → m.works.get? k = some w)
    (haddOns : m'.addOns = m.addOns) : Unblocked ctx d m' where
  loose k w hw hbelongs := by
    refine h.loose k w (hrest k w hw) ?_
    rwa [Belongs, ← ManagedCluster.nameText_of_bare hbare, ← ManagedCluster.hosting?_of_bare hbare]
  due k w hw hspace := by
    rw [ManagedCluster.nameText_of_bare hbare] at hspace ⊢
    rw [ManagedCluster.postpones_of_bare hbare]
    exact h.due k w (hrest k w hw) hspace
  addOns := by
    rw [haddOns, ManagedCluster.nameText_of_bare hbare]
    exact h.addOns

/-- The cluster has no works any more, and is let go. -/
def Over (name : String) (c : ManagedCluster) (m : Memory) : Prop :=
  ¬m.HoldsWork c ∧ ∀ d, m.clusters.get? name = some d → d.isHeld = false

/-- A pass is done once the works are gone; until then the next one finds the cluster as
unblocked as before. -/
theorem pass_of_unblocked (h : Leaving name c m) (hn : ',' ∉ name.toList)
    (hfree : Unblocked ctx c m) :
    Drained c m (Run.afterPass ctx name m) ∧
      ((Run.outcome ctx name m = .ok .done ∧ Over name c (Run.afterPass ctx name m)) ∨
        (Run.afterPass ctx name m).HoldsWork c ∧ ∃ o d, Run.outcome ctx name m = .ok o ∧
          d.bare = c.bare ∧ Leaving name d (Run.afterPass ctx name m) ∧
            Unblocked ctx d (Run.afterPass ctx name m)) := by
  have hcn : ',' ∉ c.nameText.toList := h.nameText_eq.symm ▸ hn
  obtain ⟨o, ho⟩ : ∃ o, Run.outcome ctx name m = .ok o :=
    ForcedDeletion.outcome_ok hn h.named h.quiet h.stored h.hosted h.deleting
  have hdrained := drained_after h hn hfree ho
  have hdetached := (Run.passed h.named ctx name).detached_of_stored h.named h.stored h.hosted
    h.deleting
  refine ⟨hdrained, ?_⟩
  have houtcome := hdetached.outcome o ho
  split at houtcome
  · next hempty =>
    obtain ⟨rfl, hletGo⟩ := houtcome
    refine Or.inl ⟨ho, ?_, ?_⟩
    · exact (Hub.Memory.worksOf_eq_empty_iff hcn).mp (beq_iff_eq.mp hempty)
    · intro d hd
      exact Release.free_of_letGo hletGo d (h.nameText_eq.symm ▸ hd)
  · next hsome =>
    obtain ⟨-, d, hd, htended, -⟩ := houtcome
    refine Or.inr ⟨?_, o, d, ho, htended.bare, ?_, ?_⟩
    · refine Classical.not_not.mp fun hnone => hsome ?_
      exact beq_iff_eq.mpr ((Hub.Memory.worksOf_eq_empty_iff hcn).mpr hnone)
    · exact {
        named := Run.named_afterPass h.named ctx name
        quiet := h.quiet.talk ctx.now _
        stored := h.nameText_eq ▸ hd
        hosted := (ManagedCluster.isHosted_of_bare htended.bare).trans h.hosted
        deleting := (ManagedCluster.isDeleting_of_bare htended.bare).trans h.deleting }
    · exact hfree.after htended.bare hdrained.rest hdetached.within.addOns

theorem Drained.over (h : Drained c m m') (hn : ',' ∉ c.nameText.toList) (hle : StagesLeft 0 c m') :
    ¬m'.HoldsWork c := by
  rintro ⟨k, w, hw, hspace | ⟨hspace, hlabel⟩⟩
  · rw [h.own k hspace] at hw
    cases hw
  · have hturn := hle w ((Hub.Memory.mem_hosted_iff hn).mpr ⟨k, ⟨hw, hlabel⟩, hspace⟩)
    have := turn_pos c.nameText w
    omega

theorem StagesLeft.of_bare (h : StagesLeft n c m) (hbare : d.bare = c.bare) : StagesLeft n d m := by
  unfold StagesLeft
  rw [Hub.Memory.worksOf_of_bare hbare, ManagedCluster.nameText_of_bare hbare]
  exact h

theorem Over.of_bare (h : Over name d m) (hbare : d.bare = c.bare) : Over name c m :=
  ⟨fun hworks => h.1 ((Hub.Memory.holdsWork_congr rfl hbare).mpr hworks), h.2⟩

/-- When no more than `n + 1` stages are left, as many passes are enough: each one is done, or
has taken a stage. -/
theorem done_of_stagesLeft (hn : ',' ∉ name.toList) (h : Leaving name c m)
    (hfree : Unblocked ctx c m) (hle : StagesLeft (n + 1) c m) :
    ∃ m', DoneWithin ctx name (n + 1) m m' ∧ Over name c m' := by
  have hcn : ',' ∉ c.nameText.toList := h.nameText_eq.symm ▸ hn
  induction n generalizing c m with
  | zero =>
    obtain ⟨hdrained, ⟨hdone, hover⟩ | ⟨hworks, -⟩⟩ := pass_of_unblocked h hn hfree
    · exact ⟨_, .last hdone, hover⟩
    · have hle' := hdrained.stagesLeft hcn h.named (h.named.toFiled.talk ctx.now _) hle
      exact absurd hworks (hdrained.over hcn hle')
  | succ n ih =>
    obtain ⟨hdrained, ⟨hdone, hover⟩ | ⟨-, o, d, hok, hbare, hnext, hfree'⟩⟩ :=
      pass_of_unblocked h hn hfree
    · exact ⟨_, .last hdone, hover⟩
    · have hle' := hdrained.stagesLeft hcn h.named (h.named.toFiled.talk ctx.now _) hle
      have hdn : ',' ∉ d.nameText.toList := hnext.nameText_eq.symm ▸ hn
      obtain ⟨m', hpasses, hover⟩ := ih hnext hfree' (hle'.of_bare hbare) hdn
      exact ⟨m', .next hok hpasses, hover.of_bare hbare⟩

/-- A deletion that nothing holds up is over after at most three passes, however many works there
were and whether they are deleted by force: each pass succeeds, and the last one is done. -/
theorem done_within_three (hn : ',' ∉ name.toList) (hm : m.Named) (hq : m.Quiet)
    (hc : m.clusters.get? name = some c) (hhosted : c.isHosted = true)
    (hdel : c.isDeleting = true) (hfree : Unblocked ctx c m) :
    ∃ m', DoneWithin ctx name 3 m m' ∧ ¬m'.HoldsWork c ∧
      ∀ d, m'.clusters.get? name = some d → d.isHeld = false :=
  done_of_stagesLeft hn ⟨hm, hq, hc, hhosted, hdel⟩ hfree fun _ _ => turn_le _ _

def isUnblocked (ctx : Context) (c : ManagedCluster) (m : Memory) : Bool :=
  m.addOns.entries.all (fun e => e.1.nspace != c.nameText) && m.works.entries.all fun e =>
    (!decide (Belongs c e.1 e.2) ||
      (e.2.metadata.finalizers.getD []).isEmpty && !e.2.isDeleting) &&
    (e.1.nspace != c.nameText || !e.2.isAddOnWork c.nameText &&
      !c.postpones e.2.metadata ctx.now ctx.settings.postponeWindow)

theorem Unblocked.of_test (h : isUnblocked ctx c m = true) : Unblocked ctx c m := by
  rw [isUnblocked, Bool.and_eq_true, List.all_eq_true, List.all_eq_true] at h
  obtain ⟨haddOns, hworks⟩ := h
  have hwork (k : ObjectKey) (w : ManifestWork) (hw : m.works.get? k = some w) :=
    Bool.and_eq_true_iff.mp (hworks (k, w) (Table.mem_entries_iff.mpr hw))
  refine ⟨fun k w hw hbelongs => ?_, fun k w hw hspace => ?_, fun k a ha => ?_⟩
  · simpa [hbelongs] using (hwork k w hw).1
  · simpa [hspace] using (hwork k w hw).2
  · simpa using haddOns (k, a) (Table.mem_entries_iff.mpr ha)

/-- Own works and three stages of hosted ones of a cluster in reach, one of whose own works was to
be postponed for a while that is over; a work beside them is nobody's. -/
def staged : Memory :=
  Run.after "c" [
    .change (.cluster (held (deleting (hosted "c" "h")))),
    .change (.work { metadata := { name := some "v", nspace := some "c" } }),
    .change (.work { metadata := {
      name := some "w", nspace := some "c"
      annotations := some (.singleton Names.postponeDeletion "") } }),
    .change (.work { metadata := HostedWork.metadata "a" "h" "c" }),
    .change (.work { metadata := HostedWork.metadata "c-hosted-klusterlet" "h" "c" }),
    .change (.work { metadata := HostedWork.metadata "c-hosted-kubeconfig" "h" "c" }),
    .change (.work (work "h" "x"))] {}

/-- Ten minutes after the deletion was asked for. -/
def later : Context := { now := ⟨now.second + 600, 0⟩ }

theorem done_within_three_of_staged :
    (Run.outcome later "c" staged).toOption = some (.again 2) ∧
      (Run.outcome later "c" (Run.afterPass later "c" staged)).toOption = some (.again 2) ∧
      ∃ c, staged.clusters.get? "c" = some c ∧ Unblocked later c staged ∧
        ∃ m', DoneWithin later "c" 3 staged m' ∧ ¬m'.HoldsWork c ∧
          ∀ d, m'.clusters.get? "c" = some d → d.isHeld = false := by
  have hpasses : (Run.outcome later "c" staged).toOption = some (.again 2) ∧
      (Run.outcome later "c" (Run.afterPass later "c" staged)).toOption = some (.again 2) := by
    decide +kernel
  have hcluster : (staged.clusters.get? "c").any (fun c =>
      c.isHosted && c.isDeleting && isUnblocked later c staged) = true := by decide +kernel
  obtain ⟨c, hc, hfacts⟩ := (Option.any_eq_true _ _).mp hcluster
  simp only [Bool.and_eq_true] at hfacts
  have hquiet : staged.Quiet := by
    refine ⟨fun op => ?_, by decide +kernel⟩
    cases op <;> rfl
  have hfree : Unblocked later c staged := Unblocked.of_test hfacts.2
  have hnamed : staged.Named := Run.named_after _ Hub.Memory.named_empty (by decide +kernel)
  refine ⟨hpasses.1, hpasses.2, c, hc, hfree, ?_⟩
  exact done_within_three (by decide) hnamed hquiet hc hfacts.1.1 hfacts.1.2 hfree

end Detachment
end Hosting
