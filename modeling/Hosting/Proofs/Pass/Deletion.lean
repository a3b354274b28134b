import Hosting.Pass.Deletion
import Hosting.Proofs.Pass.Steps

/-!
# What a deletion comes to

`Gone` bounds what removals do: no other works are touched, and no work is put in place.
`deleteInOrder_meets` leaves it open what is admitted: it says in which states the works
are deleted, own and hosted ones.
-/

namespace Hosting

namespace Hub.Memory

variable {m m' m'' : Memory}

/-- Works under the keys `K` are removed or marked, and that is all. -/
structure Gone (K : ObjectKey → Prop) (m m' : Memory) : Prop where
  within : Within { works := K } m m'
  sheds : Sheds m m'

namespace Gone

variable {K K' : ObjectKey → Prop}

theorem of_alike (K : ObjectKey → Prop) (h : Alike m m') : Gone K m m' :=
  ⟨Within.of_alike _ h, Sheds.of_works h.works⟩

theorem trans (h : Gone K m m') (h' : Gone K m' m'') : Gone K m m'' :=
  ⟨h.within.trans h'.within, h.sheds.trans h'.sheds⟩

theorem mono (h : Gone K m m') (hK : ∀ k, K k → K' k) : Gone K' m m' :=
  ⟨h.within.mono (fun _ => id) hK fun _ => id, h.sheds⟩

theorem of_gives {α : Type} {k : ObjectKey} {r : Except Error α × Memory}
    (h : Gives m (fun _ m' => Within { works := (· = k) } m m' ∧ Sheds m m') r) :
    Gone (· = k) m r.2 :=
  h.elim (fun _ => of_alike _) fun _ _ h => ⟨h.1, h.2⟩

end Gone

/-- No work and no add-on is in the namespace. -/
structure Clear (m : Memory) (nspace : String) : Prop where
  works : ∀ k w, m.works.get? k = some w → k.nspace ≠ nspace
  addOns : ∀ k a, m.addOns.get? k = some a → k.nspace ≠ nspace

theorem clear_of_listings {nspace : String} (hw : m.worksIn nspace none = [])
    (ha : m.addOnsIn nspace = []) : Clear m nspace where
  works k w hk he := by
    have hmem : w ∈ m.worksIn nspace none := mem_worksIn.mpr ⟨k, hk, he, rfl⟩
    rw [hw] at hmem
    cases hmem
  addOns k a hk he := by
    have hmem : a ∈ m.addOnsIn nspace := by
      refine List.mem_map.mpr ⟨(k, a), List.mem_filter.mpr ⟨Table.mem_entries_iff.mpr hk, ?_⟩, rfl⟩
      exact beq_iff_eq.mpr he
    rw [ha] at hmem
    cases hmem

theorem nodup_worksIn (hm : m.Filed) (nspace : String) (selector : Option String) :
    ((m.worksIn nspace selector).map ManifestWork.key).Nodup := by
  have hkeys : (m.worksIn nspace selector).map ManifestWork.key =
      (m.works.entries.filter fun e =>
        e.1.nspace == nspace && selects e.2.metadata selector).map (·.1) := by
    unfold worksIn
    rw [List.map_map]
    refine List.map_congr_left fun e he => ?_
    exact hm.works e.1 e.2 (Table.mem_entries_iff.mp (List.mem_filter.mp he).1)
  rw [hkeys]
  exact (Table.nodup_keys m.works).sublist (List.filter_sublist.map _)

end Hub.Memory

namespace Pass

open Hub (Request Memory Lenient)
open Hub.Memory (Alike Within Gone Sheds)

variable {α β : Type} {t : Instant} {allowed : Request → Memory → Prop} {ctx : Context}
  {c d d' : ManagedCluster} {m m' m'' : Memory}

/-! ## Removals -/

theorem deleteWork_meets {k : ObjectKey} (ha : allowed (.deleteWork k) m) :
    Meets t allowed (fun _ m' => Gone (· = k) m m') (ask (.deleteWork k)) m :=
  Dialogue.meets_map.mpr ⟨ha, Gone.of_gives (Hub.Memory.deleteWork_gives t k)⟩

theorem releaseWork_meets {k : ObjectKey} (ha : allowed (.releaseWork k) m) :
    Meets t allowed (fun _ m' => Gone (· = k) m m') (ask (.releaseWork k)) m :=
  Dialogue.meets_map.mpr ⟨ha, Gone.of_gives (Hub.Memory.releaseWork_gives k)⟩

/-- Of the items `xs`, whose works are removed one after another, `rest` is still to come:
under different keys, and with each work as it was at first. -/
structure Ahead (key : β → ObjectKey) (xs : List β) (m : Memory) (rest : List β) (m' : Memory) :
    Prop where
  gone : Gone (fun k => ∃ y ∈ xs, key y = k) m m'
  nodup : (rest.map key).Nodup
  rest : ∀ x ∈ rest, x ∈ xs ∧ m'.works.get? (key x) = m.works.get? (key x)

/-- Works that are removed one after another, each under its own key, are each found as
they were at first. -/
theorem removeAll_meets (key : β → ObjectKey) {f : β → Pass Unit} {xs : List β}
    (hkeys : (xs.map key).Nodup)
    (hf : ∀ x ∈ xs, ∀ m', Gone (fun k => ∃ y ∈ xs, key y = k) m m' →
      m'.works.get? (key x) = m.works.get? (key x) →
        Meets t allowed (fun _ m'' => Gone (· = key x) m' m'') (f x) m') :
    Meets t allowed (fun _ m' => Gone (fun k => ∃ y ∈ xs, key y = k) m m') (xs.forM f) m := by
  refine forM_meets (Ahead key xs m) ?_ (fun m' h => h.gone)
    ⟨Gone.of_alike _ (Alike.refl m), hkeys, fun x hx => ⟨hx, rfl⟩⟩
  rintro x rest m' ⟨hgone, hnodup, hrest⟩
  have hx := hrest x List.mem_cons_self
  refine (hf x hx.1 m' hgone hx.2).imp (fun _ _ hq => hq) fun r m'' hgone' => ?_
  have hgone'' := hgone.trans (hgone'.mono fun k hk => ⟨x, hx.1, hk.symm⟩)
  cases r with
  | error e => exact hgone''
  | ok u =>
    rw [List.map_cons, List.nodup_cons] at hnodup
    refine ⟨hgone'', hnodup.2, fun y hy => ?_⟩
    have hne : key y ≠ key x := fun he => hnodup.1 (he ▸ List.mem_map_of_mem hy)
    have hy' := hrest y (List.mem_cons_of_mem _ hy)
    exact ⟨hy'.1, (hgone'.within.works _ hne).trans hy'.2⟩

theorem deleteHosted_meets {ws : List ManifestWork} (hnamed : ∀ w ∈ ws, w.metadata.IsNamed)
    (hkeys : (ws.map ManifestWork.key).Nodup)
    (ha : ∀ w ∈ ws, w.isDeleting = false → ∀ m', Gone (fun k => ∃ v ∈ ws, v.key = k) m m' →
      m'.works.get? w.key = m.works.get? w.key → allowed (.deleteWork w.key) m') :
    Meets t allowed (fun _ m' => Gone (fun k => ∃ v ∈ ws, v.key = k) m m') (deleteHosted ws) m := by
  refine removeAll_meets ManifestWork.key hkeys fun w hw m' hgone hsame => ?_
  split
  · exact Gone.of_alike _ (Alike.refl m')
  · next hlive =>
    rw [ManifestWork.anyKey_eq (hnamed w hw)]
    exact deleteWork_meets (ha w hw (Bool.eq_false_iff.mpr hlive) m' hgone hsame)

theorem forceWork_meets (hall : ∀ q m, allowed q m) (k : ObjectKey) :
    Meets t allowed (fun _ m' => Gone (· = k) m m') (forceWork k) m := by
  refine meets_bind.mpr ((deleteWork_meets (hall _ _)).imp (fun _ _ hq => hq) fun r m₁ h₁ => ?_)
  cases r with
  | error e => exact h₁
  | ok u =>
    refine meets_bind.mpr (getWork_meets (fun q m _ => hall q m) rfl ?_)
    dsimp only [Next]
    split
    · exact h₁
    · split
      · exact h₁
      · exact (releaseWork_meets (hall _ _)).imp (fun _ _ hq => hq) fun r m₂ h₂ => h₁.trans h₂

/-! ## What holds all along -/

/-- Keys of works that a deletion may remove: those of the cluster's own namespace, and
those of the hosted works that were listed. -/
def Removable (c : ManagedCluster) (m : Memory) (k : ObjectKey) : Prop :=
  k.nspace = c.nameText ∨ ∃ w ∈ (m.worksOf c).hosted, w.key = k

/-- A deletion that read the cluster as `c` and began in the state `m` has come to the state
`m'`, where `d` is stored. -/
structure Detaching (c : ManagedCluster) (m : Memory) (d : ManagedCluster) (m' : Memory) :
    Prop where
  named : c.metadata.IsNamed
  within : Within { clusters := (· = c.nameText), works := Removable c m } m m'
  sheds : Sheds m m'
  stored : m'.clusters.get? c.nameText = some d
  tended : c.Tended d
  finalizers : d.metadata.finalizers = c.metadata.finalizers

namespace Detaching

theorem refl (hnamed : c.metadata.IsNamed) (hc : m.clusters.get? c.nameText = some c) :
    Detaching c m c m :=
  ⟨hnamed, Within.refl _ m, Sheds.of_works rfl, hc, ManagedCluster.Tended.refl c, rfl⟩

theorem alike (h : Detaching c m d m') (h' : Alike m' m'') : Detaching c m d m'' where
  named := h.named
  within := h.within.trans (Within.of_alike _ h')
  sheds := h.sheds.trans (Sheds.of_works h'.works)
  stored := h'.clusters ▸ h.stored
  tended := h.tended
  finalizers := h.finalizers

theorem gone (h : Detaching c m d m') {K : ObjectKey → Prop} (hK : ∀ k, K k → Removable c m k)
    (h' : Gone K m' m'') : Detaching c m d m'' where
  named := h.named
  within := h.within.trans (h'.within.mono (fun _ => False.elim) hK fun _ => id)
  sheds := h.sheds.trans h'.sheds
  stored := (h'.within.clusters _ id).trans h.stored
  tended := h.tended
  finalizers := h.finalizers

end Detaching

theorem setConditions_detaching (hl : Lenient allowed) {new : List Condition}
    (hnew : ∀ x ∈ new, x.type ∈ ManagedCluster.progressTypes) (h : Detaching c m d m')
    (hstatus : d.status = c.status) {post : Except Failure Unit → Memory → Prop}
    (herr : ∀ f m'', Detaching c m d m'' → post (.error f) m'')
    (hok : ∀ d' m'', Detaching c m d' m'' →
      Within { clusters := (· = c.nameText) } m' m'' → post (.ok ()) m'') :
    Meets t allowed post (setConditions ctx c new) m' := by
  refine setConditions_meets hl.lax h.named h.stored
    (ManagedCluster.nameText_of_bare h.tended.bare) hstatus ?_ ?_
  · intro f m'' hm
    exact herr f m'' (h.alike hm)
  · intro d' m'' hwithin hd' hr
    refine hok d' m'' ⟨h.named, ?_, ?_, hd', h.tended.trans (hr.tended hnew), ?_⟩ hwithin
    · exact h.within.trans (hwithin.mono (fun _ => id) (fun _ => False.elim) fun _ => id)
    · exact h.sheds.trans (Sheds.of_works (hwithin.works_eq fun _ => id))
    · exact hr.finalizers.trans h.finalizers

theorem forM_detaching {f : β → Pass Unit} {xs : List β}
    (hf : ∀ x ∈ xs, ∀ m', Detaching c m d m' →
      Meets t allowed (fun _ m'' => Detaching c m d m'') (f x) m') (h : Detaching c m d m') :
    Meets t allowed (fun _ m'' => Detaching c m d m'') (xs.forM f) m' := by
  refine forM_meets (fun rest m₁ => (∀ x ∈ rest, x ∈ xs) ∧ Detaching c m d m₁) ?_
    (fun _ h₁ => h₁.2) ⟨fun _ => id, h⟩
  rintro x rest m₁ ⟨hrest, h₁⟩
  refine (hf x (hrest x List.mem_cons_self) m₁ h₁).imp (fun _ _ hq => hq) fun r m₂ h₂ => ?_
  cases r with
  | error e => exact h₂
  | ok u => exact ⟨fun y hy => hrest y (List.mem_cons_of_mem x hy), h₂⟩

/-! ## By force -/

theorem mem_hosted_of_mem_inOrder {ws : ClusterWorks} {cluster : String} {w : ManifestWork}
    (h : w ∈ ws.inOrder cluster) : w ∈ ws.hosted := by
  unfold ClusterWorks.inOrder at h
  rw [List.mem_append, List.mem_append, Option.mem_toList, Option.mem_toList] at h
  rcases h with (h | h) | h
  · exact (List.mem_filter.mp h).1
  · exact List.mem_of_find?_eq_some h
  · exact List.mem_of_find?_eq_some h

theorem deleteByForce_meets (hall : ∀ q m, allowed q m) (hm : m.Named)
    (h : Detaching c m d m') (hstatus : d.status = c.status) :
    Meets t allowed (fun _ m'' => ∃ d', Detaching c m d' m'')
      (deleteByForce ctx c (m.worksOf c)) m' := by
  have hl : Lenient allowed := fun q m _ => hall q m
  refine meets_bind.mpr (setConditions_detaching hl (fun x hx => ?_) h hstatus
    (fun f m₁ h₁ => ⟨d, h₁⟩) ?_)
  · rw [List.mem_singleton.mp hx]
    exact List.mem_cons_self
  intro d₁ m₁ h₁ _
  refine meets_bind.mpr ((forM_detaching (fun w _ m₂ h₂ => ?_) h₁).imp (fun _ _ hq => hq) ?_)
  · rw [ManagedCluster.anyName_eq h.named]
    exact (forceWork_meets hall _).imp (fun _ _ hq => hq) fun _ _ hg =>
      h₂.gone (fun k hk => Or.inl (congrArg ObjectKey.nspace hk)) hg
  rintro (f | u) m₂ h₂
  · exact ⟨d₁, h₂⟩
  refine meets_bind.mpr ((forM_detaching (fun w hw m₃ h₃ => ?_) h₂).imp (fun _ _ hq => hq) ?_)
  · split
    · exact h₃
    · have hhosted : w ∈ (m.worksOf c).hosted := mem_hosted_of_mem_inOrder hw
      rw [ManifestWork.anyKey_eq (hm.hosted hhosted)]
      exact (deleteWork_meets (hall _ _)).imp (fun _ _ hq => hq) fun _ _ hg =>
        h₃.gone (fun k hk => Or.inr ⟨w, hhosted, hk.symm⟩) hg
  rintro (f | u) m₃ h₃
  · exact ⟨d₁, h₃⟩
  · exact publish_meets hl.lax fun m₄ hm => ⟨d₁, h₃.alike hm⟩

/-! ## In order -/

theorem isClear_meets (hl : Lenient allowed) {nspace : String}
    {post : Except Failure Bool → Memory → Prop} (herr : ∀ f m', Alike m m' → post (.error f) m')
    (hok : ∀ b, (b = true → m.Clear nspace) → post (.ok b) m) :
    Meets t allowed post (isClear nspace) m := by
  refine meets_bind.mpr (ask_meets (Hub.Memory.listWorks_gives t _ _) (hl _ _ id) herr ?_)
  rintro ws m' ⟨hws, rfl⟩
  dsimp only [Next]
  split
  · next hempty =>
    refine meets_bind.mpr (Dialogue.meets_map.mpr ⟨hl _ _ id, hok _ fun hnone => ?_⟩)
    exact Hub.Memory.clear_of_listings (hws ▸ List.isEmpty_iff.mp hempty)
      (List.isEmpty_iff.mp hnone)
  · exact hok false fun h => Bool.noConfusion h

/-- The state `m'` in which an own work `w` that was listed in the state `m` is deleted: the
work is as it was listed. -/
structure OwnTurn (ctx : Context) (c : ManagedCluster) (m : Memory) (w : ManifestWork)
    (m' : Memory) : Prop where
  listed : w ∈ (m.worksOf c).own
  due : isDue ctx c w = true
  same : m'.works.get? w.key = m.works.get? w.key
  cluster : ∃ d, m'.clusters.get? c.nameText = some d ∧ d.bare = c.bare

/-- The state `m'` in which a hosted work `w` that was listed in the state `m` is deleted: the
work is as it was listed, and the namespace of the cluster is clear. -/
structure HostedTurn (c : ManagedCluster) (m : Memory) (w : ManifestWork) (m' : Memory) :
    Prop where
  listed : w ∈ (m.worksOf c).stage c.nameText
  live : w.isDeleting = false
  turn : c.hosting? ≠ some c.nameText →
    m'.works.get? w.key = m.works.get? w.key ∧ m'.Clear c.nameText
  sheds : Sheds m m'
  cluster : ∃ d, m'.clusters.get? c.nameText = some d ∧ d.bare = c.bare

theorem nspace_of_mem_own (hm : m.Filed) {w : ManifestWork} (hw : w ∈ (m.worksOf c).own) :
    m.works.get? w.key = some w ∧ w.key = ⟨c.nameText, w.nameText⟩ := by
  obtain ⟨k, hk, hspace⟩ := Hub.Memory.mem_own_iff.mp hw
  have hkey := hm.works k w hk
  subst hkey
  exact ⟨hk, by rw [← hspace]; rfl⟩

theorem nspace_of_mem_hosted (hm : m.Filed) {w : ManifestWork} (hw : w ∈ (m.worksOf c).hosted) :
    m.works.get? w.key = some w ∧ c.hosting? = some w.key.nspace := by
  obtain ⟨k, hk, hspace, -⟩ := Hub.Memory.mem_hosted_iff_selects.mp hw
  have hkey := hm.works k w hk
  subst hkey
  exact ⟨hk, hspace⟩

theorem nodup_stage (hm : m.Filed) (cluster : String) :
    (((m.worksOf c).stage cluster).map ManifestWork.key).Nodup := by
  unfold ClusterWorks.stage
  split
  · generalize ((m.worksOf c).hosted? _).or _ = w
    cases w <;> simp
  · refine List.Nodup.sublist (List.filter_sublist.map _) ?_
    unfold Hub.Memory.worksOf
    cases c.hosting? with
    | none => exact List.nodup_nil
    | some h => exact Hub.Memory.nodup_worksIn hm _ _

theorem deleteStage_meets (hl : Lenient allowed) (hm : m.Named) (h : Detaching c m d m')
    (hother : ∀ k, k.nspace ≠ c.nameText → m'.works.get? k = m.works.get? k)
    (hhosted : ∀ w m', HostedTurn c m w m' → allowed (.deleteWork w.key) m') :
    Meets t allowed (fun _ m'' => ∃ d', Detaching c m d' m'')
      (do if ← isClear c.nameText then deleteHosted ((m.worksOf c).stage c.nameText)) m' := by
  refine meets_bind.mpr (isClear_meets hl (fun f m₁ hm₁ => ⟨d, h.alike hm₁⟩) fun b hclear => ?_)
  cases b with
  | false => exact meets_pure.mpr ⟨d, h⟩
  | true =>
    have hstage (w : ManifestWork) (hw : w ∈ (m.worksOf c).stage c.nameText) :=
      (nspace_of_mem_hosted hm.toFiled (ClusterWorks.mem_hosted_of_mem_stage hw)).2
    have hlisted (k : ObjectKey) :
        (∃ w ∈ (m.worksOf c).stage c.nameText, w.key = k) → Removable c m k := by
      rintro ⟨w, hw, hk⟩
      exact Or.inr ⟨w, ClusterWorks.mem_hosted_of_mem_stage hw, hk⟩
    refine (deleteHosted_meets
      (fun w hw => hm.hosted (ClusterWorks.mem_hosted_of_mem_stage hw))
      (nodup_stage hm.toFiled _) fun w hw hlive m₁ hgone hsame => ?_).imp
        (fun _ _ hq => hq) fun r m₁ hgone => ⟨d, h.gone hlisted hgone⟩
    refine hhosted w m₁
      ⟨hw, hlive, fun hne => ⟨?_, fun k v hk he => ?_, ?_⟩, ?_, d, ?_, h.tended.bare⟩
    · rw [hsame, hother]
      exact fun he => hne (he ▸ hstage w hw)
    · -- what is deleted on the way is elsewhere
      have hk' : m'.works.get? k = some v := by
        rw [← hgone.within.works k, hk]
        rintro ⟨y, hy, rfl⟩
        exact hne (he ▸ hstage y hy)
      exact (hclear rfl).works k v hk' he
    · rw [hgone.within.addOns]
      exact (hclear rfl).addOns
    · exact h.sheds.trans hgone.sheds
    · exact (hgone.within.clusters _ id).trans h.stored

theorem deleteInOrder_meets (hl : Lenient allowed) (hm : m.Named)
    (hc : m.clusters.get? c.nameText = some c)
    (hown : ∀ w m', OwnTurn ctx c m w m' → allowed (.deleteWork w.key) m')
    (hhosted : ∀ w m', HostedTurn c m w m' → allowed (.deleteWork w.key) m') :
    Meets t allowed (fun _ m' => ∃ d', Detaching c m d' m')
      (deleteInOrder ctx c (m.worksOf c)) m := by
  have hnamed : c.metadata.IsNamed := hm.clusterNames _ c hc
  unfold deleteInOrder
  rw [ManagedCluster.anyName_eq hnamed]
  refine meets_bind.mpr (setConditions_detaching hl (fun x hx => ?_) (Detaching.refl hnamed hc) rfl
    (fun f m₁ h₁ => ⟨c, h₁⟩) ?_)
  · rw [List.mem_singleton.mp hx]
    exact List.mem_cons_self
  intro d₁ m₁ h₁ hwithin₁
  have hworks₁ : m₁.works = m.works := hwithin₁.works_eq fun _ => id
  have hdue (w : ManifestWork) (hw : w ∈ (m.worksOf c).own.filter (isDue ctx c)) :
      w ∈ (m.worksOf c).own ∧ isDue ctx c w = true := List.mem_filter.mp hw
  have hkeys : ((m.worksOf c).own.filter (isDue ctx c)).map
      (fun w => (⟨c.nameText, w.nameText⟩ : ObjectKey)) =
      ((m.worksOf c).own.filter (isDue ctx c)).map ManifestWork.key :=
    List.map_congr_left fun w hw => (nspace_of_mem_own hm.toFiled (hdue w hw).1).2.symm
  have hspace {xs : List ManifestWork} (k : ObjectKey) :
      (∃ w ∈ xs, (⟨c.nameText, w.nameText⟩ : ObjectKey) = k) → Removable c m k := by
    rintro ⟨w, -, rfl⟩
    exact Or.inl rfl
  refine meets_bind.mpr ((removeAll_meets (fun w => ⟨c.nameText, w.nameText⟩) ?_ ?_).imp
    (fun _ _ hq => hq) ?_)
  · rw [hkeys]
    exact (Hub.Memory.nodup_worksIn hm.toFiled _ _).sublist (List.filter_sublist.map _)
  · intro w hw m₂ hgone hsame
    have hkey := (nspace_of_mem_own hm.toFiled (hdue w hw).1).2
    rw [ManifestWork.anyName_eq (hm.own (hdue w hw).1)]
    refine deleteWork_meets (hkey ▸ hown w m₂
      ⟨(hdue w hw).1, (hdue w hw).2, ?_, d₁, ?_, h₁.tended.bare⟩)
    · rw [hkey, hsame, hworks₁]
    · exact (hgone.within.clusters _ id).trans h₁.stored
  rintro (f | u) m₂ hgone₂
  · exact ⟨d₁, h₁.gone hspace hgone₂⟩
  have h₂ := h₁.gone hspace hgone₂
  have hother (k : ObjectKey) (hk : k.nspace ≠ c.nameText) :
      m₂.works.get? k = m.works.get? k := by
    rw [hgone₂.within.works, hworks₁]
    rintro ⟨w, -, rfl⟩
    exact hk rfl
  dsimp only [Next]
  split
  · refine meets_bind.mpr (publish_meets hl.lax fun m₃ hm₃ => ?_)
    exact deleteStage_meets hl hm (h₂.alike hm₃) (hm₃.works ▸ hother) hhosted
  · exact deleteStage_meets hl hm h₂ hother hhosted

/-! ## The whole deletion -/

/-- The cluster is there with the finalizers that `c` has. -/
def Stays (c : ManagedCluster) (m' : Memory) : Prop :=
  ∃ d, m'.clusters.get? c.nameText = some d ∧ c.Tended d ∧
    d.metadata.finalizers = c.metadata.finalizers

/-- The finalizer is not on the cluster any more, or the cluster is gone: it had no other. -/
inductive LetGo (c : ManagedCluster) (m' : Memory) : Prop where
  | kept {d : ManagedCluster} (stored : m'.clusters.get? c.nameText = some d)
    (tended : c.Tended d)
    (off : d.metadata.finalizers = Finalizers.released c.metadata.finalizers)
  | gone (stored : m'.clusters.get? c.nameText = none)
    (others : Finalizers.others c.metadata.finalizers = [])

/-- What a deletion that began in the state `m` leaves: the secrets, no work that was not
there, and the finalizers as they were, unless none of the works is left. -/
structure Detached (requeue : Nat) (c : ManagedCluster) (m : Memory)
    (r : Except Failure Outcome) (m' : Memory) : Prop where
  within : Within { clusters := (· = c.nameText), works := Removable c m } m m'
  sheds : Sheds m m'
  cluster : Stays c m' ∨ (m'.worksOf c).total = 0 ∧ LetGo c m'
  outcome : ∀ o, r = .ok o →
    if (m'.worksOf c).isEmpty then o = .done ∧ LetGo c m' else o = .again requeue ∧ Stays c m'

theorem Detached.finalizer {requeue : Nat} {r : Except Failure Outcome}
    (h : Detached requeue c m r m') :
    (∃ d, m'.clusters.get? c.nameText = some d ∧ d.isHeld = c.isHeld) ∨
      (m'.worksOf c).total = 0 := by
  rcases h.cluster with ⟨d, hd, -, hfinalizers⟩ | h
  · exact Or.inl ⟨d, hd, ManagedCluster.isHeld_congr hfinalizers⟩
  · exact Or.inr h.1

theorem Detaching.stays (h : Detaching c m d m') : Stays c m' :=
  ⟨d, h.stored, h.tended, h.finalizers⟩

theorem Detaching.failed {requeue : Nat} {f : Failure} (h : Detaching c m d m') :
    Detached requeue c m (.error f) m' :=
  ⟨h.within, h.sheds, Or.inl h.stays, fun _ ho => nomatch ho⟩

theorem Detaching.released (h : Detaching c m d m')
    (hwithin : Within { clusters := (· = c.nameText) } m' m'')
    (hr : Released c.nameText d m'') (hnone : (m'.worksOf c).total = 0) {requeue : Nat} :
    Detached requeue c m (.ok .done) m'' := by
  have hworks : m''.works = m'.works := hwithin.works_eq fun _ => id
  have hempty : (m''.worksOf c).total = 0 := by
    rw [Hub.Memory.worksOf_congr hworks]
    exact hnone
  have hletGo : LetGo c m'' := by
    cases hr with
    | @kept d' stored revised =>
      have hconditions : d'.conditions = d.conditions := by
        unfold ManagedCluster.conditions
        rw [revised.status]
      refine LetGo.kept stored (h.tended.trans ⟨revised.bare, ?_, congrArg _ hconditions, ?_⟩)
        (revised.finalizers.trans (congrArg _ h.finalizers))
      · rw [revised.finalizers, Finalizers.others_released]
      · exact hconditions ▸ List.prefix_refl _
    | gone stored others => exact LetGo.gone stored (h.finalizers ▸ others)
  refine ⟨?_, h.sheds.trans (Sheds.of_works hworks), Or.inr ⟨hempty, hletGo⟩, fun o ho => ?_⟩
  · exact h.within.trans (hwithin.mono (fun _ => id) (fun _ => False.elim) fun _ => id)
  · have hisEmpty : (m''.worksOf c).isEmpty = true := beq_iff_eq.mpr hempty
    rw [if_pos hisEmpty]
    exact ⟨(Except.ok.inj ho).symm, hletGo⟩

/-- The finalizer goes when the works that are listed at the end are none. -/
theorem finish_meets (hl : Lenient allowed) (h : Detaching c m d m')
    (hdel : c.isDeleting = true) :
    Meets t allowed (Detached ctx.settings.deletionRequeue c m) (do
      let remaining ← listWorks c
      syncFinalizer ctx c remaining.total
      return if remaining.isEmpty then Outcome.done else .again ctx.settings.deletionRequeue)
      m' := by
  refine meets_bind.mpr
    (listWorks_meets hl.reads h.named (fun _ _ _ hm => (h.alike hm).failed) ?_)
  refine meets_bind.mpr (syncFinalizer_deleting_meets hl.lax h.named h.stored h.tended.bare
    h.finalizers hdel (fun hsome => ?_) (fun _ _ hm => (h.alike hm).failed)
    fun hnone m₁ hwithin hr => ?_)
  · have hnonempty : ¬(m'.worksOf c).isEmpty = true := fun he => hsome (beq_iff_eq.mp he)
    refine meets_pure.mpr ⟨h.within, h.sheds, Or.inl h.stays, fun o ho => ?_⟩
    rw [if_neg hnonempty] at ho ⊢
    exact ⟨(Except.ok.inj ho).symm, h.stays⟩
  · have hempty : (m'.worksOf c).isEmpty = true := beq_iff_eq.mpr hnone
    refine meets_pure.mpr ?_
    rw [if_pos hempty]
    exact h.released hwithin hr hnone

theorem deletion_meets (hl : Lenient allowed) (hm : m.Named)
    (hc : m.clusters.get? c.nameText = some c) (hdel : c.isDeleting = true)
    (hforce : c.needsForce ctx.now ctx.settings.silenceTimeout = true → ∀ q m', allowed q m')
    (hown : ∀ w m', OwnTurn ctx c m w m' → allowed (.deleteWork w.key) m')
    (hhosted : ∀ w m', HostedTurn c m w m' → allowed (.deleteWork w.key) m') :
    Meets t allowed (Detached ctx.settings.deletionRequeue c m) (do
      syncFinalizer ctx c (m.worksOf c).total
      deletion ctx c (m.worksOf c)) m := by
  have h := Detaching.refl (hm.clusterNames _ c hc) hc
  refine meets_bind.mpr (syncFinalizer_deleting_meets hl.lax h.named hc rfl rfl hdel
    (fun hsome => ?_) (fun _ _ hm₁ => (h.alike hm₁).failed) fun hnone m₁ hwithin hr => ?_)
  · have hnonempty : ¬(m.worksOf c).isEmpty = true := fun he => hsome (beq_iff_eq.mp he)
    dsimp only [Next]
    unfold deletion
    rw [if_neg hnonempty]
    split
    · next hf =>
      refine meets_bind.mpr ((deleteByForce_meets (hforce hf) hm h rfl).imp
        (fun _ _ hq => hq) ?_)
      rintro (f | u) m₁ ⟨d₁, h₁⟩
      · exact h₁.failed
      · exact finish_meets hl h₁ hdel
    · refine meets_bind.mpr ((deleteInOrder_meets hl hm hc hown hhosted).imp
        (fun _ _ hq => hq) ?_)
      rintro (f | u) m₁ ⟨d₁, h₁⟩
      · exact h₁.failed
      · exact finish_meets hl h₁ hdel
  · have hempty : (m.worksOf c).isEmpty = true := beq_iff_eq.mpr hnone
    dsimp only [Next]
    unfold deletion
    rw [if_pos hempty]
    exact h.released hwithin hr hnone

end Pass
end Hosting
