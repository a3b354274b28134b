import Hosting.Proofs.Hub.Footprint
import Hosting.Proofs.Hub.Twins
import Hosting.Proofs.Pass.Deletion

/-!
# What a forced deletion comes to

In a quiet hub each removal is done, and noted.  `TakenAll` says what a loop of removals leaves
of the works and which deletions it notes; `deleteByForce_swept` puts the two loops of a forced
deletion together.
-/

namespace Hosting

namespace Hub

/-- The work whose deletion the write is. -/
def Write.deleted? : Write → Option ObjectKey
  | .deleteWork k => some k
  | _ => none

namespace Memory

variable {m : Memory} {α : Type}

/-- The works that were deleted, in the order of their deletions. -/
def deletions (m : Memory) : List ObjectKey := m.writes.filterMap Write.deleted?

/-! ## What is noted -/

/-- No conflict is laid in wait, and at most the one write is noted. -/
structure Noted (m : Memory) (x : Option Write) (m' : Memory) : Prop where
  conflicts : m'.conflicts ≤ m.conflicts
  writes : m'.writes = m.writes ∨ m'.writes = m.writes ++ x.toList

theorem noted_answer (t : Instant) (q : Request) : Noted m q.write? (m.answer t q).2 := by
  have hends := ends_answer m t q
  generalize m.answer t q = r at hends
  obtain ⟨e | a, m'⟩ := r
  · cases hends with
    | conflicting => exact ⟨Nat.sub_le _ _, Or.inl rfl⟩
    | failing => exact ⟨Nat.le_refl _, Or.inl rfl⟩
    | refused => exact ⟨Nat.le_refl _, Or.inl rfl⟩
  · have hdone : m.Done q.write? m' := hends
    refine ⟨Nat.le_of_eq hdone.conflicts, ?_⟩
    have hwrites := hdone.writes
    cases hw : q.write? with
    | none => simpa [hw] using hwrites
    | some w =>
      rw [hw, Option.toList_some, List.filter_cons, List.filter_nil] at hwrites
      split at hwrites
      · exact Or.inr hwrites
      · exact Or.inl (hwrites.trans (List.append_nil _))

theorem Quiet.answer (h : m.Quiet) (t : Instant) (q : Request) : (m.answer t q).2.Quiet where
  failures op := failures_answer (h.failures op) t q
  conflicts := Nat.le_zero.mp (h.conflicts ▸ (noted_answer t q).conflicts)

theorem Quiet.talk {α : Type} (h : m.Quiet) (t : Instant) (d : Talk α) : (m.talk t d).2.Quiet := by
  induction d generalizing m with
  | done a => exact h
  | ask q next ih => exact ih _ (h.answer t q)

theorem works_answer {q : Request} (hq : ¬q.IsWorkChange) (t : Instant) :
    (m.answer t q).2.works = m.works := by
  cases worksDone_answer (m := m) t q with
  | same works => exact works
  | put asked => rcases asked with rfl | rfl <;> exact absurd trivial hq
  | removed asked => rcases asked with rfl | rfl <;> exact absurd trivial hq

theorem deletions_answer {q : Request} (hq : ¬q.IsWorkChange) (t : Instant) :
    (m.answer t q).2.deletions = m.deletions := by
  have hnone : q.write?.toList.filterMap Write.deleted? = [] := by
    cases q with
    | deleteWork k => exact absurd trivial hq
    | _ => rfl
  unfold deletions
  rcases (noted_answer (m := m) t q).writes with h | h
  · rw [h]
  · rw [h, List.filterMap_append, hnone, List.append_nil]

end Memory
end Hub

theorem isDeleting_afterDeletion {t : Instant} {w w' : ManifestWork}
    (h : afterDeletion t w = some w') : w'.isDeleting = true := by
  unfold afterDeletion at h
  rw [Option.ite_none_left_eq_some, Option.some.injEq] at h
  rw [← h.2]
  show (w.metadata.deletionTimestamp.or _).isSome = true
  cases w.metadata.deletionTimestamp <;> rfl

theorem finalizers_afterDeletion {t : Instant} {w w' : ManifestWork}
    (h : afterDeletion t w = some w') : w'.metadata.finalizers = w.metadata.finalizers ∧
      (w.metadata.finalizers.getD []).isEmpty = false := by
  unfold afterDeletion at h
  rw [Option.ite_none_left_eq_some, Option.some.injEq, Bool.not_eq_true] at h
  exact ⟨h.2 ▸ rfl, h.1⟩

namespace Pass

open Hub (Request Memory Lax Write)
open Hub.Memory (Alike Within)

variable {β : Type} {t : Instant} {ctx : Context} {c : ManagedCluster} {m m' m'' : Memory}

/-! ## Removals in a quiet hub -/

/-- Of the works only the one under `k` was touched, with `left` left of it, and the deletion
noted is `x`. -/
structure Taken (k : ObjectKey) (left : Option ManifestWork) (x : Option ObjectKey)
    (m m' : Memory) : Prop where
  quiet : m'.Quiet
  clusters : m'.clusters = m.clusters
  left : m'.works.get? k = left
  others : ∀ k', k' ≠ k → m'.works.get? k' = m.works.get? k'
  deletions : m'.deletions = m.deletions ++ x.toList

theorem Taken.trans {k : ObjectKey} {left left' : Option ManifestWork} {x : Option ObjectKey}
    (h : Taken k left x m m') (h' : Taken k left' none m' m'') : Taken k left' x m m'' where
  quiet := h'.quiet
  clusters := h'.clusters.trans h.clusters
  left := h'.left
  others k' hk := (h'.others k' hk).trans (h.others k' hk)
  deletions := by rw [h'.deletions, h.deletions, Option.toList_none, List.append_nil]

/-- Any request is admitted. -/
abbrev Anything (_ : Request) (_ : Memory) : Prop := True

theorem removes_taken {q : Request} {a : q.Value} {k : ObjectKey} {x : Write}
    {left : ManifestWork → Option ManifestWork} (hr : Removes t q a k x left) (hq : m.Quiet)
    {w : ManifestWork} (hw : m.works.get? k = some w) :
    Meets t Anything (Yields fun _ m' => Taken k (left w) x.deleted? m m') (ask q) m := by
  obtain ⟨ws, hanswer, hws⟩ := hr.there m w hq hw
  refine Dialogue.meets_map.mpr ⟨trivial, ?_⟩
  rw [hanswer]
  refine ⟨⟨hq.failures, hq.conflicts⟩, rfl, ?_, fun k' hk => ?_, ?_⟩
  · exact (hws k).trans (if_pos rfl)
  · exact (hws k').trans (if_neg hk)
  · show (m.writes ++ [x]).filterMap Write.deleted? = _
    rw [List.filterMap_append]
    cases hx : x.deleted? <;> simp [hx, Hub.Memory.deletions]

/-- A work is gone after it was deleted by force: what holds it is taken off, and so it is
deleting when that is done. -/
theorem forceWork_taken (hq : m.Quiet) {k : ObjectKey} {w : ManifestWork}
    (hw : m.works.get? k = some w) :
    Meets t Anything (Yields fun _ m' => Taken k none (some k) m m') (forceWork k) m := by
  have hopen : Hub.Open Anything := fun _ _ _ => trivial
  refine meets_bind_yields.mpr
    ((removes_taken (removes_deleteWork t k) hq hw).yields_imp fun _ m₁ h₁ => ?_)
  cases hleft : afterDeletion t w with
  | none =>
    refine meets_bind_yields.mpr (getWork_meets hopen (h₁.left.trans hleft) ?_)
    exact meets_pure.mpr (hleft ▸ h₁)
  | some w' =>
    have hheld := finalizers_afterDeletion hleft
    have hreleased : afterRelease w' = none := if_pos (isDeleting_afterDeletion hleft)
    refine meets_bind_yields.mpr (getWork_meets hopen (h₁.left.trans hleft) ?_)
    dsimp only [Yields]
    rw [hheld.1, hheld.2, if_neg Bool.false_ne_true]
    refine (removes_taken (removes_releaseWork t k) h₁.quiet (h₁.left.trans hleft)).yields_imp
      fun _ m₂ h₂ => ?_
    exact h₁.trans (hreleased ▸ h₂)

theorem deleteHosted_taken (hq : m.Quiet) {w : ManifestWork} (hnamed : w.metadata.IsNamed)
    (hw : m.works.get? w.key = some w) :
    Meets t Anything
      (Yields fun _ m' => Taken w.key (if w.isDeleting then some w else afterDeletion t w)
        (if w.isDeleting then none else some w.key) m m')
      (if w.isDeleting then pure () else ask (.deleteWork w.anyKey)) m := by
  rw [ManifestWork.anyKey_eq hnamed]
  cases w.isDeleting with
  | true => exact ⟨hq, rfl, hw, fun _ _ => rfl, (List.append_nil _).symm⟩
  | false => exact removes_taken (removes_deleteWork t w.key) hq hw

/-- Of each of the items `xs` what `left` says is left of its work; no other work is touched. -/
structure TakenAll (key : β → ObjectKey) (left : β → Option ManifestWork)
    (noted : β → Option ObjectKey) (xs : List β) (m m' : Memory) : Prop where
  quiet : m'.Quiet
  clusters : m'.clusters = m.clusters
  left : ∀ x ∈ xs, m'.works.get? (key x) = left x
  others : ∀ k, (∀ x ∈ xs, key x ≠ k) → m'.works.get? k = m.works.get? k
  deletions : m'.deletions = m.deletions ++ xs.filterMap noted

section Loop

variable {key : β → ObjectKey} {left : β → Option ManifestWork} {noted : β → Option ObjectKey}

theorem TakenAll.nil (hq : m.Quiet) : TakenAll key left noted [] m m :=
  ⟨hq, rfl, fun _ hx => (nomatch hx), fun _ _ => rfl, (List.append_nil _).symm⟩

theorem TakenAll.cons {x : β} {xs : List β} (hx : ∀ y ∈ xs, key y ≠ key x)
    (h : Taken (key x) (left x) (noted x) m m') (h' : TakenAll key left noted xs m' m'') :
    TakenAll key left noted (x :: xs) m m'' where
  quiet := h'.quiet
  clusters := h'.clusters.trans h.clusters
  left y hy := by
    rcases List.mem_cons.mp hy with rfl | hy
    · rw [h'.others _ hx, h.left]
    · exact h'.left y hy
  others k hk := by
    rw [h'.others k fun y hy => hk y (List.mem_cons_of_mem x hy)]
    exact h.others k fun he => hk x List.mem_cons_self he.symm
  deletions := by
    rw [h'.deletions, h.deletions, List.append_assoc]
    cases hn : noted x <;> simp [hn]

/-- Works that are removed one after another, each under its own key, are each found as they
were at first. -/
theorem takenAll_forM (left : β → Option ManifestWork) (noted : β → Option ObjectKey)
    {f : β → Pass Unit} {xs : List β} (hkeys : (xs.map key).Nodup)
    (hq : m.Quiet)
    (hf : ∀ x ∈ xs, ∀ m', m'.Quiet → m'.works.get? (key x) = m.works.get? (key x) →
      Meets t Anything (Yields fun _ => Taken (key x) (left x) (noted x) m') (f x) m') :
    Meets t Anything (Yields fun _ => TakenAll key left noted xs m) (xs.forM f) m := by
  induction xs generalizing m with
  | nil => exact meets_pure.mpr (TakenAll.nil hq)
  | cons x xs ih =>
    rw [List.map_cons, List.nodup_cons] at hkeys
    have hx : ∀ y ∈ xs, key y ≠ key x := fun y hy he =>
      hkeys.1 (he ▸ List.mem_map_of_mem hy)
    refine meets_bind_yields.mpr
      ((hf x List.mem_cons_self m hq rfl).yields_imp fun _ m₁ h₁ => ?_)
    refine (ih hkeys.2 h₁.quiet fun y hy m' hq' hsame => ?_).yields_imp
      fun _ m₂ h₂ => h₂.cons hx h₁
    exact hf y (List.mem_cons_of_mem x hy) m' hq' (hsame.trans (h₁.others _ (hx y hy)))

end Loop

/-! ## Steps that remove nothing -/

/-- No work is touched, and no deletion noted. -/
structure Spared (m m' : Memory) : Prop where
  quiet : m'.Quiet
  works : m'.works = m.works
  deletions : m'.deletions = m.deletions

theorem Spared.trans (h : Spared m m') (h' : Spared m' m'') : Spared m m'' :=
  ⟨h'.quiet, h'.works.trans h.works, h'.deletions.trans h.deletions⟩

/-- What asks for no change of a work touches none. -/
theorem Meets.spared {α : Type} {p : Pass α} {post : α → Memory → Prop} (hq : m.Quiet)
    (h : Meets t (fun q _ => ¬q.IsWorkChange) (Yields post) p m) :
    Meets t Anything (Yields fun a m' => Spared m m' ∧ post a m') p m := by
  have hstep (q : Request) (m₁ : Memory) (hq : ¬q.IsWorkChange) (h₁ : Spared m m₁) :
      Spared m (m₁.answer t q).2 :=
    h₁.trans ⟨h₁.quiet.answer t q, Hub.Memory.works_answer hq t, Hub.Memory.deletions_answer hq t⟩
  refine (Dialogue.Meets.keeps h hstep ⟨hq, rfl, rfl⟩).imp (fun _ _ _ => trivial) ?_
  rintro (f | a) m' ⟨hspared, hpost⟩
  · trivial
  · exact ⟨hspared, hpost⟩

/-- The cluster is there as `c`, but perhaps for its status. -/
def There (c : ManagedCluster) (m : Memory) : Prop :=
  ∃ d, m.clusters.get? c.nameText = some d ∧ d.bare = c.bare ∧
    d.metadata.finalizers = c.metadata.finalizers

theorem lax_sparing : Lax fun q _ => ¬q.IsWorkChange := fun _ _ => id

theorem setConditions_spared (hq : m.Quiet) (hnamed : c.metadata.IsNamed)
    (hc : m.clusters.get? c.nameText = some c) (new : List Condition) :
    Meets t Anything (Yields fun _ m' => Spared m m' ∧ There c m') (setConditions ctx c new) m := by
  refine Meets.spared hq (setConditions_meets lax_sparing hnamed hc rfl rfl
    (fun _ _ _ => trivial) fun d _ _ hd hr => ?_)
  exact ⟨d, hd, hr.bare, hr.finalizers⟩

theorem syncFinalizer_spared (hq : m.Quiet) (hnamed : c.metadata.IsNamed) (hc : There c m)
    (hdel : c.isDeleting = true) (works : Nat) :
    Meets t Anything (Yields fun _ m' => Spared m m' ∧ (works ≠ 0 → m' = m))
      (syncFinalizer ctx c works) m := by
  obtain ⟨d, hd, hbare, hfinalizers⟩ := hc
  refine Meets.spared hq (syncFinalizer_deleting_meets lax_sparing hnamed hd hbare hfinalizers
    hdel (fun _ _ => rfl) (fun _ _ _ => trivial) fun hnone _ _ _ hsome => ?_)
  exact absurd hnone hsome

theorem publish_spared (hq : m.Quiet) (e : Hub.Event) :
    Meets t Anything (Yields fun _ m' => Spared m m' ∧ m'.clusters = m.clusters)
      (publish c e) m :=
  Meets.spared hq (publish_meets lax_sparing fun _ hm => hm.clusters)

/-! ## The works of the cluster -/

/-- What is left of a hosted work: one that is deleting already is let be. -/
def afterForce (t : Instant) (w : ManifestWork) : Option ManifestWork :=
  if w.isDeleting then some w else afterDeletion t w

/-- The deletion of a hosted work. -/
def forced? (w : ManifestWork) : Option ObjectKey := if w.isDeleting then none else some w.key

/-- The works of the cluster in the state `m` are removed in the state `m'`, and no others. -/
structure Swept (t : Instant) (c : ManagedCluster) (m m' : Memory) : Prop where
  quiet : m'.Quiet
  own : ∀ k, k.nspace = c.nameText → m'.works.get? k = none
  hosted : ∀ w ∈ (m.worksOf c).hosted, m'.works.get? w.key = afterForce t w
  others : ∀ k, k.nspace ≠ c.nameText → (∀ w ∈ (m.worksOf c).hosted, w.key ≠ k) →
    m'.works.get? k = m.works.get? k
  deletions : m'.deletions = m.deletions ++ ((m.worksOf c).own.map ManifestWork.key ++
    ((m.worksOf c).inOrder c.nameText).filterMap forced?)

theorem Swept.spared (h : Swept t c m m') (h' : Spared m' m'') : Swept t c m m'' :=
  ⟨h'.quiet, h'.works ▸ h.own, h'.works ▸ h.hosted, h'.works ▸ h.others,
    h'.deletions.trans h.deletions⟩

theorem hosted_name_unique (hm : m.Filed) {w w' : ManifestWork} (hw : w ∈ (m.worksOf c).hosted)
    (hw' : w' ∈ (m.worksOf c).hosted) (hname : w.nameText = w'.nameText) : w = w' := by
  obtain ⟨hstored, hspace⟩ := nspace_of_mem_hosted hm hw
  obtain ⟨hstored', hspace'⟩ := nspace_of_mem_hosted hm hw'
  have hsame : w.key.nspace = w'.key.nspace := Option.some.inj (hspace.symm.trans hspace')
  have hkey : w.key = w'.key := by
    show (⟨w.key.nspace, w.nameText⟩ : ObjectKey) = ⟨w'.key.nspace, w'.nameText⟩
    rw [hsame, hname]
  rw [hkey, hstored', Option.some.injEq] at hstored
  exact hstored.symm

theorem mem_toList_hosted? (hm : m.Filed) {name : String} (hname : name ≠ "")
    {w : ManifestWork} : w ∈ ((m.worksOf c).hosted? name).toList ↔
      w ∈ (m.worksOf c).hosted ∧ w.nameText = name := by
  have hfound {v : ManifestWork} (hv : (m.worksOf c).hosted? name = some v) :
      v ∈ (m.worksOf c).hosted ∧ v.nameText = name := by
    refine ⟨List.mem_of_find?_eq_some hv, (ManifestWork.nameText_eq_iff hname).mpr ?_⟩
    have hnamed := List.find?_some hv
    exact beq_iff_eq.mp hnamed
  rw [Option.mem_toList]
  constructor
  · exact hfound
  · rintro ⟨hw, hnamed⟩
    have hhas : (m.worksOf c).hasHosted name = true :=
      ClusterWorks.hasHosted_iff.mpr ⟨w, hw, (ManifestWork.nameText_eq_iff hname).mp hnamed⟩
    obtain ⟨v, hv⟩ := Option.isSome_iff_exists.mp hhas
    rw [hosted_name_unique hm hw (hfound hv).1 (hnamed.trans (hfound hv).2.symm)]
    exact hv

/-- The listed works beside the agent's two. -/
theorem mem_others_iff (hm : m.Named) {name : String} {w : ManifestWork} :
    w ∈ (m.worksOf c).others name ↔ w ∈ (m.worksOf c).hosted ∧
      w.nameText ≠ Names.klusterletWork name ∧ w.nameText ≠ Names.kubeconfigWork name :=
  ClusterWorks.mem_others_iff fun _ => hm.hosted

/-- Each hosted work has its turn. -/
theorem mem_inOrder_iff (hm : m.Named) {w : ManifestWork} :
    w ∈ (m.worksOf c).inOrder c.nameText ↔ w ∈ (m.worksOf c).hosted := by
  unfold ClusterWorks.inOrder
  rw [List.mem_append, List.mem_append, mem_others_iff hm,
    mem_toList_hosted? hm.toFiled (Names.klusterletWork_ne_empty _),
    mem_toList_hosted? hm.toFiled (Names.kubeconfigWork_ne_empty _)]
  by_cases hagent : w.nameText = Names.klusterletWork c.nameText
  · simp +contextual [hagent]
  · by_cases hcredentials : w.nameText = Names.kubeconfigWork c.nameText
    · simp +contextual [hcredentials]
    · simp [hagent, hcredentials]

theorem nodup_hosted (hm : m.Filed) : ((m.worksOf c).hosted.map ManifestWork.key).Nodup := by
  unfold Hub.Memory.worksOf
  cases c.hosting? with
  | none => exact List.nodup_nil
  | some h => exact Hub.Memory.nodup_worksIn hm _ _

/-- No hosted work has its turn twice. -/
theorem nodup_inOrder (hm : m.Named) :
    (((m.worksOf c).inOrder c.nameText).map ManifestWork.key).Nodup := by
  have hsingle (o : Option ManifestWork) : (o.toList.map ManifestWork.key).Nodup := by
    cases o <;> simp
  have hagent := fun {w} => mem_toList_hosted? (c := c) (w := w) hm.toFiled
    (Names.klusterletWork_ne_empty c.nameText)
  have hcredentials := fun {w} => mem_toList_hosted? (c := c) (w := w) hm.toFiled
    (Names.kubeconfigWork_ne_empty c.nameText)
  have hapart {xs ys : List ManifestWork} (h : ∀ x ∈ xs, ∀ y ∈ ys, x.nameText ≠ y.nameText) :
      ∀ k ∈ xs.map ManifestWork.key, ∀ k' ∈ ys.map ManifestWork.key, k ≠ k' := by
    intro k hk k' hk' he
    obtain ⟨x, hx, rfl⟩ := List.mem_map.mp hk
    obtain ⟨y, hy, rfl⟩ := List.mem_map.mp hk'
    exact h x hx y hy (congrArg ObjectKey.name he)
  unfold ClusterWorks.inOrder
  rw [List.map_append, List.nodup_append]
  refine ⟨?_, hsingle _, hapart fun x hx y hy => ?_⟩
  · rw [List.map_append, List.nodup_append]
    refine ⟨(nodup_hosted hm.toFiled).sublist (List.filter_sublist.map _), hsingle _,
      hapart fun x hx y hy => ?_⟩
    rw [(hagent.mp hy).2]
    exact ((mem_others_iff hm).mp hx).2.1
  · rw [(hcredentials.mp hy).2]
    rcases List.mem_append.mp hx with hx | hx
    · exact ((mem_others_iff hm).mp hx).2.2
    · rw [(hagent.mp hx).2]
      exact Names.klusterletWork_ne_kubeconfigWork _ _

/-- The key under which an own work is deleted. -/
def ownKey (c : ManagedCluster) (w : ManifestWork) : ObjectKey := ⟨c.nameText, w.nameText⟩

theorem map_ownKey (hm : m.Filed) :
    (m.worksOf c).own.map (ownKey c) = (m.worksOf c).own.map ManifestWork.key :=
  List.map_congr_left fun _ hw => (nspace_of_mem_own hm hw).2.symm

theorem swept_of_takenAll (hm : m.Named) (hne : c.hosting? ≠ some c.nameText)
    {m₁ m₂ m₃ : Memory} (h₁ : Spared m m₁)
    (hown : TakenAll (ownKey c) (fun _ => none) (fun w => some (ownKey c w))
      (m.worksOf c).own m₁ m₂)
    (hhosted : TakenAll ManifestWork.key (afterForce t) forced?
      ((m.worksOf c).inOrder c.nameText) m₂ m₃) : Swept t c m m₃ := by
  have helsewhere (w : ManifestWork) (hw : w ∈ (m.worksOf c).hosted) :
      w.key.nspace ≠ c.nameText :=
    fun he => hne (he ▸ (nspace_of_mem_hosted hm.toFiled hw).2)
  refine ⟨hhosted.quiet, fun k hk => ?_, fun w hw => ?_, fun k hk hnot => ?_, ?_⟩
  · rw [hhosted.others k fun w hw he => helsewhere w ((mem_inOrder_iff hm).mp hw) (he ▸ hk)]
    by_cases hlisted : ∃ w ∈ (m.worksOf c).own, ownKey c w = k
    · obtain ⟨w, hw, rfl⟩ := hlisted
      exact hown.left w hw
    · have hlisted (w : ManifestWork) (hw : w ∈ (m.worksOf c).own) : ownKey c w ≠ k :=
        fun he => hlisted ⟨w, hw, he⟩
      rw [hown.others k hlisted, h₁.works]
      cases hw : m.works.get? k with
      | none => rfl
      | some w =>
        have hmem : w ∈ (m.worksOf c).own := Hub.Memory.mem_own_iff.mpr ⟨k, hw, hk⟩
        refine absurd ?_ (hlisted w hmem)
        rw [← hm.works k w hw]
        exact (nspace_of_mem_own hm.toFiled hmem).2.symm
  · exact hhosted.left w ((mem_inOrder_iff hm).mpr hw)
  · rw [hhosted.others k fun w hw => hnot w ((mem_inOrder_iff hm).mp hw), hown.others k ?_,
      h₁.works]
    rintro w - rfl
    exact hk rfl
  · have hkeys : (m.worksOf c).own.filterMap (fun w => some (ownKey c w)) =
        (m.worksOf c).own.map ManifestWork.key := by
      rw [← map_ownKey hm.toFiled, ← List.filterMap_eq_map]
      rfl
    rw [hhosted.deletions, hown.deletions, h₁.deletions, hkeys, List.append_assoc]

/-! ## The deletion -/

theorem deleteByForce_swept (hm : m.Named) (hq : m.Quiet)
    (hc : m.clusters.get? c.nameText = some c) (hne : c.hosting? ≠ some c.nameText) :
    Meets t Anything (Yields fun _ m' => Swept t c m m' ∧ There c m')
      (deleteByForce ctx c (m.worksOf c)) m := by
  have hnamed : c.metadata.IsNamed := hm.clusterNames _ c hc
  unfold deleteByForce
  rw [ManagedCluster.anyName_eq hnamed]
  refine meets_bind_yields.mpr
    ((setConditions_spared hq hnamed hc _).yields_imp fun _ m₁ ⟨h₁, hc₁⟩ => ?_)
  have hown : ((m.worksOf c).own.map (ownKey c)).Nodup :=
    map_ownKey hm.toFiled ▸ Hub.Memory.nodup_worksIn hm.toFiled _ _
  refine meets_bind_yields.mpr
    ((takenAll_forM (fun _ => none) (fun w => some (ownKey c w)) hown h₁.quiet
      fun w hw m' hq' hsame => ?_).yields_imp fun _ m₂ h₂ => ?_)
  · rw [ManifestWork.anyName_eq (hm.own hw)]
    refine forceWork_taken hq' (w := w) (hsame.trans ?_)
    show m₁.works.get? ⟨c.nameText, w.nameText⟩ = some w
    rw [h₁.works, ← (nspace_of_mem_own hm.toFiled hw).2]
    exact (nspace_of_mem_own hm.toFiled hw).1
  refine meets_bind_yields.mpr
    ((takenAll_forM (afterForce t) forced? (nodup_inOrder hm) h₂.quiet
      fun w hw m' hq' hsame => ?_).yields_imp fun _ m₃ h₃ => ?_)
  · have hlisted := (mem_inOrder_iff hm).mp hw
    obtain ⟨hstored, hspace⟩ := nspace_of_mem_hosted hm.toFiled hlisted
    refine deleteHosted_taken hq' (hm.hosted hlisted) (hsame.trans ?_)
    rw [h₂.others w.key fun v _ he => hne ?_, h₁.works, hstored]
    rw [hspace, ← he]
    rfl
  · have hswept := swept_of_takenAll hm hne h₁ h₂ h₃
    refine (publish_spared h₃.quiet _).yields_imp fun _ m₄ ⟨h₄, hc₄⟩ => ⟨hswept.spared h₄, ?_⟩
    have hclusters : m₄.clusters = m₁.clusters :=
      hc₄.trans (h₃.clusters.trans h₂.clusters)
    unfold There
    rw [hclusters]
    exact hc₁

/-- A deletion by force, from the first look at the finalizer on. -/
theorem deletion_swept (hm : m.Named) (hq : m.Quiet)
    (hc : m.clusters.get? c.nameText = some c) (hdel : c.isDeleting = true)
    (hne : c.hosting? ≠ some c.nameText)
    (hforce : c.needsForce ctx.now ctx.settings.silenceTimeout = true) :
    Meets t Anything (Yields fun _ => Swept t c m) (do
      syncFinalizer ctx c (m.worksOf c).total
      deletion ctx c (m.worksOf c)) m := by
  have hnamed : c.metadata.IsNamed := hm.clusterNames _ c hc
  refine meets_bind_yields.mpr
    ((syncFinalizer_spared hq hnamed ⟨c, hc, rfl, rfl⟩ hdel _).yields_imp
      fun _ m₁ ⟨h₁, hsame⟩ => ?_)
  unfold deletion
  by_cases hempty : (m.worksOf c).isEmpty = true
  · rw [if_pos hempty]
    obtain ⟨hown, hhosted⟩ := ClusterWorks.isEmpty_iff.mp hempty
    have hinOrder : (m.worksOf c).inOrder c.nameText = [] :=
      List.eq_nil_iff_forall_not_mem.mpr fun w hw => by
        rw [mem_inOrder_iff hm, hhosted] at hw
        cases hw
    exact meets_pure.mpr (swept_of_takenAll hm hne h₁ (hown ▸ TakenAll.nil h₁.quiet)
      (hinOrder ▸ TakenAll.nil h₁.quiet))
  · have hsome : (m.worksOf c).total ≠ 0 := fun hnone => hempty (beq_iff_eq.mpr hnone)
    obtain rfl := hsame hsome
    rw [if_neg hempty, if_pos hforce]
    refine meets_bind_yields.mpr
      ((deleteByForce_swept hm hq hc hne).yields_imp fun _ m₂ ⟨h₂, hc₂⟩ => ?_)
    refine meets_bind_yields.mpr (listWorks_meets (fun _ _ _ => trivial) hnamed
      (fun _ _ _ _ => trivial) ?_)
    refine meets_bind_yields.mpr
      ((syncFinalizer_spared h₂.quiet hnamed hc₂ hdel _).yields_imp fun _ m₃ ⟨h₃, _⟩ => ?_)
    exact meets_pure.mpr (h₂.spared h₃)

end Pass
end Hosting
