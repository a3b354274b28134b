import Hosting.Proofs.Pass.Deletion
import Hosting.Proofs.Pass.Import
import Hosting.Reconcile

/-!
# What a pass comes to

A pass over a cluster that is gone or not hosted does nothing; over a live one it is an
import, over a deleting one a deletion.
-/

namespace Hosting

open Hub (Request Memory Lenient)
open Hub.Memory (Alike Within)
open Pass

variable {t : Instant} {allowed : Request → Memory → Prop} {ctx : Context} {name : String}
  {m : Memory}

theorem reconcile_meets (hl : Lenient allowed) (hm : m.Named)
    {post : Except Failure Outcome → Memory → Prop}
    (hfail : ∀ f m', Alike m m' → post (.error f) m')
    (hidle : (∀ c, m.clusters.get? name = some c → c.isHosted = false) → post (.ok .done) m)
    (hlive : ∀ c, m.clusters.get? name = some c → c.nameText = name → c.isHosted = true →
      c.isDeleting = false → ∀ r m', Imported c (decide ((m.worksOf c).total ≠ 0)) m r m' →
        post (r.map fun _ => .done) m')
    (hdeleting : ∀ c, m.clusters.get? name = some c → c.nameText = name → c.isHosted = true →
      c.isDeleting = true → Meets t allowed post (do
        syncFinalizer ctx c (m.worksOf c).total
        deletion ctx c (m.worksOf c)) m) :
    Meets t allowed post (reconcile ctx name) m := by
  unfold reconcile
  refine meets_bind.mpr (getCluster_meets hl.reads rfl ?_)
  dsimp only [Next]
  cases hc : m.clusters.get? name with
  | none => exact hidle fun c h => by rw [hc] at h; cases h
  | some c =>
    have hname : c.nameText = name := hm.clusters name c hc
    have hnamed : c.metadata.IsNamed := hm.clusterNames name c hc
    have hstored : m.clusters.get? c.nameText = some c := hname.symm ▸ hc
    dsimp only
    cases hhosted : c.isHosted with
    | false =>
      exact hidle fun d hd => by rw [hc, Option.some.injEq] at hd; rw [← hd, hhosted]
    | true =>
      rw [if_pos rfl]
      refine meets_bind.mpr (listWorks_meets hl.reads hnamed (fun _ => hfail) ?_)
      dsimp only [Next]
      cases hdel : c.isDeleting with
      | true =>
        simp only [if_true]
        exact hdeleting c hc hname hhosted hdel
      | false =>
        simp only [Bool.false_eq_true, if_false]
        refine meets_bind.mpr (syncFinalizer_live_meets hl.lax hnamed hstored rfl hdel hfail ?_)
        intro d m₁ hwithin hd hsync
        have hunderway :=
          (Underway.refl hnamed hstored (.refl c)).synced (fun _ => Iff.rfl) hwithin hd hsync
        have hheld : d.isHeld = decide ((m.worksOf c).total ≠ 0) := by
          rw [hsync.held, heldAfter]
          by_cases h0 : (m.worksOf c).total = 0 <;> simp [h0]
        have hm₁ : m₁.Filed :=
          hm.toFiled.of_within hwithin hd (ManagedCluster.nameText_of_bare hsync.bare)
        have hworks : m₁.worksOf c = m.worksOf c :=
          Hub.Memory.worksOf_congr (hwithin.works_eq fun _ => id) c
        rw [← hworks]
        refine meets_bind.mpr ((importCluster_meets hl hm₁
          (.refl hnamed hd hunderway.faithful.tended) hsync.status hdel
          fun h => ?_).imp (fun _ _ hq => hq) fun r m' hr => ?_)
        · rw [hheld, ← hworks] at h
          exact of_decide_eq_true h
        · rw [hheld] at hr
          have hr := hlive c hc hname hhosted hdel r m' (hr.from_earlier hunderway hwithin)
          cases r <;> exact hr

/-! ## All the ends of a pass -/

/-- The ends of a pass over the cluster `name` that began in the state `m`. -/
inductive Passed (ctx : Context) (name : String) (m : Memory) :
    Except Failure Outcome → Memory → Prop where
  /-- The hub refused to be read or to be brought in step. -/
  | refused {f : Failure} {m' : Memory} (same : Alike m m') : Passed ctx name m (.error f) m'
  /-- The cluster is gone, or not hosted. -/
  | idle (none : ∀ c, m.clusters.get? name = some c → c.isHosted = false) :
    Passed ctx name m (.ok .done) m
  | imported {c : ManagedCluster} {r : Except Failure Unit} {m' : Memory}
    (stored : m.clusters.get? c.nameText = some c) (named : c.nameText = name)
    (hosted : c.isHosted = true) (live : c.isDeleting = false)
    (ends : Imported c (decide ((m.worksOf c).total ≠ 0)) m r m') :
    Passed ctx name m (r.map fun _ => .done) m'
  | detached {c : ManagedCluster} {r : Except Failure Outcome} {m' : Memory}
    (stored : m.clusters.get? c.nameText = some c) (named : c.nameText = name)
    (hosted : c.isHosted = true) (deleting : c.isDeleting = true)
    (ends : Detached ctx.settings.deletionRequeue c m r m') : Passed ctx name m r m'

theorem reconcile_passes (hm : m.Named) :
    Meets t (fun _ _ => True) (Passed ctx name m) (reconcile ctx name) m := by
  refine reconcile_meets (fun _ _ _ => trivial) hm (fun _ _ => Passed.refused) Passed.idle
    (fun c hc hname hhosted hlive r m' hr => ?_) fun c hc hname hhosted hdel => ?_
  · exact Passed.imported (hname.symm ▸ hc) hname hhosted hlive hr
  · have hstored : m.clusters.get? c.nameText = some c := hname.symm ▸ hc
    refine (deletion_meets (fun _ _ _ => trivial) hm hstored hdel (fun _ _ _ => trivial)
      (fun _ _ _ => trivial) fun _ _ _ => trivial).imp (fun _ _ hq => hq) fun r m' hr => ?_
    exact Passed.detached hstored hname hhosted hdel hr

namespace Passed

variable {c : ManagedCluster} {r : Except Failure Outcome} {m' : Memory}

/-- A pass over a deleting cluster is a deletion, also when it is refused. -/
theorem detached_of_stored (hm : m.Named) (h : Passed ctx name m r m')
    (hc : m.clusters.get? name = some c) (hhosted : c.isHosted = true)
    (hdel : c.isDeleting = true) : Detached ctx.settings.deletionRequeue c m r m' := by
  have hname : c.nameText = name := hm.clusters name c hc
  have hstored : m.clusters.get? c.nameText = some c := hname.symm ▸ hc
  cases h with
  | refused same => exact ((Detaching.refl (hm.clusterNames name c hc) hstored).alike same).failed
  | idle none =>
    rw [none c hc] at hhosted
    cases hhosted
  | imported stored named _ live =>
    rw [named, hc, Option.some.injEq] at stored
    rw [← stored, hdel] at live
    cases live
  | detached stored named _ _ ends =>
    rw [named, hc, Option.some.injEq] at stored
    rw [stored]
    exact ends

/-- A pass over a live cluster is an import, also when it is refused. -/
theorem imported_of_stored (hm : m.Named) (h : Passed ctx name m r m')
    (hc : m.clusters.get? name = some c) (hhosted : c.isHosted = true)
    (hlive : c.isDeleting = false) :
    ∃ r', r = r'.map (fun _ => .done) ∧
      Imported c (decide ((m.worksOf c).total ≠ 0)) m r' m' := by
  have hname : c.nameText = name := hm.clusters name c hc
  have hstored : m.clusters.get? c.nameText = some c := hname.symm ▸ hc
  cases h with
  | refused same =>
    exact ⟨.error _, rfl, Imported.failed
      ((Underway.refl (hm.clusterNames name c hc) hstored (.refl c)).alike same)⟩
  | idle none =>
    rw [none c hc] at hhosted
    cases hhosted
  | imported stored named _ _ ends =>
    rw [named, hc, Option.some.injEq] at stored
    rw [stored]
    exact ⟨_, rfl, ends⟩
  | detached stored named _ deleting =>
    rw [named, hc, Option.some.injEq] at stored
    rw [← stored, hlive] at deleting
    cases deleting

/-- What the pass leaves of the cluster is the one that it found, tended. -/
theorem tended_of_stored (h : Passed ctx name m r m') {d : ManagedCluster}
    (hd : m'.clusters.get? name = some d) : ∃ c, m.clusters.get? name = some c ∧ c.Tended d := by
  cases h with
  | refused same => exact ⟨d, same.clusters ▸ hd, .refl d⟩
  | idle none => exact ⟨d, hd, .refl d⟩
  | imported stored named _ _ ends =>
    subst named
    obtain ⟨d', hd', hfaithful⟩ := ends.faithful
    rw [hd, Option.some.injEq] at hd'
    exact ⟨_, stored, hd' ▸ hfaithful.tended⟩
  | detached stored named _ _ ends =>
    subst named
    refine ⟨_, stored, ?_⟩
    rcases ends.cluster with ⟨d', hd', htended, -⟩ | ⟨-, hletGo⟩
    · rw [hd, Option.some.injEq] at hd'
      exact hd' ▸ htended
    · cases hletGo with
      | kept kept tended =>
        rw [hd, Option.some.injEq] at kept
        exact kept ▸ tended
      | gone gone =>
        rw [hd] at gone
        cases gone

/-- What the pass leaves of the hub goes by its names as before. -/
theorem named (h : Passed ctx name m r m') (hm : m.Named) (hm' : m'.Filed) : m'.Named := by
  refine ⟨hm', fun k d hd => ?_, fun k w hw => ?_⟩
  · by_cases hk : k = name
    · subst hk
      obtain ⟨c, hc, htended⟩ := h.tended_of_stored hd
      exact (ManagedCluster.isNamed_of_bare htended.bare).mpr (hm.clusterNames k c hc)
    · refine hm.clusterNames k d ?_
      cases h with
      | refused same => exact same.clusters ▸ hd
      | idle none => exact hd
      | imported stored named _ _ ends =>
        exact (ends.within.clusters k fun he => hk (he.trans named)).symm.trans hd
      | detached stored named _ _ ends =>
        exact (ends.within.clusters k fun he => hk (he.trans named)).symm.trans hd
  · by_cases hk : k.name = ""
    · cases h with
      | refused same => exact hm.workNames k w (same.works ▸ hw)
      | idle none => exact hm.workNames k w hw
      | imported stored named _ _ ends =>
        -- the works of an import have names that are not empty
        refine hm.workNames k w ((ends.within.works k fun hin => ?_).symm.trans hw)
        rcases hin.2 with he | he
        · exact Names.klusterletWork_ne_empty _ (he.symm.trans hk)
        · exact Names.kubeconfigWork_ne_empty _ (he.symm.trans hk)
      | detached stored named _ _ ends =>
        obtain ⟨v, hv, hleaves⟩ := ends.sheds k w hw
        exact hleaves.isNamed.mpr (hm.workNames k v hv)
    · have hkey : w.key = k := hm'.works k w hw
      exact Metadata.isNamed_of_nameText_ne fun he => hk (hkey ▸ he)

end Passed
end Hosting
