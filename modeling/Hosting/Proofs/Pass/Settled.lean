import Hosting.Proofs.Pass.Import
import Hosting.Reconcile

/-!
# When there is nothing left to do

`Settled` says of a live cluster that all is as its plan wants it.  A pass over such a
cluster looks things up and does nothing else: every step sees the works, the conditions and
the finalizer as it would leave them (`reconcile_settled`).
-/

namespace Hosting
namespace Pass

open Hub (Request Memory Open)
open Hub.Memory (Alike Within)

variable {t : Instant} {allowed : Request → Memory → Prop} {ctx : Context}
  {c d : ManagedCluster} {m : Memory}

/-! ## Steps that find their work done -/

theorem setConditions_eq_pure {new : List Condition} (h : ∀ x ∈ new, shows c x = true) :
    setConditions ctx c new = pure () := by
  unfold setConditions
  exact if_pos (List.all_eq_true.mpr h)

theorem syncFinalizer_eq_pure {works : Nat} (h : c.isHeld = decide (works ≠ 0)) :
    syncFinalizer ctx c works = pure () := by
  unfold syncFinalizer
  show (if works = 0 then if c.isHeld then _ else pure ()
    else if !c.isHeld && !c.isDeleting then _ else pure () : Pass Unit) = pure ()
  rw [h]
  by_cases hw : works = 0
  · simp [hw]
  · simp [hw]

theorem applyWork_fulfilled (ho : Open allowed) {desired w : ManifestWork}
    (hnamed : desired.metadata.IsNamed) (hw : m.works.get? desired.key = some w)
    (hful : w.fulfils desired = true) {post : Except Failure ManifestWork → Memory → Prop}
    (hok : post (.ok w) m) :
    Meets t allowed post (applyWork c desired) m := by
  unfold applyWork
  rw [ManifestWork.anyKey_eq hnamed]
  refine meets_bind.mpr (getWork_meets ho hw ?_)
  dsimp only [Next]
  rw [if_pos hful]
  exact hok

theorem consume_eq_pure {s : Secret} (h : s.isKept = true) : consume c s = pure () := by
  unfold consume
  exact if_pos h

/-! ## The whole pass -/

/-- The live cluster `c` is stored with its finalizer as its works ask for, and all of its
plan has been carried out. -/
structure Settled (c : ManagedCluster) (m : Memory) : Prop where
  named : c.metadata.IsNamed
  stored : m.clusters.get? c.nameText = some c
  hosted : c.isHosted = true
  live : c.isDeleting = false
  held : c.isHeld = decide ((m.worksOf c).total ≠ 0)
  reached : ∃ p, Reached m c c p ∧ p.consumes = false

theorem shows_of_reached {p : Plan} (h : Reached m c d p) {new : List Condition}
    (hwords : p.words = new.map Condition.entry) : ∀ x ∈ new, shows d x = true := by
  intro x hx
  refine Conditions.head?_said_iff.mp (h.words x.entry ?_)
  rw [hwords]
  exact List.mem_map_of_mem hx

/-- The pass is at its end, and the hub is as it was. -/
def Untouched {α : Type} (a : α) (m : Memory) (r : Except Failure α) (m' : Memory) : Prop :=
  r = .ok a ∧ m' = m

theorem setConditions_untouched {new : List Condition} {p : Plan} (h : Reached m c c p)
    (hwords : p.words = new.map Condition.entry) :
    Meets t allowed (Untouched () m) (setConditions ctx c new) m := by
  rw [setConditions_eq_pure (shows_of_reached h hwords)]
  exact ⟨rfl, rfl⟩

theorem handOver_untouched (ho : Open allowed) (hnamed : c.metadata.IsNamed) {hosting : String}
    {agent w : ManifestWork} {s : Secret} {p : Plan} (hplaced : Placed c hosting agent w m)
    (hs : m.secrets.get? (autoImportKey c) = some s) (havailable : w.isAvailable = true)
    (h : Reached m c c p) (hkept : p.consumes = false) :
    Meets t allowed (Untouched () m) (handOver ctx c hosting (w.isReadyToApply c.nameText) s)
      m := by
  obtain ⟨handed, hhanded⟩ := hplaced.kubeconfig_of_plan? hs havailable h.plan
  have hp := h.plan
  rw [hplaced.plan?_handOver hs havailable hhanded, Option.some.injEq] at hp
  obtain ⟨v, hv, hful⟩ := h.works handed (hp ▸ List.mem_cons_of_mem _ List.mem_cons_self)
  have hskept : s.isKept = true := by
    rw [← hp] at hkept
    exact (Bool.not_eq_false' _).mp hkept
  unfold handOver
  rw [ManagedCluster.anyName_eq hnamed, hhanded]
  refine meets_bind.mpr (meets_attempt.mpr
    (applyWork_fulfilled ho (HostedWork.isOwn_of_kubeconfig hhanded).named hv hful ?_))
  refine meets_bind.mpr ((setConditions_untouched h ?_).imp (fun _ _ hq => hq) ?_)
  · rw [← hp]
    exact words_handOver _ _ _ _ _
  · rintro _ _ ⟨rfl, rfl⟩
    dsimp only [Next]
    rw [consume_eq_pure hskept]
    exact ⟨rfl, rfl⟩

theorem bringAgent_untouched (ho : Open allowed) (hn : ',' ∉ c.nameText.toList) (hm : m.Filed)
    (h : Settled c m) {hosting : String} {payload : Bytes}
    (hdemand : m.demand c = .agent hosting payload) :
    Meets t allowed (Untouched () m) (bringAgent ctx c (m.worksOf c) hosting payload) m := by
  obtain ⟨p, hreached, hkept⟩ := h.reached
  obtain ⟨agent, hagent⟩ := Hub.Memory.klusterlet_of_plan? hdemand hreached.plan
  obtain ⟨w, hw, hful⟩ :=
    hreached.works agent (Hub.Memory.mem_works_of_plan? hdemand hagent hreached.plan)
  have hplaced : Placed c hosting agent w m :=
    ⟨⟨payload, hdemand, hagent⟩, HostedWork.key_klusterlet hagent ▸ hw, hful⟩
  have hheld : c.isHeld = decide (1 ≠ 0) := by
    rw [h.held, decide_eq_true Nat.one_ne_zero, decide_eq_true_iff]
    intro hnone
    exact (Hub.Memory.worksOf_eq_empty_iff hn).mp hnone hplaced.holdsWork
  have hp := hreached.plan
  unfold bringAgent
  rw [ManagedCluster.anyName_eq h.named, hagent]
  refine meets_bind.mpr (meets_attempt.mpr
    (applyWork_fulfilled ho (HostedWork.isOwn_of_klusterlet hagent).named hw hful ?_))
  dsimp only [Next]
  rw [syncFinalizer_eq_pure hheld, pure_bind]
  cases hs : m.secrets.get? (autoImportKey c) with
  | none =>
    refine meets_bind.mpr (getSecret_meets ho hs ?_)
    rw [hplaced.plan?_without hs, Option.some.injEq] at hp
    refine setConditions_untouched hreached ?_
    rw [← hp]
    exact words_bring_withoutSecret (Hub.Memory.hasHosted_credentials hn hm hplaced.hosting?)
  | some s =>
    refine meets_bind.mpr (getSecret_meets ho hs ?_)
    dsimp only [Next]
    cases havailable : w.isAvailable with
    | true =>
      rw [if_pos rfl]
      exact handOver_untouched ho h.named hplaced hs havailable hreached hkept
    | false =>
      rw [if_neg Bool.false_ne_true]
      rw [hplaced.plan?_waiting hs havailable, Option.some.injEq] at hp
      refine setConditions_untouched hreached ?_
      rw [← hp]
      rfl

theorem importCluster_untouched (ho : Open allowed) (hn : ',' ∉ c.nameText.toList) (hm : m.Filed)
    (h : Settled c m) :
    Meets t allowed (Untouched () m) (importCluster ctx c (m.worksOf c)) m := by
  refine importCluster_cases ho h.named (fun reason message hdemand => ?_)
    fun hosting payload hdemand => ?_
  · obtain ⟨p, hreached, -⟩ := h.reached
    have hp := hreached.plan
    unfold Hub.Memory.plan? at hp
    rw [hdemand] at hp
    refine setConditions_untouched hreached ?_
    rw [← Option.some.inj hp]
    rfl
  · exact bringAgent_untouched ho hn hm h hdemand

/-- A pass over a settled cluster only looks things up. -/
theorem reconcile_settled (ho : Open allowed) (hn : ',' ∉ c.nameText.toList) (hm : m.Filed)
    (hquiet : m.failures.get? .listWorks = none) (h : Settled c m) :
    Meets t allowed (Untouched .done m) (reconcile ctx c.nameText) m := by
  unfold reconcile
  refine meets_bind.mpr (getCluster_meets ho h.stored ?_)
  dsimp only [Next]
  rw [if_pos h.hosted]
  refine meets_bind.mpr (listWorks_meets ho h.named (fun hf => absurd hquiet hf) ?_)
  dsimp only [Next]
  rw [syncFinalizer_eq_pure h.held, pure_bind, if_neg (Bool.eq_false_iff.mp h.live)]
  refine meets_bind.mpr ((importCluster_untouched ho hn hm h).imp (fun _ _ hq => hq) ?_)
  rintro _ _ ⟨rfl, rfl⟩
  exact ⟨rfl, rfl⟩

end Pass
end Hosting
