import Hosting.Proofs.Run

/-!
# When a deleting cluster is let go

The finalizer is what keeps a deleting cluster on the hub.  `release_agrees` says that the
outcome of a pass, the finalizers and the works that are left never tell different things,
although works vanish or linger while the pass goes on and any of its steps can fail.
-/

namespace Hosting
namespace Release

open Hub (Memory)
open Pass Sample

variable {name : String} {ctx : Context} {c : ManagedCluster} {m m' : Memory}

/-- The finalizer is not on the cluster, if the hub still has it. -/
def Free (c : ManagedCluster) (m' : Memory) : Prop :=
  ∀ d, m'.clusters.get? c.nameText = some d → d.isHeld = false

/-- A pass over the deleting cluster `c` that ended with `r` in the state `m'` is of one mind
about it. -/
structure Agrees (requeue : Nat) (c : ManagedCluster) (r : Except Failure Outcome)
    (m' : Memory) : Prop where
  done_iff : ∀ o, r = .ok o → (o = .done ↔ (m'.worksOf c).isEmpty = true)
  done : r = .ok .done → Free c m'
  again : ∀ o, r = .ok o → o ≠ .done → o = .again requeue ∧
    ∃ d, m'.clusters.get? c.nameText = some d ∧ d.metadata.finalizers = c.metadata.finalizers
  /-- The finalizer is only taken off when no work is left, -/
  released : c.isHeld = true → Free c m' → (m'.worksOf c).isEmpty = true
  /-- and nothing else is done to the finalizers. -/
  finalizers : ∀ d, m'.clusters.get? c.nameText = some d →
    d.metadata.finalizers = c.metadata.finalizers ∨
      d.metadata.finalizers = Finalizers.released c.metadata.finalizers
  gone : m'.clusters.get? c.nameText = none → Finalizers.others c.metadata.finalizers = []

theorem free_of_letGo (h : LetGo c m') : Free c m' := by
  intro d hd
  cases h with
  | kept stored _ off =>
    rw [hd, Option.some.injEq] at stored
    rw [stored]
    show Finalizers.holds _ = false
    rw [off, Finalizers.holds_released]
  | gone stored =>
    rw [hd] at stored
    cases stored

theorem agrees_of_detached {requeue : Nat} {r : Except Failure Outcome}
    (h : Detached requeue c m r m') : Agrees requeue c r m' where
  done_iff o ho := by
    have houtcome := h.outcome o ho
    split at houtcome
    · next hempty => exact iff_of_true houtcome.1 hempty
    · next hsome =>
      refine iff_of_false (fun hdone => ?_) hsome
      rw [hdone] at houtcome
      cases houtcome.1
  done ho := by
    have houtcome := h.outcome _ ho
    split at houtcome
    · exact free_of_letGo houtcome.2
    · cases houtcome.1
  again o ho hne := by
    have houtcome := h.outcome o ho
    split at houtcome
    · exact absurd houtcome.1 hne
    · obtain ⟨hagain, d, hd, -, hsame⟩ := houtcome
      exact ⟨hagain, d, hd, hsame⟩
  released hheld hfree := by
    rcases h.cluster with ⟨d, hd, -, hsame⟩ | ⟨hnone, -⟩
    · have hoff := hfree d hd
      rw [ManagedCluster.isHeld_congr hsame, hheld] at hoff
      cases hoff
    · exact beq_iff_eq.mpr hnone
  finalizers d hd := by
    rcases h.cluster with ⟨d', hd', -, hsame⟩ | ⟨-, hletGo⟩
    · rw [hd, Option.some.injEq] at hd'
      exact Or.inl (hd' ▸ hsame)
    · cases hletGo with
      | kept stored _ off =>
        rw [hd, Option.some.injEq] at stored
        exact Or.inr (stored ▸ off)
      | gone stored =>
        rw [hd] at stored
        cases stored
  gone hnone := by
    rcases h.cluster with ⟨d, hd, -⟩ | ⟨-, hletGo⟩
    · rw [hnone] at hd
      cases hd
    · cases hletGo with
      | kept stored =>
        rw [hnone] at stored
        cases stored
      | gone _ others => exact others

/-- Whatever the hub holds and however a pass over a deleting cluster ends: it is done
exactly when no work is left, which is also when the finalizer goes. -/
theorem release_agrees (hm : m.Named) (hc : m.clusters.get? name = some c)
    (hhosted : c.isHosted = true) (hdel : c.isDeleting = true) (ctx : Context) :
    Agrees ctx.settings.deletionRequeue c (Run.outcome ctx name m) (Run.afterPass ctx name m) := by
  exact agrees_of_detached ((Run.passed hm ctx name).detached_of_stored hm hc hhosted hdel)

/-- A deleting cluster of which one work lingers. -/
def lingering : Memory := Run.after "c" [
  .change (.cluster (deleting (held (hosted "c" "h")))), .change (.work (work "c" "w"))] {}

theorem release_agrees_of_lingering :
    (Run.outcome { now := now } "c" lingering).toOption = some (.again 2) ∧
      ∃ c, lingering.clusters.get? "c" = some c ∧ c.isHeld = true ∧
        Agrees 2 c (Run.outcome { now := now } "c" lingering)
          (Run.afterPass { now := now } "c" lingering) := by
  have h : (Run.outcome { now := now } "c" lingering).toOption = some (.again 2) ∧
      (lingering.clusters.get? "c").any
        (fun c => c.isHosted && c.isDeleting && c.isHeld) = true := by decide +kernel
  obtain ⟨c, hc, hfacts⟩ := (Option.any_eq_true _ _).mp h.2
  simp only [Bool.and_eq_true] at hfacts
  have hnamed : lingering.Named := Run.named_after _ Hub.Memory.named_empty (by decide +kernel)
  refine ⟨h.1, c, hc, hfacts.2, ?_⟩
  exact release_agrees hnamed hc hfacts.1.1 hfacts.1.2 { now := now }

end Release
end Hosting
