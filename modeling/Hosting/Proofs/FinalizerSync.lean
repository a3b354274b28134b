import Hosting.Proofs.Run

/-!
# Whether the finalizer is on a live cluster

The finalizer is to be on a cluster exactly when the cluster has works.  A pass brings it in
step twice, at first and after the agent's work is brought, but both times it goes by the
copy that it read at first.  `held_after_pass` says what comes of it: the finalizer is
missing after a pass that found it on a cluster without works and brought the first of them.
-/

namespace Hosting
namespace FinalizerSync

open Hub (Memory)
open Pass Sample

variable {name : String} {ctx : Context} {c : ManagedCluster} {m : Memory} {o : Outcome}

/-- The finalizer was taken off at first, and is not put back for the works that are there
now. -/
def Dropped (c : ManagedCluster) (m m' : Memory) : Prop :=
  c.isHeld = true ∧ ¬m.HoldsWork c ∧ m'.HoldsWork c

/-- How the finalizer and the works of a live cluster stand after a pass. -/
structure InStep (c : ManagedCluster) (m m' : Memory) (d : ManagedCluster) : Prop where
  stored : m'.clusters.get? c.nameText = some d
  bare : d.bare = c.bare
  held : d.isHeld = true ↔ m'.HoldsWork d ∧ ¬Dropped c m m'

theorem inStep_of_brought {m' : Memory} {d : ManagedCluster}
    (hstored : m'.clusters.get? c.nameText = some d) (hbare : d.bare = c.bare)
    (hworks : m'.HoldsWork c) {works : Nat} (hnone : works = 0 ↔ ¬m.HoldsWork c)
    (hsync : d.isHeld = heldAfter c.isHeld 1 (decide (works ≠ 0))) : InStep c m m' d := by
  refine ⟨hstored, hbare, ?_⟩
  rw [Hub.Memory.holdsWork_congr rfl hbare, hsync, heldAfter, if_neg Nat.one_ne_zero]
  unfold Dropped
  cases hc : c.isHeld with
  | false => simp [hworks]
  | true => simp [hworks, hnone]

theorem inStep_of_imported (hn : ',' ∉ c.nameText.toList) {m' : Memory}
    (h : Imported c (decide ((m.worksOf c).total ≠ 0)) m (.ok ()) m') : ∃ d, InStep c m m' d := by
  have hnone := Hub.Memory.worksOf_eq_empty_iff (m := m) (c := c) hn
  cases h with
  | @waiting d _ hu works sync =>
    refine ⟨d, hu.stored, hu.bare, ?_⟩
    have hsame : m'.HoldsWork c ↔ m.HoldsWork c := Hub.Memory.holdsWork_congr works rfl
    rw [Hub.Memory.holdsWork_congr rfl hu.bare, sync, decide_eq_true_iff, ne_eq, hnone,
      Classical.not_not]
    constructor
    · intro hbefore
      exact ⟨hsame.mpr hbefore, fun hdropped => hdropped.2.1 hbefore⟩
    · intro h
      exact hsame.mp h.1
  | brought hu works sync => exact ⟨_, inStep_of_brought hu.stored hu.bare works hnone sync⟩
  | handedOver _ stored bare _ _ _ _ works sync =>
    exact ⟨_, inStep_of_brought stored bare works hnone sync⟩

/-- After a pass over a live cluster that does not fail, the finalizer is on the cluster
exactly when it has works, but for one case: a pass that found it there without works, and
brought some. -/
theorem held_after_pass (hn : ',' ∉ name.toList) (hm : m.Named)
    (hc : m.clusters.get? name = some c) (hhosted : c.isHosted = true)
    (hlive : c.isDeleting = false) (hok : Run.outcome ctx name m = .ok o) :
    ∃ d, (Run.afterPass ctx name m).clusters.get? name = some d ∧ d.bare = c.bare ∧
      ((d.isHeld = true ↔ (Run.afterPass ctx name m).HoldsWork d) ↔
        ¬Dropped c m (Run.afterPass ctx name m)) := by
  have hname := hm.clusters name c hc
  have hstep : ∃ d, InStep c m (Run.afterPass ctx name m) d := by
    have hpassed := Run.passed hm ctx name
    rw [hok] at hpassed
    generalize Run.afterPass ctx name m = m' at hpassed
    subst hname
    generalize hr : (Except.ok o : Except Failure Outcome) = r at hpassed
    cases hpassed with
    | refused => cases hr
    | idle hidle =>
      rw [hidle c hc] at hhosted
      cases hhosted
    | @imported c' r _ stored named _ _ ends =>
      rw [named, hc, Option.some.injEq] at stored
      subst stored
      cases r with
      | error f => cases hr
      | ok u => exact inStep_of_imported hn ends
    | detached stored named _ deleting =>
      rw [named, hc, Option.some.injEq] at stored
      rw [← stored, hlive] at deleting
      cases deleting
  obtain ⟨d, h⟩ := hstep
  refine ⟨d, hname ▸ h.stored, h.bare, ?_⟩
  rw [h.held]
  constructor
  · intro hiff hdropped
    have hworks := (Hub.Memory.holdsWork_congr rfl h.bare).mpr hdropped.2.2
    exact (hiff.mpr hworks).2 hdropped
  · intro hkept
    exact and_iff_left hkept

def ready (c : ManagedCluster) : Memory := Run.after "c" (setUp c) {}

theorem named_ready {c : ManagedCluster} (h : c.metadata.IsNamed) : (ready c).Named := by
  refine Run.named_after _ Hub.Memory.named_empty ?_
  simp only [Run.isNamed, setUp, List.all_cons, List.all_nil, Hub.Change.isNamed, h]
  decide

theorem held_after_first_pass :
    ∃ d, (Run.afterPass { now := now } "c" (ready (hosted "c" "h"))).clusters.get? "c" = some d ∧
      (d.isHeld = true ↔
        (Run.afterPass { now := now } "c" (ready (hosted "c" "h"))).HoldsWork d) := by
  have hok : (Run.outcome { now := now } "c" (ready (hosted "c" "h"))).toOption = some .done ∧
      ((ready (hosted "c" "h")).clusters.get? "c").any
        (fun c => c.isHosted && !c.isDeleting && !c.isHeld) = true := by decide +kernel
  obtain ⟨c, hc, hfacts⟩ := (Option.any_eq_true _ _).mp hok.2
  simp only [Bool.and_eq_true, Bool.not_eq_true'] at hfacts
  have hnamed : (ready (hosted "c" "h")).Named := named_ready rfl
  obtain ⟨d, hd, -, hiff⟩ := held_after_pass (by decide) hnamed hc
    hfacts.1.1 hfacts.1.2 (Run.outcome_of_toOption hok.1)
  refine ⟨d, hd, hiff.mpr fun hdropped => ?_⟩
  have hheld := hdropped.1
  rw [hfacts.2] at hheld
  cases hheld

/-- With the finalizer there beforehand and no work yet, the pass that brings the first work
takes the finalizer off. -/
theorem unheld_after_first_work :
    (Run.outcome { now := now } "c" (ready (held (hosted "c" "h")))).toOption = some .done ∧
      ∃ d, (Run.afterPass { now := now } "c" (ready (held (hosted "c" "h")))).clusters.get? "c" =
          some d ∧ d.isHeld = false ∧
        (Run.afterPass { now := now } "c" (ready (held (hosted "c" "h")))).HoldsWork d := by
  have hpass : (Run.outcome { now := now } "c" (ready (held (hosted "c" "h")))).toOption =
        some .done ∧
      ((Run.afterPass { now := now } "c" (ready (held (hosted "c" "h")))).clusters.get? "c").any
        (fun d => !d.isHeld && d.nameText == "c" && d.hosting? == some "h") = true ∧
      ((Run.afterPass { now := now } "c" (ready (held (hosted "c" "h")))).works.get?
        ⟨"h", "c-hosted-klusterlet"⟩).any
          (fun w => w.metadata.label? Names.hostedCluster == some "c") = true := by decide +kernel
  obtain ⟨hok, hcluster, hwork⟩ := hpass
  obtain ⟨d, hd, hfacts⟩ := (Option.any_eq_true _ _).mp hcluster
  obtain ⟨w, hw, hlabel⟩ := (Option.any_eq_true _ _).mp hwork
  simp only [Bool.and_eq_true, Bool.not_eq_true', beq_iff_eq] at hfacts hlabel
  refine ⟨hok, d, hd, hfacts.1.1, _, w, hw, Or.inr ⟨hfacts.2, ?_⟩⟩
  rw [hfacts.1.2]
  exact hlabel

end FinalizerSync
end Hosting
