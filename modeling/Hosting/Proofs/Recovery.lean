import Hosting.Proofs.Convergence
import Hosting.Proofs.Credentials

/-!
# Failed passes leave no trace

A pass that fails can leave any part of its work behind, and a record of its failure on top.
None of it changes the goal of the state (`led_of_run`), and a state that has come to rest is
its own goal.  So passes that fail on the way make no difference to where passes that do not
fail lead to: `indistinct_after_failures`.
-/

namespace Hosting
namespace Recovery

open Hub (Memory)
open Hub.Memory (Alike Within)
open Convergence (Live)
open Pass Sample
open Credentials (handing)

variable {name : String} {ctx ctx₁ ctx₂ ctx₁' ctx₂' : Context} {c d e : ManagedCluster}
  {m m' m'' : Memory} {o₁ o₂ o₁' o₂' : Outcome}

/-! ## The goal is kept -/

/-- Passes have led from the state `m`, where the cluster was `c`, to the state `m'`, where it
is `d`. -/
structure Led (name : String) (c : ManagedCluster) (m : Memory) (d : ManagedCluster)
    (m' : Memory) : Prop where
  live : Live name d m'
  bare : d.bare = c.bare
  within : Within (importScope c) m m'
  goal : m'.goal? c d = m.goal? c c

namespace Led

theorem refl (h : Live name c m) : Led name c m c m := ⟨h, rfl, Within.refl _ m, rfl⟩

theorem trans (h : Led name c m d m') (h' : Led name d m' e m'') : Led name c m e m'' where
  live := h'.live
  bare := h'.bare.trans h.bare
  within := h.within.trans (importScope_of_bare h.bare ▸ h'.within)
  goal := calc
    m''.goal? c e = m''.goal? d e := (Hub.Memory.goal?_of_bare h.bare m'' e).symm
    _ = m'.goal? d d := h'.goal
    _ = m'.goal? c d := Hub.Memory.goal?_of_bare h.bare m' d
    _ = m.goal? c c := h.goal

theorem of_alike (h : Live name c m) (ha : Alike m m') : Led name c m c m' where
  live := ⟨h.named.of_alike ha, ha.clusters ▸ h.stored, h.hosted, h.live⟩
  bare := rfl
  within := Within.of_alike _ ha
  goal := Hub.Memory.goal?_of_alike ha (h.nameText.symm ▸ h.stored)

end Led

/-- However a pass ends, it keeps the goal. -/
theorem led_of_pass (hn : ',' ∉ name.toList) (h : Live name c m) (ctx : Context) :
    ∃ d, Led name c m d (Run.afterPass ctx name m) := by
  obtain ⟨r, -, hends⟩ := h.imported ctx
  obtain ⟨d, hd, hfaithful⟩ := hends.faithful
  have hbare := hfaithful.tended.bare
  rw [h.nameText] at hd
  refine ⟨d, h.of_bare (Run.named_afterPass h.named ctx name) hd hbare, hbare, hends.within, ?_⟩
  exact hfaithful.goal (h.nameText.symm ▸ hn) c (h.nameText.symm ▸ h.stored)

/-- A pass, or a failure that is laid in wait for one. -/
def isHindrance : Happening → Bool
  | .pass _ | .change (.failure _ _) | .change (.conflicts _) => true
  | .change _ => false

theorem led_of_run (hn : ',' ∉ name.toList) (h : Live name c m) {run : List Happening}
    (hrun : run.all isHindrance = true) : ∃ d, Led name c m d (Run.after name run m) := by
  induction run generalizing c m with
  | nil => exact ⟨c, Led.refl h⟩
  | cons x rest ih =>
    rw [List.all_cons, Bool.and_eq_true] at hrun
    have hstep : ∃ d m', Led name c m d m' ∧
        Run.after name (x :: rest) m = Run.after name rest m' := by
      cases x with
      | pass ctx =>
        obtain ⟨d, hd⟩ := led_of_pass hn h ctx
        exact ⟨d, _, hd, rfl⟩
      | change e =>
        refine ⟨c, e.apply m, Led.of_alike h ?_, rfl⟩
        cases e <;> first | exact ⟨rfl, rfl, rfl, rfl⟩ | cases hrun.1
    obtain ⟨d, m', hled, hafter⟩ := hstep
    obtain ⟨e, hrest⟩ := ih hled.live hrun.2
    rw [hafter]
    exact ⟨e, hled.trans hrest⟩

/-! ## The goal is reached -/

theorem standing_of_bare (h : d.bare = c.bare) (m : Memory) (e : ManagedCluster) :
    m.standing d e = m.standing c e := by
  unfold Hub.Memory.standing autoImportKey
  rw [ManagedCluster.nameText_of_bare h]

/-- Two passes that do not fail lead to the goal. -/
theorem goal_of_two (hn : ',' ∉ name.toList) (h : Live name c m)
    (h₁ : Run.outcome ctx₁ name m = .ok o₁)
    (h₂ : Run.outcome ctx₂ name (Run.afterPass ctx₁ name m) = .ok o₂) :
    ∃ d, Led name c m d (Run.afterPass ctx₂ name (Run.afterPass ctx₁ name m)) ∧
      m.goal? c c =
        some ((Run.afterPass ctx₂ name (Run.afterPass ctx₁ name m)).standing c d) := by
  obtain ⟨d₁, hled₁⟩ := led_of_pass hn h ctx₁
  obtain ⟨d, hled₂⟩ := led_of_pass hn hled₁.live ctx₂
  have hled := hled₁.trans hled₂
  obtain ⟨d', hbare, hsettled⟩ := h.settled_of_two hn h₁ h₂
  have hname : d'.nameText = name := (ManagedCluster.nameText_of_bare hbare).trans h.nameText
  obtain rfl : d' = d := by
    have hstored := hsettled.stored
    rw [hname, hled.live.stored] at hstored
    exact (Option.some.inj hstored).symm
  obtain ⟨p, hreached, hkept⟩ := hsettled.reached
  refine ⟨d', hled, ?_⟩
  rw [← hled.goal, ← Hub.Memory.goal?_of_bare hled.bare, ← standing_of_bare hled.bare]
  exact Hub.Memory.goal?_of_settled (hname.symm ▸ hn) hreached hkept hsettled.held

/-- In both states of the hub the objects of the cluster stand the same, but for versions,
times, the order of conditions and counts of attempts, and all other objects are the same. -/
structure Indistinct (c : ManagedCluster) (m m' : Memory) : Prop where
  within : Within (importScope c) m m'
  cluster : ∃ d d', m.clusters.get? c.nameText = some d ∧ m'.clusters.get? c.nameText = some d' ∧
    d'.bare = d.bare ∧ m'.standing c d' = m.standing c d

/-- It makes no difference whether passes over a live cluster have failed, at whatever step and
however many, before two passes do not fail. -/
theorem indistinct_after_failures (hn : ',' ∉ name.toList) (hm : m.Named)
    (hc : m.clusters.get? name = some c) (hhosted : c.isHosted = true)
    (hlive : c.isDeleting = false) {run : List Happening} (hrun : run.all isHindrance = true)
    (h₁ : Run.outcome ctx₁ name m = .ok o₁)
    (h₂ : Run.outcome ctx₂ name (Run.afterPass ctx₁ name m) = .ok o₂)
    (h₁' : Run.outcome ctx₁' name (Run.after name run m) = .ok o₁')
    (h₂' : Run.outcome ctx₂' name (Run.afterPass ctx₁' name (Run.after name run m)) = .ok o₂') :
    Indistinct c (Run.afterPass ctx₂ name (Run.afterPass ctx₁ name m))
      (Run.afterPass ctx₂' name (Run.afterPass ctx₁' name (Run.after name run m))) := by
  have hstart : Live name c m := ⟨hm, hc, hhosted, hlive⟩
  obtain ⟨d, hled, hgoal⟩ := goal_of_two hn hstart h₁ h₂
  obtain ⟨c', hfailed⟩ := led_of_run hn hstart hrun
  obtain ⟨d', hrest, hgoal'⟩ := goal_of_two hn hfailed.live h₁' h₂'
  have hled' := hfailed.trans hrest
  refine ⟨hled.within.symm.trans hled'.within, d, d', ?_, ?_, ?_, ?_⟩
  · rw [hstart.nameText, hled.live.stored]
  · rw [hstart.nameText, hled'.live.stored]
  · rw [hled'.bare, hled.bare]
  · rw [Hub.Memory.goal?_of_bare hfailed.bare, hfailed.goal, hgoal, standing_of_bare hfailed.bare,
      Option.some.injEq] at hgoal'
    exact hgoal'.symm

/-- The hub does not take the work of the credentials, which the pass records on the cluster
and counts in the secret. -/
def refused : List Happening := [.change (.failure .createWork "refused"), onePass]

theorem indistinct_after_refused :
    (Run.outcome { now := now } "c" (Run.after "c" (refused.take 1) handing)).toOption = none ∧
      ∃ c, handing.clusters.get? "c" = some c ∧
        Indistinct c (Run.after "c" [onePass, onePass] handing)
          (Run.after "c" [onePass, onePass] (Run.after "c" refused handing)) := by
  have hfails :
      (Run.outcome { now := now } "c" (Run.after "c" (refused.take 1) handing)).toOption =
        none := by decide +kernel
  have hstart : (handing.clusters.get? "c").any (fun c => c.isHosted && !c.isDeleting) = true ∧
      (Run.outcome { now := now } "c" handing).toOption = some .done ∧
      (Run.outcome { now := now } "c" (Run.after "c" [onePass] handing)).toOption =
        some .done := by decide +kernel
  have hends : (Run.outcome { now := now } "c" (Run.after "c" refused handing)).toOption =
        some .done ∧
      (Run.outcome { now := now } "c"
        (Run.after "c" [onePass] (Run.after "c" refused handing))).toOption = some .done := by
    decide +kernel
  have hrun : refused.all isHindrance = true := rfl
  obtain ⟨c, hc, hfacts⟩ := (Option.any_eq_true _ _).mp hstart.1
  simp only [Bool.and_eq_true, Bool.not_eq_true'] at hfacts
  refine ⟨hfails, c, hc, ?_⟩
  have hnamed : handing.Named := Run.named_after _ Hub.Memory.named_empty (by decide +kernel)
  exact indistinct_after_failures (by decide) hnamed hc
    hfacts.1 hfacts.2 hrun (Run.outcome_of_toOption hstart.2.1)
    (Run.outcome_of_toOption hstart.2.2) (Run.outcome_of_toOption hends.1)
    (Run.outcome_of_toOption hends.2)

end Recovery
end Hosting
