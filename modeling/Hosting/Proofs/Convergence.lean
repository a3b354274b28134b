import Hosting.Proofs.FinalizerSync
import Hosting.Proofs.Pass.Settled

/-!
# A live cluster comes to rest

The first pass that does not fail brings everything but the finalizer, which it may take off
a cluster whose first work it brings.  The second one cannot do that any more, so that it
leaves nothing to do: `idle_after_two` says that from then on passes only look things up.
-/

namespace Hosting
namespace Convergence

open Hub (Memory)
open Pass Sample

variable {name : String} {ctx ctx₁ ctx₂ : Context} {c d : ManagedCluster} {m m' : Memory}
  {o o₁ o₂ : Outcome}

/-! ## Two passes -/

/-- The hub holds the cluster `c` under `name`, which is live and hosted. -/
structure Live (name : String) (c : ManagedCluster) (m : Memory) : Prop where
  named : m.Named
  stored : m.clusters.get? name = some c
  hosted : c.isHosted = true
  live : c.isDeleting = false

namespace Live

theorem nameText (h : Live name c m) : c.nameText = name := h.named.clusters name c h.stored

theorem isNamed (h : Live name c m) : c.metadata.IsNamed := h.named.clusterNames name c h.stored

theorem of_bare (h : Live name c m) (hm : m'.Named) (hd : m'.clusters.get? name = some d)
    (hbare : d.bare = c.bare) : Live name d m' where
  named := hm
  stored := hd
  hosted := (ManagedCluster.isHosted_of_bare hbare).trans h.hosted
  live := (ManagedCluster.isDeleting_of_bare hbare).trans h.live

theorem imported (h : Live name c m) (ctx : Context) :
    ∃ r, Run.outcome ctx name m = r.map (fun _ => .done) ∧
      Imported c (decide ((m.worksOf c).total ≠ 0)) m r (Run.afterPass ctx name m) :=
  (Run.passed h.named ctx name).imported_of_stored h.named h.stored h.hosted h.live

/-- A pass that does not fail carries out all of the plan. -/
theorem after_ok (h : Live name c m) (hn : ',' ∉ name.toList)
    (hok : Run.outcome ctx name m = .ok o) :
    ∃ d, Live name d (Run.afterPass ctx name m) ∧ d.bare = c.bare ∧
      FinalizerSync.InStep c m (Run.afterPass ctx name m) d ∧
        ∃ p, Reached (Run.afterPass ctx name m) d d p ∧ p.consumes = false := by
  have hcn : ',' ∉ c.nameText.toList := h.nameText.symm ▸ hn
  obtain ⟨r, hr, hends⟩ := h.imported ctx
  cases r with
  | error f =>
    rw [hok] at hr
    cases hr
  | ok u =>
    obtain ⟨d, hd, hbare, harrived⟩ := hends.arrived
    obtain ⟨d', hinStep⟩ := FinalizerSync.inStep_of_imported hcn hends
    obtain rfl : d = d' := Option.some.inj (hd.symm.trans hinStep.stored)
    obtain ⟨p, hreached, hkept⟩ := harrived hcn
    rw [h.nameText] at hd
    exact ⟨d, h.of_bare (Run.named_afterPass h.named ctx name) hd hbare, hbare, hinStep, p,
      hreached.of_bare hbare, hkept⟩

theorem settled_of_two (h : Live name c m) (hn : ',' ∉ name.toList)
    (h₁ : Run.outcome ctx₁ name m = .ok o₁)
    (h₂ : Run.outcome ctx₂ name (Run.afterPass ctx₁ name m) = .ok o₂) :
    ∃ d, d.bare = c.bare ∧ Settled d (Run.afterPass ctx₂ name (Run.afterPass ctx₁ name m)) := by
  obtain ⟨d₁, hlive₁, hbare₁, hinStep₁, -⟩ := h.after_ok hn h₁
  obtain ⟨d₂, hlive₂, hbare₂, hinStep₂, hreached⟩ := hlive₁.after_ok hn h₂
  have hkept : ¬FinalizerSync.Dropped d₁ (Run.afterPass ctx₁ name m)
      (Run.afterPass ctx₂ name (Run.afterPass ctx₁ name m)) := by
    -- the first pass has left no finalizer without works
    rintro ⟨hheld, hnone, -⟩
    exact hnone (hinStep₁.held.mp hheld).1
  have hdn : ',' ∉ d₂.nameText.toList := hlive₂.nameText.symm ▸ hn
  refine ⟨d₂, hbare₂.trans hbare₁, hlive₂.isNamed, hlive₂.nameText.symm ▸ hlive₂.stored,
    hlive₂.hosted, hlive₂.live, ?_, hreached⟩
  rw [Bool.eq_iff_iff, decide_eq_true_iff, hinStep₂.held, and_iff_left hkept, ne_eq,
    Hub.Memory.worksOf_eq_empty_iff hdn, Classical.not_not]

end Live

/-! ## Every later pass -/

/-- A pass at this point is done at once: it only looks things up, and leaves the whole hub as
it is. -/
structure Idle (ctx : Context) (name : String) (m : Memory) : Prop where
  outcome : Run.outcome ctx name m = .ok .done
  reads : ∀ i ∈ Run.issuedBy ctx name m, i.request.IsRead
  after : Run.afterPass ctx name m = m

theorem idle_of_settled (hn : ',' ∉ c.nameText.toList) (hm : m.Filed)
    (hquiet : m.failures.get? .listWorks = none) (h : Settled c m) (ctx : Context) :
    Idle ctx c.nameText m := by
  have hmeets : Meets ctx.now (fun q _ => q.IsRead) (Untouched .done m)
      (reconcile ctx c.nameText) m := reconcile_settled (fun _ _ hq => hq) hn hm hquiet h
  obtain ⟨hreads, houtcome, hafter⟩ := Dialogue.meets_iff.mp hmeets
  refine ⟨houtcome, fun i hi => ?_, hafter⟩
  obtain ⟨e, he, rfl⟩ := List.mem_map.mp hi
  exact hreads e he

theorem after_of_idle (h : ∀ ctx, Idle ctx name m) (later : List Context) :
    Run.after name (later.map .pass) m = m := by
  induction later with
  | nil => rfl
  | cons ctx later ih =>
    show Run.after name (later.map .pass) (Run.afterPass ctx name m) = m
    rw [(h ctx).after, ih]

/-- Once two passes over a live cluster have not failed, no later one writes anything or tells
of anything, whenever it is made.  Only a failure of listings that lies in wait could keep it
from that. -/
theorem idle_after_two (hn : ',' ∉ name.toList) (hm : m.Named)
    (hquiet : m.failures.get? .listWorks = none) (hc : m.clusters.get? name = some c)
    (hhosted : c.isHosted = true) (hlive : c.isDeleting = false)
    (h₁ : Run.outcome ctx₁ name m = .ok o₁)
    (h₂ : Run.outcome ctx₂ name (Run.afterPass ctx₁ name m) = .ok o₂)
    (later : List Context) (ctx : Context) :
    Idle ctx name (Run.after name ((ctx₁ :: ctx₂ :: later).map .pass) m) := by
  have hstart : Live name c m := ⟨hm, hc, hhosted, hlive⟩
  obtain ⟨d, hbare, hsettled⟩ := hstart.settled_of_two hn h₁ h₂
  have hname : d.nameText = name := (ManagedCluster.nameText_of_bare hbare).trans hstart.nameText
  have hidle (ctx : Context) :
      Idle ctx name (Run.afterPass ctx₂ name (Run.afterPass ctx₁ name m)) := by
    subst hname
    exact idle_of_settled hn ((hm.toFiled.talk _ _).talk _ _)
      (Hub.Memory.failures_talk (Hub.Memory.failures_talk hquiet _ _) _ _) hsettled ctx
  show Idle ctx name (Run.after name (later.map .pass)
    (Run.afterPass ctx₂ name (Run.afterPass ctx₁ name m)))
  rw [after_of_idle hidle later]
  exact hidle ctx

/-- The cluster begins with its finalizer and without works. -/
def beginning : Memory := FinalizerSync.ready (held (hosted "c" "h"))

theorem idle_after_two_of_beginning :
    ((Run.after "c" [onePass] beginning).clusters.get? "c").any (·.isHeld) = false ∧
      ((Run.after "c" [onePass, onePass] beginning).clusters.get? "c").any (·.isHeld) = true ∧
        ∀ later ctx, Idle ctx "c"
          (Run.after "c" (({ now := now } :: { now := now } :: later).map .pass) beginning) := by
  have hheld : ((Run.after "c" [onePass] beginning).clusters.get? "c").any (·.isHeld) = false ∧
      ((Run.after "c" [onePass, onePass] beginning).clusters.get? "c").any (·.isHeld) = true := by
    decide +kernel
  have hstart : (beginning.clusters.get? "c").any (fun c => c.isHosted && !c.isDeleting) = true ∧
      (Run.outcome { now := now } "c" beginning).toOption = some .done ∧
      (Run.outcome { now := now } "c" (Run.afterPass { now := now } "c" beginning)).toOption =
        some .done ∧
      beginning.failures.get? .listWorks = none := by decide +kernel
  obtain ⟨c, hc, hfacts⟩ := (Option.any_eq_true _ _).mp hstart.1
  simp only [Bool.and_eq_true, Bool.not_eq_true'] at hfacts
  have hnamed : beginning.Named := FinalizerSync.named_ready rfl
  exact ⟨hheld.1, hheld.2, idle_after_two (by decide) hnamed
    hstart.2.2.2 hc hfacts.1 hfacts.2 (Run.outcome_of_toOption hstart.2.1)
    (Run.outcome_of_toOption hstart.2.2.1)⟩

end Convergence
end Hosting
