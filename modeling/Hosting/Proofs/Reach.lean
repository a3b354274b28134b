import Hosting.Proofs.Run

/-!
# What a pass can touch

A pass writes whole objects from copies that it read at different times, and it can end at
any of its steps.  `pass_spares` bounds what comes of it, whichever way it ends: which objects
of the hub it can touch at all, and what of these belongs to others.
-/

namespace Hosting
namespace Reach

open Hub (Memory)
open Hub.Memory (Alike Within Sheds Scope)
open Pass Sample

variable {name : String} {c : ManagedCluster} {m m' : Memory}

/-- The works of the cluster `name`, and the two that an import brings. -/
def Touchable (name : String) (m : Memory) (k : ObjectKey) : Prop :=
  k.nspace = name ∨ ∃ c, m.clusters.get? name = some c ∧ c.hosting? = some k.nspace ∧
    ((∃ w, m.Labelled name k w) ∨
      k.name = Names.klusterletWork name ∨ k.name = Names.kubeconfigWork name)

/-- What a pass over the cluster `name` can touch. -/
def scope (name : String) (m : Memory) : Scope where
  clusters := (· = name)
  works := Touchable name m
  secrets := (· = ⟨name, Names.autoImportSecret⟩)

/-- A pass over the cluster `name` has left the hub in the state `m'`. -/
structure Spared (name : String) (m m' : Memory) : Prop where
  within : Within (scope name m) m m'
  absent : m.clusters.get? name = none → m'.clusters.get? name = none
  /-- Of the cluster only its own finalizer and conditions are written, and it only goes when
  it is deleting and nobody else holds it. -/
  cluster : ∀ c, m.clusters.get? name = some c →
    (∃ d, m'.clusters.get? name = some d ∧ c.Tended d) ∨
      m'.clusters.get? name = none ∧ c.isDeleting = true ∧
        Finalizers.others c.metadata.finalizers = []
  /-- As long as it is live only the two works are written, and none is removed. -/
  live : ∀ c, m.clusters.get? name = some c → c.isDeleting = false →
    Within (importScope c) m m' ∧
      ∀ k w, m.works.get? k = some w → ∃ w', m'.works.get? k = some w' ∧ w.Retains w'
  /-- Once it is deleting no work is brought, and the secrets are left alone. -/
  deleting : ∀ c, m.clusters.get? name = some c → c.isDeleting = true →
    m'.secrets = m.secrets ∧ Sheds m m'

theorem spared_of_alike (h : Alike m m') : Spared name m m' where
  within := Within.of_alike _ h
  absent hnone := h.clusters ▸ hnone
  cluster c hc := Or.inl ⟨c, h.clusters ▸ hc, .refl c⟩
  live _ _ _ := ⟨Within.of_alike _ h, fun _ w hw => ⟨w, h.works ▸ hw, .refl w⟩⟩
  deleting _ _ _ := ⟨h.secrets, Sheds.of_works h.works⟩

theorem touchable_of_importScope (hc : m.clusters.get? c.nameText = some c) {k : ObjectKey}
    (hk : (importScope c).works k) : Touchable c.nameText m k :=
  Or.inr ⟨c, hc, hk.1, Or.inr hk.2⟩

theorem spared_of_imported {held : Bool} {r : Except Failure Unit}
    (hc : m.clusters.get? c.nameText = some c) (hlive : c.isDeleting = false)
    (h : Imported c held m r m') : Spared c.nameText m m' := by
  obtain ⟨d, hd, hfaithful⟩ := h.faithful
  refine ⟨?_, fun hnone => ?_, fun c' hc' => ?_, fun c' hc' _ => ?_, fun c' hc' hdel => ?_⟩
  · exact h.within.mono (fun _ => id) (fun _ => touchable_of_importScope hc) fun _ => id
  · rw [hc] at hnone
    cases hnone
  all_goals
    rw [hc, Option.some.injEq] at hc'
    subst hc'
  · exact Or.inl ⟨d, hd, hfaithful.tended⟩
  · exact ⟨h.within, hfaithful.retains⟩
  · rw [hlive] at hdel
    cases hdel

theorem touchable_of_removable (hn : ',' ∉ c.nameText.toList) (hm : m.Filed)
    (hc : m.clusters.get? c.nameText = some c) {k : ObjectKey} (hk : Removable c m k) :
    Touchable c.nameText m k := by
  rcases hk with hspace | ⟨w, hw, hkey⟩
  · exact Or.inl hspace
  · obtain ⟨k', hlabelled, hspace⟩ := (Hub.Memory.mem_hosted_iff hn).mp hw
    have hk' : k' = k := (hm.works k' w hlabelled.1).symm.trans hkey
    subst hk'
    exact Or.inr ⟨c, hc, hspace, Or.inl ⟨w, hlabelled⟩⟩

theorem spared_of_detached {requeue : Nat} {r : Except Failure Outcome}
    (hn : ',' ∉ c.nameText.toList) (hm : m.Filed) (hc : m.clusters.get? c.nameText = some c)
    (hdel : c.isDeleting = true) (h : Detached requeue c m r m') : Spared c.nameText m m' := by
  refine ⟨?_, fun hnone => ?_, fun c' hc' => ?_, fun c' hc' hlive => ?_, fun c' hc' _ => ?_⟩
  · exact h.within.mono (fun _ => id) (fun _ => touchable_of_removable hn hm hc)
      fun _ => False.elim
  · rw [hc] at hnone
    cases hnone
  all_goals
    rw [hc, Option.some.injEq] at hc'
    subst hc'
  · rcases h.cluster with ⟨d, hd, htended, -⟩ | ⟨-, hletGo⟩
    · exact Or.inl ⟨d, hd, htended⟩
    · cases hletGo with
      | kept stored tended => exact Or.inl ⟨_, stored, tended⟩
      | gone stored others => exact Or.inr ⟨stored, hdel, others⟩
  · rw [hdel] at hlive
    cases hlive
  · exact ⟨h.within.secrets_eq fun _ => id, h.sheds⟩

/-- Whatever the hub holds and however a pass ends, it touches nothing beyond its cluster,
and nothing of its cluster that is not its own. -/
theorem pass_spares (hn : ',' ∉ name.toList) (hm : m.Named) (ctx : Context) :
    Spared name m (Run.afterPass ctx name m) := by
  have hpassed := Run.passed hm ctx name
  generalize Run.outcome ctx name m = r, Run.afterPass ctx name m = m' at hpassed
  cases hpassed with
  | refused same => exact spared_of_alike same
  | idle => exact spared_of_alike (Alike.refl m)
  | imported stored named _ live ends =>
    subst named
    exact spared_of_imported stored live ends
  | detached stored named _ deleting ends =>
    subst named
    exact spared_of_detached hn hm.toFiled stored deleting ends

/-- The hub will not take the first work. -/
def refusing : Memory :=
  Run.after "c" (setUp (hosted "c" "h") ++ [.change (.failure .createWork "refused")]) {}

theorem pass_spares_of_refusing :
    (Run.outcome { now := now } "c" refusing).toOption = none ∧
      Spared "c" refusing (Run.afterPass { now := now } "c" refusing) := by
  have hnamed : refusing.Named := Run.named_after _ Hub.Memory.named_empty (by decide +kernel)
  exact ⟨by decide +kernel, pass_spares (by decide) hnamed { now := now }⟩

end Reach
end Hosting
