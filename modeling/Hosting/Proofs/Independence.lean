import Hosting.Proofs.Pass.Abreast
import Hosting.Proofs.Pass.Conduct
import Hosting.Proofs.Reach

/-!
# Passes over independent clusters

What a pass touches is not looked at by a pass over another cluster, unless one of the two
names the other as its hosting cluster or a hosted work is labelled with the wrong one.  So
two passes can be made in either order (`passes_commute`), also when both clusters have the
same hosting cluster, where each pass lists and writes among the works of the other.
-/

namespace Hosting

namespace Independence

open Hub (Memory Request)
open Hub.Memory (Sheds Within)
open Pass Reach Sample

variable {a b name : String} {v : Sight} {m m' m'' : Memory} {t : Instant} {ctx ctx' : Context}

/-! ## Labels -/

/-- No work is labelled anew, but with the cluster `name`. -/
def LabelsOnly (name : String) (m m' : Memory) : Prop :=
  ∀ n k w', m'.Labelled n k w' → n = name ∨ ∃ w, m.Labelled n k w

theorem labelsOnly_of_sheds (h : Sheds m m') : LabelsOnly name m m' := by
  rintro n k w' ⟨hw', hlabel⟩
  obtain ⟨w, hw, hleaves⟩ := h k w' hw'
  refine Or.inr ⟨w, hw, ?_⟩
  unfold Metadata.label? at hlabel ⊢
  rw [← hleaves.labels]
  exact hlabel

theorem LabelsOnly.trans (h : LabelsOnly name m m') (h' : LabelsOnly name m' m'') :
    LabelsOnly name m m'' := by
  intro n k w'' hw''
  rcases h' n k w'' hw'' with hn | ⟨w', hw'⟩
  · exact Or.inl hn
  · exact h n k w' hw'

theorem labelsOnly_of_put {w u : ManifestWork}
    (hlabel : w.metadata.label? Names.hostedCluster = some name)
    (hu : u.metadata.labels = w.metadata.labels)
    (hwithin : Within { works := (· = w.key) } m m') (hthere : m'.works.get? w.key = some u) :
    LabelsOnly name m m' := by
  rintro n k w' ⟨hw', hn⟩
  by_cases hk : k = w.key
  · left
    rw [hk, hthere, Option.some.injEq] at hw'
    unfold Metadata.label? at hlabel hn
    rw [← hw', hu, hlabel] at hn
    exact (Option.some.inj hn).symm
  · exact Or.inr ⟨w', hwithin.works k hk ▸ hw', hn⟩

theorem labelsOnly_answer {q : Request} (hq : Labels name q) :
    LabelsOnly name m (m.answer t q).2 := by
  have hdone := Hub.Memory.worksDone_answer (m := m) t q
  revert hdone
  generalize (m.answer t q).2 = m'
  intro hdone
  cases hdone with
  | same works => exact labelsOnly_of_sheds (Sheds.of_works works)
  | @put w u asked stamp within there =>
    have hlabel : w.metadata.label? Names.hostedCluster = some name := by
      rcases asked with rfl | rfl <;> exact hq
    exact labelsOnly_of_put hlabel (stamp ▸ rfl) within there
  | removed _ _ sheds => exact labelsOnly_of_sheds sheds

theorem labelsOnly_of_behaves {α : Type} {p : Pass α} (hp : Behaves name p) (m : Memory) :
    LabelsOnly name m (m.talk t p.run).2 := by
  have hobeys := (hp []).imp (fun _ _ hq => hq.2) fun _ _ h => h
  have hstep (q : Request) (m₁ : Memory) (hq : Labels name q) (h₁ : LabelsOnly name m m₁) :
      LabelsOnly name m (m₁.answer t q).2 := h₁.trans (labelsOnly_answer hq)
  exact hobeys.keeps hstep (labelsOnly_of_sheds (Sheds.of_works rfl))

theorem labelsOnly_afterPass (hm : m.Named) (ctx : Context) (name : String) :
    LabelsOnly name m (Run.afterPass ctx name m) := by
  obtain ⟨next, hnext, hnone, hsome⟩ := behaves_reconcile ctx name
  have hrun : Run.afterPass ctx name m =
      (m.talk ctx.now (next (m.clusters.get? name)).run).2 := by
    unfold Run.afterPass
    rw [hnext, talk_bind_ok (a := m.clusters.get? name) (by rw [talk_ask]; rfl), talk_ask]
    rfl
  rw [hrun]
  cases hc : m.clusters.get? name with
  | none => exact labelsOnly_of_behaves hnone m
  | some c =>
    exact labelsOnly_of_behaves (hm.anyName_eq hc ▸ hsome c) m

/-! ## What is seen and what is touched -/

/-- What a pass over the cluster `a` looks at. -/
def sight (a : String) (m : Memory) : Sight where
  name := a
  hosting := (m.clusters.get? a).bind (·.hosting?)
  works := Touchable a m
  own _ hk := Or.inl hk
  brought h hh := by
    obtain ⟨c, hc, hhosting⟩ := Option.bind_eq_some_iff.mp hh
    exact ⟨Or.inr ⟨c, hc, hhosting, Or.inr (Or.inl rfl)⟩,
      Or.inr ⟨c, hc, hhosting, Or.inr (Or.inr rfl)⟩⟩

theorem calm_sight (hm : m.Filed) (hq : m.Quiet) (a : String) : Calm (sight a m) m where
  filed := hm
  quiet := hq
  strangers k w hhosting hout hw hlabel := by
    obtain ⟨c, hc, hspace⟩ := Option.bind_eq_some_iff.mp hhosting
    exact hout (Or.inr ⟨c, hc, hspace, Or.inl ⟨w, hw, hlabel⟩⟩)

/-- The cluster `a` does not name `b` as its hosting cluster, and no work that has the name of
one of its hosted works is labelled with `b`. -/
structure Apart (m : Memory) (a b : String) : Prop where
  hosting : ∀ c, m.clusters.get? a = some c → c.hosting? ≠ some b
  works : ∀ k w, m.Labelled b k w →
    k.name ≠ Names.klusterletWork a ∧ k.name ≠ Names.kubeconfigWork a

/-- In a hub in which nothing is laid in wait, the clusters `a` and `b` do not concern each
other. -/
structure Independent (m : Memory) (a b : String) : Prop where
  named : m.Named
  quiet : m.Quiet
  ne : a ≠ b
  plain : ',' ∉ a.toList
  plain' : ',' ∉ b.toList
  apart : Apart m a b
  apart' : Apart m b a

theorem Independent.symm (h : Independent m a b) : Independent m b a :=
  ⟨h.named, h.quiet, h.ne.symm, h.plain', h.plain, h.apart', h.apart⟩

theorem not_touchable (h : Independent m a b) {k : ObjectKey} (ha : Touchable a m k) :
    ¬Touchable b m k := by
  intro hb
  rcases ha with ha | ⟨c, hc, hcspace, ha⟩
  · rcases hb with hb | ⟨d, hd, hdspace, -⟩
    · exact h.ne (ha.symm.trans hb)
    · exact h.apart'.hosting d hd (ha ▸ hdspace)
  rcases hb with hb | ⟨d, hd, hdspace, hb⟩
  · exact h.apart.hosting c hc (hb ▸ hcspace)
  -- both are on the same hosting cluster
  rcases ha with ⟨w, hw, hlabel⟩ | ha
  · rcases hb with ⟨w', hw', hlabel'⟩ | hb
    · rw [hw, Option.some.injEq] at hw'
      rw [← hw', hlabel, Option.some.injEq] at hlabel'
      exact h.ne hlabel'
    · have hother := h.apart'.works k w ⟨hw, hlabel⟩
      exact hb.elim hother.1 hother.2
  · rcases hb with ⟨w', hlabelled⟩ | hb
    · have hother := h.apart.works k w' hlabelled
      exact ha.elim hother.1 hother.2
    · rcases ha with ha | ha <;> rcases hb with hb | hb
      · exact h.ne (Names.klusterletWork_inj (ha.symm.trans hb))
      · exact Names.klusterletWork_ne_kubeconfigWork a b (ha.symm.trans hb)
      · exact Names.klusterletWork_ne_kubeconfigWork b a (hb.symm.trans ha)
      · exact h.ne (Names.kubeconfigWork_inj (ha.symm.trans hb))

theorem within_afterPass (hn : ',' ∉ name.toList) (hm : m.Named) (ctx : Context) :
    Within (scope name m) m (Run.afterPass ctx name m) := by
  have hpassed := Run.passed hm ctx name
  revert hpassed
  generalize Run.outcome ctx name m = r, Run.afterPass ctx name m = m'
  intro hpassed
  cases hpassed with
  | refused same => exact Within.of_alike _ same
  | idle => exact Within.refl _ m
  | imported stored named _ live ends =>
    subst named
    exact (spared_of_imported stored live ends).within
  | detached stored named _ deleting ends =>
    subst named
    exact (spared_of_detached hn hm.toFiled stored deleting ends).within

/-- A pass over `b` is not seen where none of what it touches is looked at. -/
theorem twins_beside (hb : ',' ∉ b.toList) (hnamed : m.Named) (hm : Calm v m)
    (hq : (Run.afterPass ctx b m).Quiet) (hwatch : ¬v.Watches b)
    (hworks : ∀ k, v.works k → ¬Touchable b m k) :
    Twins v m (Run.afterPass ctx b m) := by
  have hwithin := within_afterPass hb hnamed ctx
  have hname : v.name ≠ b := fun heq => hwatch (Or.inl heq.symm)
  refine ⟨hm, ⟨hm.filed.talk _ _, hq, fun k w hhosting hout hw hlabel => ?_⟩, fun n hn => ?_,
    fun k hk => ?_, fun k hk => ?_, hwithin.addOns.symm⟩
  · rcases labelsOnly_afterPass hnamed ctx b v.name k w ⟨hw, hlabel⟩ with heq | ⟨w₀, hw₀⟩
    · exact hname heq
    · exact hm.strangers k w₀ hhosting hout hw₀.1 hw₀.2
  · rw [hwithin.clusters n fun heq => hwatch (heq ▸ hn)]
  · rw [hwithin.works k (hworks k hk)]
  · refine (hwithin.secrets k fun heq => hname ?_).symm
    rw [← hk, heq]

/-- A pass over `a` comes to the same in a hub that looks the same for it. -/
theorem pass_abreast (ha : ',' ∉ a.toList) (hm : m.Named) (h : Twins (sight a m) m m')
    (hcluster : m'.clusters.get? a = m.clusters.get? a)
    (hworks : ∀ k, Touchable a m k → m'.works.get? k = m.works.get? k) (ctx : Context) :
    Run.outcome ctx a m' = Run.outcome ctx a m ∧
      Advanced (sight a m) m m' (Run.afterPass ctx a m) (Run.afterPass ctx a m') := by
  have hhosting (c : ManagedCluster) (hc : m.clusters.get? a = some c) :
      c.hosting? = (sight a m).hosting := by
    show c.hosting? = (m.clusters.get? a).bind (·.hosting?)
    rw [hc, Option.bind_some]
  obtain ⟨hends, hadvanced⟩ := abreast_reconcile (t := ctx.now) hm h ha hhosting hcluster.symm
    (fun k hk => (hworks k hk).symm) ctx
  refine ⟨?_, hadvanced⟩
  rcases hends with ⟨o, o', ho, ho', rfl⟩ | ⟨f, hf, hf'⟩
  · exact ho'.trans ho.symm
  · exact hf'.trans hf.symm

theorem calm_afterPass (h : Independent m a b) (ctx : Context) :
    Calm (sight a m) (Run.afterPass ctx a m) :=
  (pass_abreast h.plain h.named (Twins.refl (calm_sight h.named.toFiled h.quiet a)) rfl
    (fun _ _ => rfl) ctx).2.twins.left

theorem not_watches (h : Independent m a b) : ¬(sight a m).Watches b := by
  rintro (heq | hhosting)
  · exact h.ne heq.symm
  · obtain ⟨c, hc, hspace⟩ := Option.bind_eq_some_iff.mp hhosting
    exact h.apart.hosting c hc hspace

/-- A pass over `a` comes to the same after one over `b`. -/
theorem pass_after_other (h : Independent m a b) (ctx ctx' : Context) :
    Run.outcome ctx a (Run.afterPass ctx' b m) = Run.outcome ctx a m ∧
      Advanced (sight a m) m (Run.afterPass ctx' b m) (Run.afterPass ctx a m)
        (Run.afterPass ctx a (Run.afterPass ctx' b m)) := by
  have hwithin := within_afterPass h.plain' h.named ctx'
  have hquiet := (calm_afterPass h.symm ctx').quiet
  have htwins := twins_beside h.plain' h.named (calm_sight h.named.toFiled h.quiet a) hquiet
    (not_watches h) fun k => not_touchable h
  exact pass_abreast h.plain h.named htwins (hwithin.clusters a h.ne)
    (fun k hk => hwithin.works k (not_touchable h hk)) ctx

/-- A pass over `a` brings nothing that a pass over `b` touches. -/
theorem touchable_afterPass (h : Independent m a b) {k : ObjectKey}
    (hk : Touchable b (Run.afterPass ctx a m) k) : Touchable b m k := by
  rcases hk with hspace | ⟨c, hc, hspace, hk⟩
  · exact Or.inl hspace
  rw [(within_afterPass h.plain h.named ctx).clusters b h.ne.symm] at hc
  refine Or.inr ⟨c, hc, hspace, ?_⟩
  rcases hk with ⟨w, hw⟩ | hname
  · rcases labelsOnly_afterPass h.named ctx a b k w hw with heq | hbefore
    · exact absurd heq.symm h.ne
    · exact Or.inl hbefore
  · exact Or.inr hname

/-- For `a` the hub looks the same whichever pass is first. -/
theorem twins_in_turn (h : Independent m a b) (ctx ctx' : Context) :
    Twins (sight a m) (Run.afterPass ctx' b (Run.afterPass ctx a m))
      (Run.afterPass ctx a (Run.afterPass ctx' b m)) := by
  have hquiet := (pass_after_other h.symm ctx' ctx).2.twins.right.quiet
  have hbeside := twins_beside h.plain' (Run.named_afterPass h.named ctx a)
    (calm_afterPass h ctx) hquiet (not_watches h) fun k hk hk' =>
      not_touchable h hk (touchable_afterPass h hk')
  exact hbeside.symm.trans (pass_after_other h ctx ctx').2.twins

/-! ## Either order -/

/-- The hubs are the same but for the versions of their objects and the order of what is noted
in them. -/
structure SameHub (m m' : Memory) : Prop where
  clusters : ∀ n,
    (m.clusters.get? n).map (·.unversioned) = (m'.clusters.get? n).map (·.unversioned)
  works : ∀ k, (m.works.get? k).map (·.unversioned) = (m'.works.get? k).map (·.unversioned)
  secrets : m.secrets = m'.secrets
  addOns : m.addOns = m'.addOns
  version : m.version = m'.version
  writes : m.writes.Perm m'.writes
  events : m.events.Perm m'.events
  failures : m.failures = m'.failures
  conflicts : m.conflicts = m'.conflicts

/-- What neither pass touches is as it was. -/
theorem elsewhere (h : Independent m a b) (ctx ctx' : Context) :
    Within {
      clusters := fun n => n = a ∨ n = b
      works := fun k => Touchable a m k ∨ Touchable b m k
      secrets := fun k => k.nspace = a ∨ k.nspace = b } m
      (Run.afterPass ctx' b (Run.afterPass ctx a m)) := by
  have hfirst := within_afterPass h.plain h.named ctx
  have hnamed : (Run.afterPass ctx a m).Named := Run.named_afterPass h.named ctx a
  have hsecond := within_afterPass h.plain' hnamed ctx'
  refine (hfirst.mono (fun _ => Or.inl) (fun _ => Or.inl) ?_).trans
    (hsecond.mono (fun _ => Or.inr) (fun k hk => Or.inr (touchable_afterPass h hk)) ?_)
  · rintro k rfl
    exact Or.inl rfl
  · rintro k rfl
    exact Or.inr rfl

theorem sameHub_in_turn (h : Independent m a b) (ctx ctx' : Context) :
    SameHub (Run.afterPass ctx' b (Run.afterPass ctx a m))
      (Run.afterPass ctx a (Run.afterPass ctx' b m)) := by
  have hleft := twins_in_turn h ctx ctx'
  have hright := (twins_in_turn h.symm ctx' ctx).symm
  have houtside := elsewhere h ctx ctx'
  have houtside' := elsewhere h.symm ctx' ctx
  obtain ⟨n, ws, es, hn, hn'⟩ := (pass_after_other h ctx ctx').2.grown
  obtain ⟨l, ws', es', hl, hl'⟩ := (pass_after_other h.symm ctx' ctx).2.grown
  refine ⟨fun n => ?_, fun k => ?_, Table.ext_get? fun k => ?_, hleft.addOns, ?_, ?_, ?_,
    Table.ext_get? fun op => ?_, ?_⟩
  · by_cases ha : n = a
    · exact hleft.clusters n (Or.inl ha)
    by_cases hb : n = b
    · exact hright.clusters n (Or.inl hb)
    rw [houtside.clusters n fun hn => hn.elim ha hb, houtside'.clusters n fun hn => hn.elim hb ha]
  · by_cases ha : Touchable a m k
    · exact hleft.works k ha
    by_cases hb : Touchable b m k
    · exact hright.works k hb
    rw [houtside.works k fun hk => hk.elim ha hb, houtside'.works k fun hk => hk.elim hb ha]
  · by_cases ha : k.nspace = a
    · exact hleft.secrets k ha
    by_cases hb : k.nspace = b
    · exact hright.secrets k hb
    rw [houtside.secrets k fun hk => hk.elim ha hb, houtside'.secrets k fun hk => hk.elim hb ha]
  · rw [hl'.version, hn.version, hn'.version, hl.version]
    omega
  · rw [hl'.writes, hn.writes, hn'.writes, hl.writes, List.append_assoc, List.append_assoc]
    exact List.perm_append_comm.append_left _
  · rw [hl'.events, hn.events, hn'.events, hl.events, List.append_assoc, List.append_assoc]
    exact List.perm_append_comm.append_left _
  · rw [hleft.left.quiet.failures, hleft.right.quiet.failures]
  · rw [hleft.left.quiet.conflicts, hleft.right.quiet.conflicts]

/-- Passes over independent clusters commute: each comes to the same whether it is the first or
the second, and the hub is the same after both. -/
theorem passes_commute (h : Independent m a b) (ctx ctx' : Context) :
    Run.outcome ctx a m = Run.outcome ctx a (Run.afterPass ctx' b m) ∧
      Run.outcome ctx' b (Run.afterPass ctx a m) = Run.outcome ctx' b m ∧
      SameHub (Run.afterPass ctx' b (Run.afterPass ctx a m))
        (Run.afterPass ctx a (Run.afterPass ctx' b m)) :=
  ⟨(pass_after_other h ctx ctx').1.symm, (pass_after_other h.symm ctx' ctx).1,
    sameHub_in_turn h ctx ctx'⟩

def isApart (m : Memory) (a b : String) : Bool :=
  (m.clusters.get? a).all (·.hosting? != some b) && m.works.entries.all fun e =>
    e.2.metadata.label? Names.hostedCluster != some b ||
      e.1.name != Names.klusterletWork a && e.1.name != Names.kubeconfigWork a

theorem Apart.of_test (h : isApart m a b = true) : Apart m a b := by
  rw [isApart, Bool.and_eq_true, List.all_eq_true] at h
  obtain ⟨hhosting, hworks⟩ := h
  refine ⟨fun c hc => ?_, fun k w hw => ?_⟩
  · rw [hc] at hhosting
    exact bne_iff_ne.mp hhosting
  · have hfits := hworks (k, w) (Table.mem_entries_iff.mpr hw.1)
    rw [hw.2] at hfits
    simpa using hfits

/-- To the same hosting cluster the cluster `a` is brought, while `b` is taken from it. -/
def shared : Memory :=
  Run.after "a" (setUp (hosted "a" "h") ++ [
    .change (.cluster (held (deleting (hosted "b" "h")))),
    .change (.work (labelled "h" (Names.klusterletWork "b") "b"))]) {}

theorem passes_commute_of_shared :
    Independent shared "a" "b" ∧
      (Run.afterPass { now := now } "b" (Run.afterPass { now := now } "a" shared)).writes ≠
        (Run.afterPass { now := now } "a" (Run.afterPass { now := now } "b" shared)).writes ∧
      Run.outcome { now := now } "a" shared =
        Run.outcome { now := now } "a" (Run.afterPass { now := now } "b" shared) ∧
      Run.outcome { now := now } "b" (Run.afterPass { now := now } "a" shared) =
        Run.outcome { now := now } "b" shared ∧
      SameHub (Run.afterPass { now := now } "b" (Run.afterPass { now := now } "a" shared))
        (Run.afterPass { now := now } "a" (Run.afterPass { now := now } "b" shared)) := by
  have hquiet : shared.Quiet := by
    refine ⟨fun op => ?_, by decide +kernel⟩
    cases op <;> rfl
  have hindependent : Independent shared "a" "b" := {
    named := Run.named_after _ Hub.Memory.named_empty (by decide +kernel)
    quiet := hquiet
    ne := by decide
    plain := by decide
    plain' := by decide
    apart := Apart.of_test (by decide +kernel)
    apart' := Apart.of_test (by decide +kernel) }
  exact ⟨hindependent, by decide +kernel,
    passes_commute hindependent { now := now } { now := now }⟩

end Independence
end Hosting
