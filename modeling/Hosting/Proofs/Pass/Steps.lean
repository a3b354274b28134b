import Hosting.Proofs.ClusterWorks
import Hosting.Proofs.HostedWork
import Hosting.Proofs.Hub.Update

/-!
# What the steps of a pass come to

`Meets` is said of a pass as of the dialogue that it is.  Each step that passes share has a
lemma that leads from the state before it to what is wanted at the end: one hypothesis for
each way in which the step can come out.
-/

namespace Hosting
namespace Pass

open Hub (Request Memory Lax Open)
open Hub.Memory (Alike Within Gives Updated)

variable {α β : Type} {t : Instant} {allowed : Request → Memory → Prop} {m : Memory}

/-! ## Passes as dialogues -/

/-- Held with the hub at the time `t`, the pass asks what is admitted, and ends as wanted. -/
def Meets (t : Instant) (allowed : Request → Memory → Prop)
    (post : Except Failure α → Memory → Prop) (p : Pass α) (m : Memory) : Prop :=
  p.run.Meets (Memory.answer t) allowed post m

/-- A value is gone on with; a failure is the end. -/
def Next (t : Instant) (allowed : Request → Memory → Prop)
    (post : Except Failure β → Memory → Prop) (f : α → Pass β) :
    Except Failure α → Memory → Prop
  | .ok a, m => Meets t allowed post (f a) m
  | .error e, m => post (.error e) m

theorem meets_pure {post : Except Failure α → Memory → Prop} {a : α} :
    Meets t allowed post (pure a) m ↔ post (.ok a) m := Iff.rfl

theorem meets_throw {post : Except Failure α → Memory → Prop} {f : Failure} :
    Meets t allowed post (throw f) m ↔ post (.error f) m := Iff.rfl

theorem meets_bind {post : Except Failure β → Memory → Prop} {p : Pass α} {f : α → Pass β} :
    Meets t allowed post (p >>= f) m ↔ Meets t allowed (Next t allowed post f) p m := by
  unfold Meets
  rw [ExceptT.run_bind, Dialogue.meets_bind]
  constructor <;>
  · intro h
    refine h.imp (fun _ _ hq => hq) fun r m' hr => ?_
    cases r <;> exact hr

theorem meets_ofTalk {post : Except Failure α → Memory → Prop}
    {d : Hub.Talk (Except Failure α)} :
    Meets t allowed post (ofTalk d) m ↔ d.Meets (Memory.answer t) allowed post m := Iff.rfl

theorem meets_attempt {post : Except Failure (Except Failure α) → Memory → Prop} {p : Pass α} :
    Meets t allowed post (attempt p) m ↔ Meets t allowed (fun r m' => post (.ok r) m') p m :=
  Dialogue.meets_map

/-- A question that is not refused is gone on from what it did. -/
theorem ask_meets {q : Request} {did : q.Value → Memory → Prop}
    {post : Except Failure q.Value → Memory → Prop} (h : Gives m did (m.answer t q))
    (ha : allowed q m) (herr : ∀ f m', Alike m m' → post (.error f) m')
    (hok : ∀ a m', did a m' → post (.ok a) m') : Meets t allowed post (ask q) m := by
  refine Dialogue.meets_map.mpr (Hub.ask_meets h ha (fun e m' hm => ?_) fun a m' hd => ?_)
  · exact herr _ m' hm
  · exact hok a m' hd

theorem getCluster_meets (ho : Open allowed) {n : String} {x : Option ManagedCluster}
    {post : Except Failure (Option ManagedCluster) → Memory → Prop} (h : m.clusters.get? n = x)
    (hok : post (.ok x) m) : Meets t allowed post (ask (.getCluster n)) m := by
  subst h
  exact Dialogue.meets_map.mpr ⟨ho _ _ trivial, hok⟩

theorem getWork_meets (ho : Open allowed) {k : ObjectKey} {x : Option ManifestWork}
    {post : Except Failure (Option ManifestWork) → Memory → Prop} (h : m.works.get? k = x)
    (hok : post (.ok x) m) : Meets t allowed post (ask (.getWork k)) m := by
  subst h
  exact Dialogue.meets_map.mpr ⟨ho _ _ trivial, hok⟩

theorem getSecret_meets (ho : Open allowed) {k : ObjectKey} {x : Option Secret}
    {post : Except Failure (Option Secret) → Memory → Prop} (h : m.secrets.get? k = x)
    (hok : post (.ok x) m) : Meets t allowed post (ask (.getSecret k)) m := by
  subst h
  exact Dialogue.meets_map.mpr ⟨ho _ _ trivial, hok⟩

theorem publish_meets (hl : Lax allowed) {c : ManagedCluster} {e : Hub.Event}
    {post : Except Failure Unit → Memory → Prop} (h : ∀ m', Alike m m' → post (.ok ()) m') :
    Meets t allowed post (publish c e) m := by
  refine Dialogue.meets_map.mpr ⟨hl _ _ id, ?_⟩
  exact h _ ⟨rfl, rfl, rfl, rfl⟩

/-- A loop keeps what each round keeps of the state and of the items still to come. -/
theorem forM_meets (inv : List β → Memory → Prop) {post : Except Failure Unit → Memory → Prop}
    {f : β → Pass Unit} (hstep : ∀ x rest m', inv (x :: rest) m' →
      Meets t allowed (fun r m'' => match r with
        | .ok () => inv rest m''
        | .error e => post (.error e) m'') (f x) m')
    (hdone : ∀ m', inv [] m' → post (.ok ()) m') {xs : List β} (h : inv xs m) :
    Meets t allowed post (xs.forM f) m := by
  induction xs generalizing m with
  | nil => exact hdone m h
  | cons x rest ih =>
    refine meets_bind.mpr ((hstep x rest m h).imp (fun _ _ hq => hq) fun r m' hr => ?_)
    cases r with
    | error e => exact hr
    | ok u => exact ih hr

/-! ## Passes that do not fail -/

/-- A value that is given fits the state; of a failure nothing is said. -/
def Yields (post : α → Memory → Prop) : Except Failure α → Memory → Prop
  | .ok a, m => post a m
  | .error _, _ => True

theorem meets_bind_yields {post : β → Memory → Prop} {p : Pass α} {f : α → Pass β} :
    Meets t allowed (Yields post) (p >>= f) m ↔
      Meets t allowed (Yields fun a m' => Meets t allowed (Yields post) (f a) m') p m := by
  rw [meets_bind]
  constructor <;>
  · intro h
    refine h.imp (fun _ _ hq => hq) fun r m' hr => ?_
    cases r <;> exact hr

theorem Meets.yields_imp {post post' : α → Memory → Prop} {p : Pass α}
    (h : Meets t allowed (Yields post) p m) (hp : ∀ a m', post a m' → post' a m') :
    Meets t allowed (Yields post') p m := by
  refine h.imp (fun _ _ hq => hq) fun r m' hr => ?_
  cases r with
  | error f => trivial
  | ok a => exact hp a m' hr

/-! ## Listings -/

/-- A listing is the one of the state it is made in, unless it fails. -/
theorem listWorks_meets (ho : Open allowed) {c : ManagedCluster} (hnamed : c.metadata.IsNamed)
    {post : Except Failure ClusterWorks → Memory → Prop}
    (herr : m.failures.get? .listWorks ≠ none → ∀ f m', Alike m m' → post (.error f) m')
    (hok : post (.ok (m.worksOf c)) m) : Meets t allowed post (listWorks c) m := by
  have hask {β : Type} {nspace : String} {selector : Option String}
      {post : Except Failure β → Memory → Prop} {f : List ManifestWork → Pass β}
      (herr : m.failures.get? .listWorks ≠ none → ∀ e m', Alike m m' → post (.error e) m')
      (hok : Meets t allowed post (f (m.worksIn nspace selector)) m) :
      Meets t allowed post (ask (.listWorks nspace selector) >>= f) m := by
    refine meets_bind.mpr (Dialogue.meets_map.mpr ⟨ho _ _ trivial, ?_⟩)
    show Next t allowed post f (Except.mapError _ (m.unlessFailing _ _).1) (m.unlessFailing _ _).2
    cases hf : m.failures.get? .listWorks with
    | none =>
      rw [Hub.Memory.unlessFailing_of_none hf]
      exact hok
    | some text =>
      unfold Hub.Memory.unlessFailing
      rw [hf]
      exact herr (by rw [hf]; exact Option.some_ne_none _) _ _ ⟨rfl, rfl, rfl, rfl⟩
  unfold listWorks
  rw [ManagedCluster.anyName_eq hnamed]
  refine hask herr ?_
  unfold Hub.Memory.worksOf at hok
  cases hh : c.hosting? with
  | none =>
    rw [hh] at hok
    exact hok
  | some h =>
    rw [hh] at hok
    exact hask herr hok

/-! ## Conditions -/

/-- The cluster `d'` is `d` with the conditions `new` entered. -/
structure Reported (new : List Condition) (d d' : ManagedCluster) : Prop where
  bare : d'.bare = d.bare
  finalizers : d'.metadata.finalizers = d.metadata.finalizers
  merged : ∃ now, d'.conditions = (Conditions.merge now new d.conditions).1

variable {c d : ManagedCluster}

namespace Reported

variable {new : List Condition} {d' : ManagedCluster}

theorem shows (h : Reported new d d') (hnew : new.Pairwise (·.type ≠ ·.type)) {x : Condition}
    (hx : x ∈ new) : Pass.shows d' x = true := by
  obtain ⟨now, hmerged⟩ := h.merged
  unfold Pass.shows
  rw [hmerged]
  exact Conditions.find?_merge now d.conditions hnew hx

theorem said (h : Reported new d d') :
    d'.conditions.said = (new.map Condition.entry).foldl Conditions.enter d.conditions.said := by
  obtain ⟨now, hmerged⟩ := h.merged
  rw [hmerged, Conditions.said_merge]

theorem tended (h : Reported new d d') (hnew : ∀ x ∈ new, x.type ∈ ManagedCluster.progressTypes) :
    d.Tended d' := by
  obtain ⟨now, hmerged⟩ := h.merged
  refine ⟨h.bare, congrArg _ h.finalizers, ?_, ?_⟩
  · rw [hmerged]
    exact Conditions.besides_merge hnew
  · rw [hmerged]
    exact Conditions.types_merge

end Reported

theorem mergeConditions_nameText {now : Instant} {new : List Condition} {e : ManagedCluster}
    (h : mergeConditions now new d = some e) : e.nameText = d.nameText := by
  unfold mergeConditions at h
  dsimp only at h
  split at h
  · cases h
  · cases h
    rfl

theorem reported_of_shown {new : List Condition} (h : ∀ x ∈ new, shows d x = true) :
    Reported new d d :=
  ⟨rfl, rfl, ⟨0, 0⟩, (Conditions.merge_fst_of_found h).symm⟩

theorem reported_of_none {now : Instant} {new : List Condition}
    (h : mergeConditions now new d = none) : Reported new d d := by
  have hnil : (Conditions.merge now new d.conditions).2 = [] := by
    simpa [mergeConditions] using h
  exact ⟨rfl, rfl, now, (Conditions.merge_fst_of_nil hnil).symm⟩

theorem reported_of_some {now : Instant} {new : List Condition} {e d' : ManagedCluster}
    (h : mergeConditions now new d = some e)
    (hd : d.Revised d.metadata.finalizers e.status d') : Reported new d d' := by
  refine ⟨hd.bare, hd.finalizers, now, ?_⟩
  unfold mergeConditions at h
  dsimp only at h
  split at h
  · cases h
  · cases h
    unfold ManagedCluster.conditions
    rw [hd.status]
    rfl

theorem publishAll_meets (hl : Lax allowed) {es : List Hub.Event}
    {post : Except Failure Unit → Memory → Prop} (h : ∀ m', Alike m m' → post (.ok ()) m') :
    Meets t allowed post (es.forM (publish c)) m := by
  refine forM_meets (fun _ m' => Alike m m') (fun e rest m' hm => ?_) h (Alike.refl m)
  exact publish_meets hl fun m'' hm' => hm.trans hm'

/-- The status is written once, or not at all when it shows the conditions already. -/
theorem setConditions_meets (hl : Lax allowed) {ctx : Context} {new : List Condition}
    (hnamed : c.metadata.IsNamed) (hd : m.clusters.get? c.nameText = some d)
    (hname : d.nameText = c.nameText) (hstatus : d.status = c.status)
    {post : Except Failure Unit → Memory → Prop}
    (herr : ∀ f m', Alike m m' → post (.error f) m')
    (hok : ∀ d' m', Within { clusters := (· = c.nameText) } m m' →
      m'.clusters.get? c.nameText = some d' → Reported new d d' → post (.ok ()) m') :
    Meets t allowed post (setConditions ctx c new) m := by
  unfold setConditions
  rw [ManagedCluster.anyName_eq hnamed]
  split
  · next hall =>
    refine hok d m (Within.refl _ m) hd (reported_of_shown fun x hx => ?_)
    have hx := List.all_eq_true.mp hall x hx
    unfold shows ManagedCluster.conditions at hx ⊢
    rwa [hstatus]
  refine meets_bind.mpr (Dialogue.meets_map.mpr (Hub.updateCluster_meets hl hd ?_ ?_ ?_ ?_ _))
  · intro e he
    rw [mergeConditions_nameText he, hname]
  · intro e seen m' hm
    exact herr _ m' hm
  · intro he seen m' hseen hm
    refine meets_bind.mpr (meets_ofTalk.mpr ?_)
    dsimp only [Next]
    rw [hseen]
    refine publishAll_meets hl fun m'' hm' => ?_
    have hm := hm.trans hm'
    exact hok d m'' (Within.of_alike _ hm) (hm.clusters ▸ hd) (reported_of_none he)
  · intro e he seen m' hseen hu
    refine meets_bind.mpr (meets_ofTalk.mpr ?_)
    dsimp only [Next]
    rw [hseen]
    refine publishAll_meets hl fun m'' hm' => ?_
    obtain ⟨d', hd', hrevised⟩ := hu.stored
    exact hok d' m'' (hu.within.trans (Within.of_alike _ hm')) (hm'.clusters ▸ hd')
      (reported_of_some he hrevised)

/-! ## The finalizer -/

theorem updateFinalizers_meets (hl : Lax allowed) {ctx : Context}
    {edit : ManagedCluster → Option ManagedCluster} {ev : Hub.Event}
    (hnamed : c.metadata.IsNamed) (hd : m.clusters.get? c.nameText = some d)
    (hname : ∀ e, edit d = some e → e.nameText = c.nameText)
    {post : Except Failure Unit → Memory → Prop}
    (herr : ∀ f m', Alike m m' → post (.error f) m')
    (hsame : edit d = none → ∀ m', Alike m m' → post (.ok ()) m')
    (hdone : ∀ e, edit d = some e → ∀ m', Updated .finalizers c.nameText d e m m' →
      post (.ok ()) m') :
    Meets t allowed post (updateFinalizers ctx c edit ev) m := by
  unfold updateFinalizers
  rw [ManagedCluster.anyName_eq hnamed]
  refine meets_bind.mpr (Dialogue.meets_map.mpr (Hub.updateCluster_meets hl hd hname ?_ ?_ ?_ _))
  · intro e seen m' hm
    exact herr _ m' hm
  · intro he seen m' _ hm
    exact hsame he m' hm
  · intro e he seen m' _ hu
    refine publish_meets hl fun m'' hm' => ?_
    refine hdone e he m'' ⟨hu.within.trans (Within.of_alike _ hm'), ?_⟩
    rw [hm'.clusters]
    exact hu.stored

/-- Whether the finalizer is on a cluster that is kept in step with a number of works.  A
copy that shows the finalizer as it should be stands for the cluster, however this is. -/
def heldAfter (copy : Bool) (works : Nat) (held : Bool) : Bool :=
  if works = 0 then !copy && held else !copy || held

theorem removeFinalizer_eq_none (h : removeFinalizer d = none) : d.isHeld = false := by
  rw [removeFinalizer, Option.map_eq_none_iff] at h
  exact Metadata.dropFinalizer?_eq_none_iff.mp h

theorem removeFinalizer_eq_some {e : ManagedCluster} (h : removeFinalizer d = some e) :
    e.nameText = d.nameText ∧
      e.metadata.finalizers = Finalizers.released d.metadata.finalizers := by
  rw [removeFinalizer, Option.map_eq_some_iff] at h
  obtain ⟨m', hm, rfl⟩ := h
  refine ⟨?_, Metadata.finalizers_of_dropFinalizer? hm⟩
  rw [Metadata.dropFinalizer?, Option.ite_none_right_eq_some, Option.some.injEq] at hm
  rw [← hm.2]
  rfl

theorem addFinalizer_eq_none (h : addFinalizer d = none) (hlive : d.isDeleting = false) :
    d.isHeld = true := by
  rw [addFinalizer, hlive, if_neg Bool.false_ne_true, Option.map_eq_none_iff] at h
  exact Metadata.addFinalizer?_eq_none_iff.mp h

theorem addFinalizer_eq_some {e : ManagedCluster} (h : addFinalizer d = some e) :
    e.nameText = d.nameText ∧ e.metadata.finalizers = Finalizers.held d.metadata.finalizers := by
  rw [addFinalizer, Option.ite_none_left_eq_some, Option.map_eq_some_iff] at h
  obtain ⟨_, m', hm, rfl⟩ := h
  refine ⟨?_, Metadata.finalizers_of_addFinalizer? hm⟩
  rw [Metadata.addFinalizer?, Option.ite_none_left_eq_some, Option.some.injEq] at hm
  rw [← hm.2]
  rfl

/-- The cluster `d'` is `d` brought in step with a number of works by a copy that shows the
finalizer or does not. -/
structure Synced (copy : Bool) (works : Nat) (d d' : ManagedCluster) : Prop where
  bare : d'.bare = d.bare
  status : d'.status = d.status
  finalizers : d'.metadata.finalizers =
    if works = 0 then
      if copy then Finalizers.released d.metadata.finalizers else d.metadata.finalizers
    else if copy then d.metadata.finalizers else Finalizers.held d.metadata.finalizers

namespace Synced

variable {copy : Bool} {works : Nat} {d' : ManagedCluster}

theorem held (h : Synced copy works d d') : d'.isHeld = heldAfter copy works d.isHeld := by
  show Finalizers.holds d'.metadata.finalizers = _
  rw [h.finalizers, heldAfter]
  by_cases hw : works = 0
  · rw [if_pos hw, if_pos hw]
    cases copy with
    | false => rfl
    | true => exact Finalizers.holds_released
  · rw [if_neg hw, if_neg hw]
    cases copy with
    | false => exact Finalizers.holds_held
    | true => rfl

theorem tended (h : Synced copy works d d') : d.Tended d' := by
  have hconditions : d'.conditions = d.conditions := by
    unfold ManagedCluster.conditions
    rw [h.status]
  refine ⟨h.bare, ?_, by rw [hconditions], hconditions ▸ List.prefix_refl _⟩
  rw [h.finalizers]
  split
  · split
    · exact Finalizers.others_released
    · rfl
  · split
    · rfl
    · exact Finalizers.others_held

end Synced

theorem updateFinalizers_live_meets (hl : Lax allowed) {ctx : Context}
    {fs : Option (List String)} {edit : ManagedCluster → Option ManagedCluster} {ev : Hub.Event}
    (hnamed : c.metadata.IsNamed) (hd : m.clusters.get? c.nameText = some d)
    (hname : d.nameText = c.nameText) (hlive : d.isDeleting = false)
    (hnone : edit d = none → d.metadata.finalizers = fs)
    (hsome : ∀ e, edit d = some e → e.nameText = d.nameText ∧ e.metadata.finalizers = fs)
    {post : Except Failure Unit → Memory → Prop} (herr : ∀ f m', Alike m m' → post (.error f) m')
    (hok : ∀ d' m', Within { clusters := (· = c.nameText) } m m' →
      m'.clusters.get? c.nameText = some d' → d.Revised fs d.status d' → post (.ok ()) m') :
    Meets t allowed post (updateFinalizers ctx c edit ev) m := by
  refine updateFinalizers_meets hl hnamed hd (fun e he => ?_) herr (fun he m' hm => ?_)
    fun e he m' hu => ?_
  · rw [(hsome e he).1, hname]
  · exact hok d m' (Within.of_alike _ hm) (hm.clusters ▸ hd) ⟨rfl, hnone he, rfl⟩
  · rcases hu.stored with ⟨d', hd', hrevised⟩ | ⟨hdel, -⟩
    · refine hok d' m' hu.within hd' ⟨hrevised.bare, ?_, hrevised.status⟩
      rw [hrevised.finalizers, (hsome e he).2]
    · rw [hlive] at hdel
      cases hdel

/-- A live cluster is kept in step with its works by the copy that was read of it. -/
theorem syncFinalizer_live_meets (hl : Lax allowed) {ctx : Context} {works : Nat}
    (hnamed : c.metadata.IsNamed) (hd : m.clusters.get? c.nameText = some d)
    (hbare : d.bare = c.bare) (hlive : c.isDeleting = false)
    {post : Except Failure Unit → Memory → Prop}
    (herr : ∀ f m', Alike m m' → post (.error f) m')
    (hok : ∀ d' m', Within { clusters := (· = c.nameText) } m m' →
      m'.clusters.get? c.nameText = some d' → Synced c.isHeld works d d' → post (.ok ()) m') :
    Meets t allowed post (syncFinalizer ctx c works) m := by
  have hname := ManagedCluster.nameText_of_bare hbare
  have hdlive : d.isDeleting = false := (ManagedCluster.isDeleting_of_bare hbare).trans hlive
  unfold syncFinalizer
  show Meets t allowed post (if works = 0 then if c.isHeld then _ else _
    else if !c.isHeld && !c.isDeleting then _ else _) m
  by_cases hw : works = 0
  · rw [if_pos hw]
    cases hc : c.isHeld with
    | false =>
      rw [hc] at hok
      exact hok d m (Within.refl _ m) hd ⟨rfl, rfl, by rw [if_pos hw]; rfl⟩
    | true =>
      rw [if_pos rfl]
      rw [hc] at hok
      refine updateFinalizers_live_meets hl hnamed hd hname hdlive (fun he => ?_)
        (fun e he => removeFinalizer_eq_some he) herr fun d' m' hwithin hd' hr => ?_
      · exact (Finalizers.released_of_not_holds (removeFinalizer_eq_none he)).symm
      · exact hok d' m' hwithin hd' ⟨hr.bare, hr.status, by rw [if_pos hw]; exact hr.finalizers⟩
  · rw [if_neg hw]
    cases hc : c.isHeld with
    | true =>
      rw [hc] at hok
      exact hok d m (Within.refl _ m) hd ⟨rfl, rfl, by rw [if_neg hw]; rfl⟩
    | false =>
      rw [hlive, Bool.not_false, Bool.and_self, if_pos rfl]
      rw [hc] at hok
      refine updateFinalizers_live_meets hl hnamed hd hname hdlive (fun he => ?_)
        (fun e he => addFinalizer_eq_some he) herr fun d' m' hwithin hd' hr => ?_
      · exact (Finalizers.held_of_holds (addFinalizer_eq_none he hdlive)).symm
      · exact hok d' m' hwithin hd' ⟨hr.bare, hr.status, by rw [if_neg hw]; exact hr.finalizers⟩

/-- The finalizer is off the stored cluster `d`, or that is gone with it: it had no other. -/
inductive Released (name : String) (d : ManagedCluster) (m' : Memory) : Prop where
  | kept {d' : ManagedCluster} (stored : m'.clusters.get? name = some d')
    (revised : d.Revised (Finalizers.released d.metadata.finalizers) d.status d')
  | gone (stored : m'.clusters.get? name = none)
    (others : Finalizers.others d.metadata.finalizers = [])

/-- On a deleting cluster the finalizer is only ever taken off, and only without works. -/
theorem syncFinalizer_deleting_meets (hl : Lax allowed) {ctx : Context} {works : Nat}
    (hnamed : c.metadata.IsNamed) (hd : m.clusters.get? c.nameText = some d)
    (hbare : d.bare = c.bare) (hfinalizers : d.metadata.finalizers = c.metadata.finalizers)
    (hdel : c.isDeleting = true)
    {post : Except Failure Unit → Memory → Prop}
    (hsame : works ≠ 0 → post (.ok ()) m) (herr : ∀ f m', Alike m m' → post (.error f) m')
    (hoff : works = 0 → ∀ m', Within { clusters := (· = c.nameText) } m m' →
      Released c.nameText d m' → post (.ok ()) m') :
    Meets t allowed post (syncFinalizer ctx c works) m := by
  have hkept {m' : Memory} (hm : Alike m m') (hnot : d.isHeld = false) :
      Released c.nameText d m' :=
    Released.kept (hm.clusters ▸ hd) ⟨rfl, (Finalizers.released_of_not_holds hnot).symm, rfl⟩
  unfold syncFinalizer
  show Meets t allowed post (if works = 0 then if c.isHeld then _ else _
    else if !c.isHeld && !c.isDeleting then _ else _) m
  by_cases hw : works = 0
  · rw [if_pos hw]
    cases hc : c.isHeld with
    | false =>
      have hnot : d.isHeld = false := (ManagedCluster.isHeld_congr hfinalizers).trans hc
      exact hoff hw m (Within.refl _ m) (hkept (Alike.refl m) hnot)
    | true =>
      rw [if_pos rfl]
      refine updateFinalizers_meets hl hnamed hd (fun e he => ?_) herr (fun he m' hm => ?_)
        fun e he m' hu => hoff hw m' hu.within ?_
      · rw [(removeFinalizer_eq_some he).1, ManagedCluster.nameText_of_bare hbare]
      · exact hoff hw m' (Within.of_alike _ hm) (hkept hm (removeFinalizer_eq_none he))
      · rcases hu.stored with ⟨d', hd', hrevised⟩ | ⟨-, hnone, hgone⟩
        · rw [(removeFinalizer_eq_some he).2] at hrevised
          exact Released.kept hd' hrevised
        · rw [(removeFinalizer_eq_some he).2] at hnone
          exact Released.gone hgone (Finalizers.others_of_released hnone)
  · rw [if_neg hw, hdel, Bool.not_true, Bool.and_false, if_neg Bool.false_ne_true]
    exact hsame hw

/-! ## Works -/

/-- The work `w` carries what `desired` asks for. -/
structure Applied (desired w : ManifestWork) : Prop where
  spec : w.spec = desired.spec ∨ w.spec.agrees desired.spec = true
  label : ∀ l v, desired.metadata.label? l = some v → w.metadata.label? l = some v

theorem applied_of_fulfils {desired w : ManifestWork} (h : w.fulfils desired = true) :
    Applied desired w := by
  unfold ManifestWork.fulfils at h
  rw [Bool.and_eq_true, Bool.and_eq_true] at h
  obtain ⟨⟨hspec, hlabels⟩, -⟩ := h
  refine ⟨Or.inr hspec, fun l v hl => ?_⟩
  unfold Metadata.label? at hl ⊢
  rw [Option.bind_eq_some_iff] at hl
  obtain ⟨ls, hls, hv⟩ := hl
  rw [ManifestWork.covers, hls, Option.map_some, Option.all_some, List.all_eq_true] at hlabels
  exact beq_iff_eq.mp (hlabels (l, v) (Table.mem_entries_iff.mpr hv))

/-- The work `w` is what `desired` makes of `old`, under whatever version. -/
def Brought (desired : ManifestWork) (old : Option ManifestWork) (w : ManifestWork) : Prop :=
  w.unversioned = (desired.brought old).unversioned

namespace Brought

variable {desired w : ManifestWork} {old : Option ManifestWork}

theorem fulfils (h : Brought desired old w) (hself : desired.spec.agrees desired.spec = true) :
    w.fulfils desired = true :=
  (ManifestWork.fulfils_of_unversioned h desired).trans (ManifestWork.fulfils_brought hself old)

theorem key (h : Brought desired old w) (hold : ∀ v, old = some v → v.key = desired.key) :
    w.key = desired.key :=
  (ManifestWork.key_of_unversioned h).trans (ManifestWork.key_brought hold)

end Brought

theorem applyWork_meets (hl : Lax allowed) {desired : ManifestWork}
    (hnamed : desired.metadata.IsNamed)
    (hput : ∀ w, w.key = desired.key → allowed (.createWork w) m ∧ allowed (.replaceWork w) m)
    (hkey : ∀ w, m.works.get? desired.key = some w → w.key = desired.key)
    {post : Except Failure ManifestWork → Memory → Prop}
    (herr : ∀ f m', Alike m m' → post (.error f) m')
    (hok : ∀ w m', Within { works := (· = desired.key) } m m' →
      m'.works.get? desired.key = some w → Brought desired (m.works.get? desired.key) w →
        post (.ok w) m') :
    Meets t allowed post (applyWork c desired) m := by
  unfold applyWork
  rw [ManifestWork.anyKey_eq hnamed]
  cases hw : m.works.get? desired.key with
  | none =>
    rw [hw] at hok
    refine meets_bind.mpr (getWork_meets hl.reads hw ?_)
    refine meets_bind.mpr (ask_meets (Hub.Memory.createWork_gives desired) (hput _ rfl).1 herr ?_)
    rintro created m' ⟨-, hcreated, hwithin, hm'⟩
    refine meets_bind.mpr (publish_meets hl fun m'' hm => ?_)
    refine hok created m'' (hwithin.trans (Within.of_alike _ hm)) (hm.works ▸ hm') ?_
    rw [hcreated]
    rfl
  | some existing =>
    rw [hw] at hok
    refine meets_bind.mpr (getWork_meets hl.reads hw ?_)
    dsimp only [Next]
    split
    · next hful =>
      refine hok existing m (Within.refl _ m) hw ?_
      unfold Brought
      rw [ManifestWork.brought_of_fulfils hful]
    · next hnot =>
      have hk : (existing.updatedTo desired).key = desired.key := hkey existing hw
      refine meets_bind.mpr (ask_meets (Hub.Memory.replaceWork_gives _) (hput _ hk).2 herr ?_)
      rintro stored m' ⟨old, hold, hstored, hwithin, hm'⟩
      rw [hk] at hold hwithin hm'
      rw [hw, Option.some.injEq] at hold
      refine meets_bind.mpr (publish_meets hl fun m'' hm => ?_)
      refine hok stored m'' (hwithin.trans (Within.of_alike _ hm)) (hm.works ▸ hm') ?_
      unfold Brought
      rw [ManifestWork.brought_some, if_neg hnot, hstored, ← hold]
      rfl

end Pass
end Hosting
