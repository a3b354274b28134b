import Hosting.Proofs.Hub.Twins
import Hosting.Reconcile

/-!
# Passes side by side

A pass over a cluster is made in two hubs that look the same for it.  Each of its steps finds
the same there and leaves twins again, so that the whole pass comes to the same in both
(`abreast_reconcile`), whatever else the two hubs hold.
-/

namespace Hosting
namespace Pass

open Hub (Memory Part Request)

variable {α β : Type} {t : Instant} {v : Sight} {m m' : Memory} {ctx : Context}
  {c : ManagedCluster}

/-- Neither fails, and the values are the same as far as `same` tells. -/
def Well (same : α → α → Prop) (r r' : Except Failure α) : Prop :=
  ∃ a a', r = .ok a ∧ r' = .ok a' ∧ same a a'

/-- Neither fails, or both do in the same way. -/
def Matches (same : α → α → Prop) (r r' : Except Failure α) : Prop :=
  Well same r r' ∨ ∃ f, r = .error f ∧ r' = .error f

/-- The passes end as `ends` tells, one in each hub, and the hubs go on alike. -/
def Abreast (t : Instant) (v : Sight) (ends : Except Failure α → Except Failure α → Prop)
    (p p' : Pass α) (m m' : Memory) : Prop :=
  ends (m.talk t p.run).1 (m'.talk t p'.run).1 ∧
    Advanced v m m' (m.talk t p.run).2 (m'.talk t p'.run).2

/-! ## Rules -/

section Rules

variable {same : α → α → Prop} {ends : Except Failure β → Except Failure β → Prop}
  {p p' : Pass α} {f f' : α → Pass β}

theorem talk_bind_ok {a : α} (h : (m.talk t p.run).1 = .ok a) (f : α → Pass β) :
    m.talk t (p >>= f).run = (m.talk t p.run).2.talk t (f a).run := by
  have h : (Dialogue.run (Memory.answer t) p.run m).1 = .ok a := h
  show Dialogue.run _ (p >>= f).run m = _
  rw [ExceptT.run_bind, Dialogue.run_bind, h]
  rfl

theorem talk_bind_error {e : Failure} (h : (m.talk t p.run).1 = .error e) (f : α → Pass β) :
    m.talk t (p >>= f).run = (.error e, (m.talk t p.run).2) := by
  have h : (Dialogue.run (Memory.answer t) p.run m).1 = .error e := h
  show Dialogue.run _ (p >>= f).run m = _
  rw [ExceptT.run_bind, Dialogue.run_bind, h]
  rfl

/-- The outcome of an attempt is a value to go on with. -/
theorem talk_attempt (p : Pass α) (m : Memory) :
    m.talk t (attempt p).run = (.ok (m.talk t p.run).1, (m.talk t p.run).2) := by
  show Dialogue.run _ (Except.ok <$> p.run) m = _
  rw [map_eq_pure_bind, Dialogue.run_bind]
  rfl

theorem abreast_pure (h : Twins v m m') {b b' : β} (hb : ends (.ok b) (.ok b')) :
    Abreast t v ends (pure b) (pure b') m m' := ⟨hb, Advanced.refl h⟩

theorem abreast_unit (h : Twins v m m') :
    Abreast t v (Well fun _ _ => True) (pure ()) (pure ()) m m' :=
  abreast_pure h ⟨(), (), rfl, rfl, trivial⟩

theorem abreast_throw (h : Twins v m m') (e : Failure) :
    Abreast t v (Matches same) (throw e) (throw e) m m' :=
  ⟨Or.inr ⟨e, rfl, rfl⟩, Advanced.refl h⟩

theorem Abreast.imp {ends' : Except Failure β → Except Failure β → Prop} {q q' : Pass β}
    (hp : Abreast t v ends q q' m m') (h : ∀ r r', ends r r' → ends' r r') :
    Abreast t v ends' q q' m m' := ⟨h _ _ hp.1, hp.2⟩

theorem Abreast.bind (hp : Abreast t v (Well same) p p' m m')
    (hf : ∀ a a' m₁ m₁', same a a' → Twins v m₁ m₁' → Abreast t v ends (f a) (f' a') m₁ m₁') :
    Abreast t v ends (p >>= f) (p' >>= f') m m' := by
  obtain ⟨⟨a, a', ha, ha', hsame⟩, hadvanced⟩ := hp
  have hnext := hf a a' _ _ hsame hadvanced.twins
  unfold Abreast
  rw [talk_bind_ok ha, talk_bind_ok ha']
  exact ⟨hnext.1, hadvanced.trans hnext.2⟩

theorem Abreast.bind_matches {same' : β → β → Prop} (hp : Abreast t v (Matches same) p p' m m')
    (hf : ∀ a a' m₁ m₁', same a a' → Twins v m₁ m₁' →
      Abreast t v (Matches same') (f a) (f' a') m₁ m₁') :
    Abreast t v (Matches same') (p >>= f) (p' >>= f') m m' := by
  obtain ⟨hwell | ⟨e, he, he'⟩, hadvanced⟩ := hp
  · exact Abreast.bind ⟨hwell, hadvanced⟩ hf
  · unfold Abreast
    rw [talk_bind_error he, talk_bind_error he']
    exact ⟨Or.inr ⟨e, rfl, rfl⟩, hadvanced⟩

theorem Abreast.attempt (hp : Abreast t v (Well same) p p' m m') :
    Abreast t v (Well (Well same)) (attempt p) (attempt p') m m' := by
  unfold Abreast
  rw [talk_attempt, talk_attempt]
  exact ⟨⟨_, _, rfl, rfl, hp.1⟩, hp.2⟩

theorem talk_ask (m : Memory) (t : Instant) (q : Request) :
    m.talk t (ask q).run = ((m.answer t q).1.mapError .hub, (m.answer t q).2) := by
  show Dialogue.run _ ((·.mapError Failure.hub) <$> Hub.ask q) m = _
  rw [map_eq_pure_bind, Dialogue.run_bind]
  rfl

theorem talk_getWork (m : Memory) (t : Instant) (k : ObjectKey) :
    m.talk t (ask (.getWork k)).run = (.ok (m.works.get? k), m) := talk_ask m t (.getWork k)

theorem abreast_ask {q : Request} {same : q.Value → q.Value → Prop} (h : Agree v t q same m m') :
    Abreast t v (Well same) (ask q) (ask q) m m' := by
  obtain ⟨a, a', m₁, m₁', ha, ha', hsame, hadvanced⟩ := h
  unfold Abreast
  rw [talk_ask, talk_ask, ha, ha']
  exact ⟨⟨a, a', rfl, rfl, hsame⟩, hadvanced⟩

/-- What is only looked up is still so afterwards. -/
theorem abreast_look {a a' : α} (ha : m.talk t p.run = (.ok a, m))
    (ha' : m'.talk t p'.run = (.ok a', m')) (hf : Abreast t v ends (f a) (f' a') m m') :
    Abreast t v ends (p >>= f) (p' >>= f') m m' := by
  unfold Abreast
  rw [talk_bind_ok (congrArg Prod.fst ha), talk_bind_ok (congrArg Prod.fst ha'), ha, ha']
  exact hf

theorem abreast_updateCluster (h : Twins v m m') {name : String} (hname : name = v.name)
    (part : Part) {edit : ManagedCluster → Option ManagedCluster} (hedit : Blind edit)
    (retries : Nat) :
    Abreast t v (Well SameUpdate) (ofTalk (.ok <$> Hub.updateCluster name part edit retries))
      (ofTalk (.ok <$> Hub.updateCluster name part edit retries)) m m' := by
  subst hname
  have hrun (m : Memory) :
      m.talk t (ofTalk (.ok <$> Hub.updateCluster v.name part edit retries)).run =
        (.ok (m.talk t (Hub.updateCluster v.name part edit retries)).1,
          (m.talk t (Hub.updateCluster v.name part edit retries)).2) := by
    show Dialogue.run _ (Except.ok <$> Hub.updateCluster v.name part edit retries) m = _
    rw [map_eq_pure_bind, Dialogue.run_bind]
    rfl
  obtain ⟨u, u', m₁, m₁', hu, hu', hsame, hadvanced⟩ := h.tryUpdate (t := t) part hedit
  unfold Abreast
  rw [hrun, hrun, talk_updateCluster hu, talk_updateCluster hu']
  exact ⟨⟨u, u', rfl, rfl, hsame⟩, hadvanced⟩

theorem abreast_forM {g : β → Pass Unit} {xs : List β} (h : Twins v m m')
    (hg : ∀ x ∈ xs, ∀ m₁ m₁', Twins v m₁ m₁' →
      Abreast t v (Well fun _ _ => True) (g x) (g x) m₁ m₁') :
    Abreast t v (Well fun _ _ => True) (xs.forM g) (xs.forM g) m m' := by
  induction xs generalizing m m' with
  | nil => exact abreast_unit h
  | cons x xs ih =>
    refine (hg x List.mem_cons_self m m' h).bind fun _ _ m₁ m₁' _ h₁ => ?_
    exact ih h₁ fun y hy => hg y (List.mem_cons_of_mem x hy)

end Rules

/-! ## Steps -/

/-- The cluster is the one that the sight is for. -/
structure Fits (v : Sight) (c : ManagedCluster) : Prop where
  named : c.metadata.IsNamed
  name : c.nameText = v.name
  hosting : c.hosting? = v.hosting
  comma : ',' ∉ v.name.toList

/-- The pass calls the cluster by the name that the sight is for. -/
theorem Fits.anyName (h : Fits v c) : c.anyName = v.name :=
  (ManagedCluster.anyName_eq h.named).trans h.name

/-- Listings of a cluster's works that are the same as far as one sees. -/
structure SameWorks (ws ws' : ClusterWorks) : Prop where
  own : ws.own.map (·.unversioned) = ws'.own.map (·.unversioned)
  hosted : ws.hosted.map (·.unversioned) = ws'.hosted.map (·.unversioned)

theorem SameWorks.total {ws ws' : ClusterWorks} (h : SameWorks ws ws') : ws'.total = ws.total := by
  have hown := congrArg List.length h.own
  have hhosted := congrArg List.length h.hosted
  rw [List.length_map, List.length_map] at hown hhosted
  unfold ClusterWorks.total
  rw [hown, hhosted]

theorem abreast_listWorks (h : Twins v m m') (hc : Fits v c) :
    Abreast t v (Well SameWorks) (listWorks c) (listWorks c) m m' := by
  unfold listWorks
  refine (abreast_ask (h.agree_listWorks (map_own h.works hc.anyName))).bind
    fun own own' m₁ m₁' hown h₁ => ?_
  cases hhosting : c.hosting? with
  | none => exact abreast_pure h₁ ⟨_, _, rfl, rfl, hown, rfl⟩
  | some hosting =>
    have hlabel (w w' : ManifestWork) (hsame : w.unversioned = w'.unversioned) :=
      ManifestWork.label?_of_unversioned hsame Names.hostedCluster
    have hlist := map_hosted hc.comma h₁.left h₁.right h₁.works hlabel
      (hc.hosting.symm.trans hhosting) hc.anyName
    refine (abreast_ask (h₁.agree_listWorks hlist)).bind fun hosted hosted' m₂ m₂' hhosted h₂ => ?_
    exact abreast_pure h₂ ⟨_, _, rfl, rfl, hown, hhosted⟩

theorem abreast_publish (h : Twins v m m') (c : ManagedCluster) (e : Hub.Event) :
    Abreast t v (Well fun _ _ => True) (publish c e) (publish c e) m m' := by
  have hrun (m : Memory) : m.talk t (publish c e).run =
      (.ok (), (m.answer t (.publish c.reference e)).2) := rfl
  obtain ⟨a, a', m₁, m₁', ha, ha', -, hadvanced⟩ := h.agree_publish (t := t) c.reference e
  unfold Abreast
  rw [hrun, hrun, ha, ha']
  exact ⟨⟨(), (), rfl, rfl, trivial⟩, hadvanced⟩

theorem abreast_written (h : Twins v m m') {u u' : Hub.Update} (hu : SameUpdate u u') :
    Abreast t v (Well (· = ·)) (ofTalk (pure (u.written.mapError .hub)))
      (ofTalk (pure (u'.written.mapError .hub))) m m' := by
  obtain ⟨b, hb⟩ := hu.done
  rw [hu.written, hb]
  exact abreast_pure h ⟨b, b, rfl, rfl, rfl⟩

theorem abreast_setConditions (h : Twins v m m') (hname : c.anyName = v.name)
    (new : List Condition) :
    Abreast t v (Well fun _ _ => True) (setConditions ctx c new) (setConditions ctx c new)
      m m' := by
  unfold setConditions
  split
  · exact abreast_unit h
  have hblind : Blind (mergeConditions ctx.now new) :=
    blind_mutation (.mergeConditions ctx.now new)
  refine (abreast_updateCluster h hname .status hblind _).bind fun u u' m₁ m₁' hu h₁ => ?_
  refine (abreast_written h₁ hu).bind fun _ _ m₂ m₂' _ h₂ => ?_
  have hlast := congrArg List.getLast? hu.seen
  rw [List.getLast?_map, List.getLast?_map] at hlast
  rcases both_of_map_eq hlast with ⟨hd, hd'⟩ | ⟨d, d', hd, hd', hsame⟩
  · rw [hd, hd']
    exact abreast_unit h₂
  · have hconditions : d'.conditions = d.conditions := by
      show d'.unversioned.conditions = d.unversioned.conditions
      rw [hsame]
    rw [hd, hd']
    dsimp only
    rw [hconditions]
    exact abreast_forM h₂ fun e _ m₃ m₃' h₃ => abreast_publish h₃ c e

theorem abreast_failWith {same : α → α → Prop} (h : Twins v m m') (hname : c.anyName = v.name)
    (new : Condition) (f : Failure) :
    Abreast t v (Matches same) (failWith ctx c new f) (failWith ctx c new f) m m' := by
  unfold failWith
  refine (abreast_setConditions h hname [new]).attempt.bind fun r r' m₁ m₁' hr h₁ => ?_
  obtain ⟨_, _, rfl, rfl, -⟩ := hr
  exact abreast_throw h₁ f

theorem abreast_updateFinalizers (h : Twins v m m') (hname : c.anyName = v.name)
    {edit : ManagedCluster → Option ManagedCluster} (hedit : Blind edit) (e : Hub.Event) :
    Abreast t v (Well fun _ _ => True) (updateFinalizers ctx c edit e)
      (updateFinalizers ctx c edit e) m m' := by
  unfold updateFinalizers
  refine (abreast_updateCluster h hname .finalizers hedit _).bind fun u u' m₁ m₁' hu h₁ => ?_
  refine (abreast_written h₁ hu).bind fun b b' m₂ m₂' hb h₂ => ?_
  subst hb
  split
  · exact abreast_publish h₂ c e
  · exact abreast_unit h₂

theorem abreast_syncFinalizer (h : Twins v m m') (hname : c.anyName = v.name) (works : Nat) :
    Abreast t v (Well fun _ _ => True) (syncFinalizer ctx c works) (syncFinalizer ctx c works)
      m m' := by
  unfold syncFinalizer
  dsimp only
  split
  · split
    · exact abreast_updateFinalizers h hname
        (blind_mutation (.removeFinalizer Names.workFinalizer)) _
    · exact abreast_unit h
  · split
    · exact abreast_updateFinalizers h hname blind_addFinalizer _
    · exact abreast_unit h

/-- The same but for its version. -/
def SameWork (w w' : ManifestWork) : Prop := w.unversioned = w'.unversioned

theorem abreast_replaceWork (h : Twins v m m') {k : ObjectKey} (hk : v.works k)
    {old old' : ManifestWork} (hold : m.works.get? k = some old)
    (hold' : m'.works.get? k = some old') (hsame : SameWork old old') (desired : ManifestWork) :
    Abreast t v (Well SameWork) (ask (.replaceWork (old.updatedTo desired)))
      (ask (.replaceWork (old'.updatedTo desired))) m m' := by
  have hview (w : ManifestWork) :
      (w.updatedTo desired).unversioned = w.unversioned.updatedTo desired := rfl
  have hupdated : (old.updatedTo desired).unversioned = (old'.updatedTo desired).unversioned := by
    rw [hview, hview, hsame]
  obtain ⟨u, u', m₁, m₁', hu, hu', hwork, hadvanced⟩ := h.replaceWork (t := t) hk hold hold'
    hupdated (h.left.filed.works k old hold) rfl rfl
  unfold Abreast
  rw [talk_ask, talk_ask, hu, hu']
  exact ⟨⟨u, u', rfl, rfl, hwork⟩, hadvanced⟩

theorem abreast_applyWork (h : Twins v m m') (c : ManagedCluster) {desired : ManifestWork}
    (hnamed : desired.metadata.IsNamed) (hk : v.works desired.key) :
    Abreast t v (Well SameWork) (applyWork c desired) (applyWork c desired) m m' := by
  unfold applyWork
  rw [ManifestWork.anyKey_eq hnamed]
  refine abreast_look (talk_ask m t (.getWork _)) (talk_ask m' t (.getWork _)) ?_
  rcases both_of_map_eq (h.works _ hk) with ⟨hw, hw'⟩ | ⟨w, w', hw, hw', hsame⟩
  · rw [hw, hw']
    refine (abreast_ask (h.agree_createWork hk hw)).bind fun u u' m₁ m₁' hu h₁ => ?_
    refine (abreast_publish h₁ c _).bind fun _ _ m₂ m₂' _ h₂ => ?_
    exact abreast_pure h₂ ⟨u, u', rfl, rfl, hu⟩
  · rw [hw, hw']
    dsimp only
    rw [← ManifestWork.fulfils_of_unversioned hsame]
    split
    · exact abreast_pure h ⟨w, w', rfl, rfl, hsame⟩
    refine (abreast_replaceWork h hk hw hw' hsame desired).bind fun u u' m₁ m₁' hu h₁ => ?_
    refine (abreast_publish h₁ c _).bind fun _ _ m₂ m₂' _ h₂ => ?_
    exact abreast_pure h₂ ⟨u, u', rfl, rfl, hu⟩

/-! ## The import -/

theorem Abreast.matches {same : α → α → Prop} {p p' : Pass α}
    (hp : Abreast t v (Well same) p p' m m') : Abreast t v (Matches same) p p' m m' :=
  hp.imp fun _ _ => Or.inl

theorem abreast_consume (h : Twins v m m') (hname : c.anyName = v.name) (s : Secret) :
    Abreast t v (Well fun _ _ => True) (consume c s) (consume c s) m m' := by
  unfold consume
  split
  · exact abreast_unit h
  · refine (abreast_ask (h.agree_deleteSecret hname)).bind fun _ _ m₁ m₁' _ h₁ => ?_
    exact abreast_publish h₁ c _

theorem abreast_handOver (h : Twins v m m') (hc : Fits v c) {hosting : String}
    (hhosting : v.hosting = some hosting) (ready : Bool) (s : Secret) :
    Abreast t v (Matches fun _ _ => True) (handOver ctx c hosting ready s)
      (handOver ctx c hosting ready s) m m' := by
  unfold handOver
  split
  · exact abreast_failWith h hc.anyName _ _
  next desired hdesired =>
  have hkey : v.works desired.key := by
    rw [HostedWork.key_kubeconfig hdesired, hc.anyName]
    exact (v.brought hosting hhosting).2
  have hnamed := (HostedWork.isOwn_of_kubeconfig hdesired).named
  refine (abreast_applyWork h c hnamed hkey).attempt.bind fun r r' m₁ m₁' hr h₁ => ?_
  -- the work is always taken, so that no attempt is counted
  obtain ⟨w, w', rfl, rfl, -⟩ := hr
  refine ((abreast_setConditions h₁ hc.anyName _).bind fun _ _ m₂ m₂' _ h₂ => ?_).matches
  exact abreast_consume h₂ hc.anyName s

theorem abreast_bringAgent (h : Twins v m m') (hc : Fits v c) {hosting : String}
    (hhosting : v.hosting = some hosting) (works : ClusterWorks) (payload : Bytes) :
    Abreast t v (Matches fun _ _ => True) (bringAgent ctx c works hosting payload)
      (bringAgent ctx c works hosting payload) m m' := by
  unfold bringAgent
  split
  · exact abreast_failWith h hc.anyName _ _
  next desired hdesired =>
  have hkey : v.works desired.key := by
    rw [HostedWork.key_klusterlet hdesired, hc.anyName]
    exact (v.brought hosting hhosting).1
  have hnamed := (HostedWork.isOwn_of_klusterlet hdesired).named
  refine (abreast_applyWork h c hnamed hkey).attempt.bind fun r r' m₁ m₁' hr h₁ => ?_
  obtain ⟨w, w', rfl, rfl, hsame⟩ := hr
  have hstatus := ManifestWork.status_of_unversioned hsame
  have hready : w'.isReadyToApply c.anyName = w.isReadyToApply c.anyName := by
    unfold ManifestWork.isReadyToApply ManifestWork.reports
    rw [hstatus]
  have havailable : w'.isAvailable = w.isAvailable := by
    unfold ManifestWork.isAvailable ManifestWork.conditions
    rw [hstatus]
  refine (abreast_syncFinalizer h₁ hc.anyName 1).bind fun _ _ m₂ m₂' _ h₂ => ?_
  refine (abreast_ask (h₂.agree_getSecret hc.anyName)).bind fun s s' m₃ m₃' hs h₃ => ?_
  subst hs
  rw [hready, havailable]
  split
  · exact (abreast_setConditions h₃ hc.anyName _).matches
  split
  · exact abreast_handOver h₃ hc hhosting _ _
  · exact (abreast_setConditions h₃ hc.anyName _).matches

theorem hostingProblem?_of_unversioned {n : String} {o o' : Option ManagedCluster}
    (h : o.map (·.unversioned) = o'.map (·.unversioned)) :
    hostingProblem? n o' = hostingProblem? n o := by
  have hview (o : Option ManagedCluster) :
      hostingProblem? n o = hostingProblem? n (o.map (·.unversioned)) := by cases o <;> rfl
  rw [hview o, hview o', h]

theorem abreast_importCluster (h : Twins v m m') (hc : Fits v c) (works : ClusterWorks) :
    Abreast t v (Matches fun _ _ => True) (importCluster ctx c works)
      (importCluster ctx c works) m m' := by
  unfold importCluster
  dsimp only
  split
  · exact (abreast_setConditions h hc.anyName _).matches
  next hosting hhosting =>
  have hhosting : v.hosting = some hosting := hc.hosting.symm.trans hhosting
  refine (abreast_ask (h.agree_getCluster (Or.inr hhosting))).bind fun x x' m₁ m₁' hx h₁ => ?_
  rw [hostingProblem?_of_unversioned hx]
  split
  · exact (abreast_setConditions h₁ hc.anyName _).matches
  refine (abreast_ask (h₁.agree_getSecret hc.anyName)).bind fun s s' m₂ m₂' hs h₂ => ?_
  subst hs
  split
  · exact (abreast_setConditions h₂ hc.anyName _).matches
  split
  · exact (abreast_setConditions h₂ hc.anyName _).matches
  · exact abreast_bringAgent h₂ hc hhosting works _

/-! ## The deletion -/

theorem abreast_deleteWork (h : Twins v m m') {k : ObjectKey} (hk : v.works k) :
    Abreast t v (Well fun _ _ => True) (ask (.deleteWork k)) (ask (.deleteWork k)) m m' :=
  abreast_ask (h.agree_removes (removes_deleteWork t k) hk)

theorem abreast_deleteHosted (h : Twins v m m') {ws : List ManifestWork}
    (hws : ∀ w ∈ ws, v.works w.anyKey) :
    Abreast t v (Well fun _ _ => True) (deleteHosted ws) (deleteHosted ws) m m' := by
  refine abreast_forM h fun w hw m₁ m₁' h₁ => ?_
  split
  · exact abreast_unit h₁
  · exact abreast_deleteWork h₁ (hws w hw)

theorem abreast_forceWork (h : Twins v m m') {k : ObjectKey} (hk : v.works k) :
    Abreast t v (Well fun _ _ => True) (forceWork k) (forceWork k) m m' := by
  unfold forceWork
  refine (abreast_deleteWork h hk).bind fun _ _ m₁ m₁' _ h₁ => ?_
  refine (abreast_ask (h₁.agree_getWork hk)).bind fun x x' m₂ m₂' hx h₂ => ?_
  rcases both_of_map_eq hx with ⟨rfl, rfl⟩ | ⟨w, w', rfl, rfl, hsame⟩
  · exact abreast_unit h₂
  · have hfinalizers : w'.metadata.finalizers = w.metadata.finalizers := by
      show w'.unversioned.metadata.finalizers = w.unversioned.metadata.finalizers
      rw [hsame]
    dsimp only
    rw [hfinalizers]
    split
    · exact abreast_unit h₂
    · exact abreast_ask (h₂.agree_removes (removes_releaseWork t k) hk)

theorem abreast_deleteByForce (h : Twins v m m') (hc : Fits v c) {works : ClusterWorks}
    (hworks : ∀ w ∈ works.hosted, v.works w.anyKey) :
    Abreast t v (Well fun _ _ => True) (deleteByForce ctx c works) (deleteByForce ctx c works)
      m m' := by
  unfold deleteByForce
  refine (abreast_setConditions h hc.anyName _).bind fun _ _ m₁ m₁' _ h₁ => ?_
  refine (abreast_forM h₁ fun w _ m₂ m₂' h₂ => ?_).bind fun _ _ m₂ m₂' _ h₂ => ?_
  · exact abreast_forceWork h₂ (v.own _ hc.anyName)
  refine (abreast_deleteHosted h₂ fun w hw => ?_).bind fun _ _ m₃ m₃' _ h₃ => ?_
  · exact hworks w (mem_hosted_of_mem_inOrder hw)
  · exact abreast_publish h₃ c _

theorem abreast_isClear (h : Twins v m m') {nspace : String} (hspace : nspace = v.name) :
    Abreast t v (Well (· = ·)) (isClear nspace) (isClear nspace) m m' := by
  unfold isClear
  refine (abreast_ask (h.agree_listWorks (map_own h.works hspace))).bind
    fun ws ws' m₁ m₁' hws h₁ => ?_
  have hempty : ws'.isEmpty = ws.isEmpty := by
    have hmap := congrArg List.isEmpty hws
    rw [List.isEmpty_map, List.isEmpty_map] at hmap
    exact hmap.symm
  rw [hempty]
  split
  · refine (abreast_ask (h₁.agree_listAddOns nspace)).bind fun as as' m₂ m₂' has h₂ => ?_
    subst has
    exact abreast_pure h₂ ⟨_, _, rfl, rfl, rfl⟩
  · exact abreast_pure h₁ ⟨_, _, rfl, rfl, rfl⟩

theorem abreast_deleteInOrder (h : Twins v m m') (hc : Fits v c) {works : ClusterWorks}
    (hworks : ∀ w ∈ works.hosted, v.works w.anyKey) :
    Abreast t v (Well fun _ _ => True) (deleteInOrder ctx c works) (deleteInOrder ctx c works)
      m m' := by
  have hstage {m m' : Memory} (h : Twins v m m') : Abreast t v (Well fun _ _ => True)
      (do if ← isClear c.anyName then deleteHosted (works.stage c.anyName))
      (do if ← isClear c.anyName then deleteHosted (works.stage c.anyName)) m m' := by
    refine (abreast_isClear h hc.anyName).bind fun b b' m₁ m₁' hb h₁ => ?_
    subst hb
    split
    · exact abreast_deleteHosted h₁ fun w hw => hworks w (ClusterWorks.mem_hosted_of_mem_stage hw)
    · exact abreast_unit h₁
  unfold deleteInOrder
  refine (abreast_setConditions h hc.anyName _).bind fun _ _ m₁ m₁' _ h₁ => ?_
  refine (abreast_forM h₁ fun w _ m₂ m₂' h₂ => ?_).bind fun _ _ m₂ m₂' _ h₂ => ?_
  · exact abreast_deleteWork h₂ (v.own _ hc.anyName)
  dsimp only
  split
  · exact (abreast_publish h₂ c _).bind fun _ _ m₃ m₃' _ h₃ => hstage h₃
  · exact hstage h₂

theorem abreast_deletion (h : Twins v m m') (hc : Fits v c) {works : ClusterWorks}
    (hworks : ∀ w ∈ works.hosted, v.works w.anyKey) :
    Abreast t v (Well (· = ·)) (deletion ctx c works) (deletion ctx c works) m m' := by
  have hfinish {m m' : Memory} (h : Twins v m m') : Abreast t v (Well (· = ·))
      (do
        let remaining ← listWorks c
        syncFinalizer ctx c remaining.total
        return if remaining.isEmpty then Outcome.done else .again ctx.settings.deletionRequeue)
      (do
        let remaining ← listWorks c
        syncFinalizer ctx c remaining.total
        return if remaining.isEmpty then Outcome.done else .again ctx.settings.deletionRequeue)
      m m' := by
    refine (abreast_listWorks h hc).bind fun ws ws' m₁ m₁' hws h₁ => ?_
    have htotal : ws'.total = ws.total := hws.total
    rw [ClusterWorks.isEmpty, ClusterWorks.isEmpty, htotal]
    refine (abreast_syncFinalizer h₁ hc.anyName _).bind fun _ _ m₂ m₂' _ h₂ => ?_
    exact abreast_pure h₂ ⟨_, _, rfl, rfl, rfl⟩
  unfold deletion
  split
  · exact abreast_pure h ⟨_, _, rfl, rfl, rfl⟩
  split
  · exact (abreast_deleteByForce h hc hworks).bind fun _ _ m₁ m₁' _ h₁ => hfinish h₁
  · exact (abreast_deleteInOrder h hc hworks).bind fun _ _ m₁ m₁' _ h₁ => hfinish h₁

/-! ## The whole pass -/

theorem talk_listWorks (hm : m.Quiet) (hc : c.metadata.IsNamed) (t : Instant) :
    m.talk t (listWorks c).run = (.ok (m.worksOf c), m) := by
  have hlist (nspace : String) (selector : Option String) :
      m.talk t (ask (.listWorks nspace selector)).run = (.ok (m.worksIn nspace selector), m) := by
    have hanswer : m.answer t (.listWorks nspace selector) = _ :=
      Hub.Memory.unlessFailing_of_none (hm.failures .listWorks) _
    rw [talk_ask, hanswer]
    rfl
  unfold listWorks Hub.Memory.worksOf
  rw [ManagedCluster.anyName_eq hc, talk_bind_ok (congrArg Prod.fst (hlist _ _)), hlist]
  cases c.hosting? with
  | none => rfl
  | some hosting =>
    dsimp only
    rw [talk_bind_ok (congrArg Prod.fst (hlist _ _)), hlist]
    rfl

theorem worksOf_eq (h : Twins v m m') (hc : Fits v c)
    (hworks : ∀ k, v.works k → m.works.get? k = m'.works.get? k) :
    m'.worksOf c = m.worksOf c := by
  have hview (k : ObjectKey) (hk : v.works k) :
      (m.works.get? k).map id = (m'.works.get? k).map id := by rw [hworks k hk]
  have hown := map_own hview hc.name
  rw [List.map_id, List.map_id] at hown
  unfold Hub.Memory.worksOf
  cases hhosting : c.hosting? with
  | none => rw [hown]
  | some hosting =>
    have hlabel (w w' : ManifestWork) (hsame : id w = id w') :
        w.metadata.label? Names.hostedCluster = w'.metadata.label? Names.hostedCluster :=
      congrArg (fun w => w.metadata.label? Names.hostedCluster) hsame
    have hhosted := map_hosted hc.comma h.left h.right hview hlabel
      (hc.hosting.symm.trans hhosting) hc.name
    rw [List.map_id, List.map_id] at hhosted
    dsimp only
    rw [hown, hhosted]

theorem seen_of_hosted (hm : m.Named) (h : Calm v m) (hc : Fits v c) {w : ManifestWork}
    (hw : w ∈ (m.worksOf c).hosted) : v.works w.anyKey := by
  rw [ManifestWork.anyKey_eq (hm.hosted hw)]
  obtain ⟨k, ⟨hk, hlabel⟩, hhosting⟩ :=
    (Hub.Memory.mem_hosted_iff (hc.name.symm ▸ hc.comma)).mp hw
  rw [h.filed.works k w hk]
  refine Classical.byContradiction fun hout => ?_
  refine h.strangers k w (hc.hosting.symm.trans hhosting) hout hk ?_
  rw [hlabel, hc.name]

/-- A pass comes to the same in twins in which the cluster and its works are under the same
versions. -/
theorem abreast_reconcile (hm : m.Named) (h : Twins v m m') (hn : ',' ∉ v.name.toList)
    (hhosting : ∀ c, m.clusters.get? v.name = some c → c.hosting? = v.hosting)
    (hcluster : m.clusters.get? v.name = m'.clusters.get? v.name)
    (hworks : ∀ k, v.works k → m.works.get? k = m'.works.get? k) (ctx : Context) :
    Abreast t v (Matches (· = ·)) (reconcile ctx v.name) (reconcile ctx v.name) m m' := by
  have hdone {m m' : Memory} (h : Twins v m m') :
      Abreast t v (Matches (· = ·)) (pure Outcome.done) (pure .done) m m' :=
    abreast_pure h (Or.inl ⟨_, _, rfl, rfl, rfl⟩)
  unfold reconcile
  refine abreast_look (talk_ask m t (.getCluster _)) (talk_ask m' t (.getCluster _)) ?_
  rw [← hcluster]
  cases hc : m.clusters.get? v.name with
  | none => exact hdone h
  | some c =>
    have hnamed : c.metadata.IsNamed := hm.clusterNames _ c hc
    have hfits : Fits v c := ⟨hnamed, hm.clusters _ c hc, hhosting c hc, hn⟩
    have hsame : m'.worksOf c = m.worksOf c := worksOf_eq h hfits hworks
    dsimp only
    split
    · refine abreast_look (talk_listWorks h.left.quiet hnamed t)
        (talk_listWorks h.right.quiet hnamed t) ?_
      rw [hsame]
      refine (abreast_syncFinalizer h hfits.anyName _).matches.bind_matches
        fun _ _ m₁ m₁' _ h₁ => ?_
      split
      · exact (abreast_deletion h₁ hfits fun w hw => seen_of_hosted hm h.left hfits hw).matches
      · exact (abreast_importCluster h₁ hfits _).bind_matches fun _ _ m₂ m₂' _ h₂ => hdone h₂
    · exact hdone h

end Pass
end Hosting
