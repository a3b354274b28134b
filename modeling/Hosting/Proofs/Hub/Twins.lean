import Hosting.Proofs.Hub.Update
import Hosting.Proofs.Mutation

/-!
# Hubs that look the same

What is looked at for the sake of one cluster is a part of the hub: the cluster itself, its
hosting cluster, the works and secrets that are its own.  Two hubs are twins for it when these
are the same but for their versions.  A request about them is then answered the same, and
leaves twins, each of them grown by the same writes and events.
-/

namespace Hosting

open Hub (Memory Part Request Update Write)
open Hub.Memory (stamped)

theorem both_of_map_eq {α β : Type} {f : α → β} {o o' : Option α}
    (h : o.map f = o'.map f) :
    (o = none ∧ o' = none) ∨ ∃ a a', o = some a ∧ o' = some a' ∧ f a = f a' := by
  cases o with
  | none =>
    have h' : o' = none := by simpa using h.symm
    exact Or.inl ⟨rfl, h'⟩
  | some a =>
    have h' := h.symm
    rw [Option.map_some, Option.map_eq_some_iff] at h'
    obtain ⟨a', ha', hf⟩ := h'
    exact Or.inr ⟨a, a', rfl, ha', hf.symm⟩

/-- What is looked at for the sake of a cluster. -/
structure Sight where
  name : String
  hosting : Option String
  works : ObjectKey → Prop
  own : ∀ k, k.nspace = name → works k
  brought : ∀ h, hosting = some h →
    works ⟨h, Names.klusterletWork name⟩ ∧ works ⟨h, Names.kubeconfigWork name⟩

namespace Sight

/-- The cluster and the one that hosts its agent. -/
def Watches (v : Sight) (n : String) : Prop := n = v.name ∨ v.hosting = some n

end Sight

/-- Nothing is laid in wait for a request. -/
structure Hub.Memory.Quiet (m : Memory) : Prop where
  failures : ∀ op, m.failures.get? op = none
  conflicts : m.conflicts = 0

/-- No request about the cluster fails, and no work of its hosting cluster has its label that is
not looked at. -/
structure Calm (v : Sight) (m : Memory) : Prop where
  filed : m.Filed
  quiet : m.Quiet
  strangers : ∀ k w, v.hosting = some k.nspace → ¬v.works k → m.works.get? k = some w →
    w.metadata.label? Names.hostedCluster ≠ some v.name

structure Twins (v : Sight) (m m' : Memory) : Prop where
  left : Calm v m
  right : Calm v m'
  clusters : ∀ n, v.Watches n →
    (m.clusters.get? n).map (·.unversioned) = (m'.clusters.get? n).map (·.unversioned)
  works : ∀ k, v.works k →
    (m.works.get? k).map (·.unversioned) = (m'.works.get? k).map (·.unversioned)
  secrets : ∀ k, k.nspace = v.name → m.secrets.get? k = m'.secrets.get? k
  addOns : m.addOns = m'.addOns

/-- The hub has gone on by so many versions, these writes and these events. -/
structure Grown (n : Nat) (ws : List Write) (es : List (String × Hub.Event)) (m m₁ : Memory) :
    Prop where
  version : m₁.version = m.version + n
  writes : m₁.writes = m.writes ++ ws
  events : m₁.events = m.events ++ es

/-- The hubs `m` and `m'` have gone on alike, and look the same. -/
structure Advanced (v : Sight) (m m' m₁ m₁' : Memory) : Prop where
  twins : Twins v m₁ m₁'
  grown : ∃ n ws es, Grown n ws es m m₁ ∧ Grown n ws es m' m₁'

variable {v : Sight} {m m' m₁ m₁' m₂ m₂' : Memory} {t : Instant}

namespace Twins

theorem refl (h : Calm v m) : Twins v m m :=
  ⟨h, h, fun _ _ => rfl, fun _ _ => rfl, fun _ _ => rfl, rfl⟩

theorem symm (h : Twins v m m') : Twins v m' m where
  left := h.right
  right := h.left
  clusters n hn := (h.clusters n hn).symm
  works k hk := (h.works k hk).symm
  secrets k hk := (h.secrets k hk).symm
  addOns := h.addOns.symm

theorem trans (h : Twins v m m') (h' : Twins v m' m₁) : Twins v m m₁ where
  left := h.left
  right := h'.right
  clusters n hn := (h.clusters n hn).trans (h'.clusters n hn)
  works k hk := (h.works k hk).trans (h'.works k hk)
  secrets k hk := (h.secrets k hk).trans (h'.secrets k hk)
  addOns := h.addOns.trans h'.addOns

end Twins

theorem Grown.refl (m : Memory) : Grown 0 [] [] m m :=
  ⟨rfl, (List.append_nil _).symm, (List.append_nil _).symm⟩

theorem Grown.trans {n n' : Nat} {ws ws' : List Write} {es es' : List (String × Hub.Event)}
    (h : Grown n ws es m m₁) (h' : Grown n' ws' es' m₁ m₂) :
    Grown (n + n') (ws ++ ws') (es ++ es') m m₂ where
  version := by rw [h'.version, h.version, Nat.add_assoc]
  writes := by rw [h'.writes, h.writes, List.append_assoc]
  events := by rw [h'.events, h.events, List.append_assoc]

namespace Advanced

theorem refl (h : Twins v m m') : Advanced v m m' m m' :=
  ⟨h, 0, [], [], Grown.refl m, Grown.refl m'⟩

theorem trans (h : Advanced v m m' m₁ m₁') (h' : Advanced v m₁ m₁' m₂ m₂') :
    Advanced v m m' m₂ m₂' := by
  obtain ⟨n, ws, es, hg, hg'⟩ := h.grown
  obtain ⟨n₁, ws₁, es₁, hg₁, hg₁'⟩ := h'.grown
  exact ⟨h'.twins, n + n₁, ws ++ ws₁, es ++ es₁, hg.trans hg₁, hg'.trans hg₁'⟩

end Advanced

/-! ## Writes -/

section Writes

theorem calm_rework (h : Calm v m) {k : ObjectKey} (hk : v.works k)
    {ws : Table ObjectKey ManifestWork} {o : Option ManifestWork}
    (hws : ∀ k', ws.get? k' = if k' = k then o else m.works.get? k')
    (hkey : ∀ w, o = some w → w.key = k) (n : Nat) (x : Write) :
    Calm v { m with works := ws, version := m.version + n, writes := m.writes ++ [x] } where
  filed := by
    refine ⟨h.filed.clusters, fun k' w hw => ?_, h.filed.secrets⟩
    have hw : (if k' = k then o else m.works.get? k') = some w := (hws k').symm.trans hw
    split at hw
    · next heq => rw [hkey w hw, heq]
    · exact h.filed.works k' w hw
  quiet := ⟨h.quiet.failures, h.quiet.conflicts⟩
  strangers k' w hhosting hout hw := by
    have hne : k' ≠ k := fun heq => hout (heq ▸ hk)
    have hw : (if k' = k then o else m.works.get? k') = some w := (hws k').symm.trans hw
    rw [if_neg hne] at hw
    exact h.strangers k' w hhosting hout hw

/-- A work is written alike in both hubs. -/
theorem Twins.rework (h : Twins v m m') {k : ObjectKey} (hk : v.works k)
    {ws ws' : Table ObjectKey ManifestWork} {o o' : Option ManifestWork}
    (hws : ∀ k', ws.get? k' = if k' = k then o else m.works.get? k')
    (hws' : ∀ k', ws'.get? k' = if k' = k then o' else m'.works.get? k')
    (ho : o.map (·.unversioned) = o'.map (·.unversioned)) (hkey : ∀ w, o = some w → w.key = k)
    (n : Nat) (x : Write) :
    Advanced v m m' { m with works := ws, version := m.version + n, writes := m.writes ++ [x] }
      { m' with works := ws', version := m'.version + n, writes := m'.writes ++ [x] } := by
  have hkey' : ∀ w, o' = some w → w.key = k := by
    intro w' hw'
    rcases both_of_map_eq ho with ⟨-, hnone⟩ | ⟨w, w'', hw, hw'', hsame⟩
    · rw [hw'] at hnone
      cases hnone
    · rw [hw', Option.some.injEq] at hw''
      rw [hw'', ← ManifestWork.key_of_unversioned hsame]
      exact hkey w hw
  refine ⟨⟨calm_rework h.left hk hws hkey n x, calm_rework h.right hk hws' hkey' n x, h.clusters,
    fun k' hk' => ?_, h.secrets, h.addOns⟩, n, [x], [], ?_, ?_⟩
  · show (ws.get? k').map _ = (ws'.get? k').map _
    rw [hws, hws']
    split
    · exact ho
    · exact h.works k' hk'
  · exact ⟨rfl, rfl, (List.append_nil _).symm⟩
  · exact ⟨rfl, rfl, (List.append_nil _).symm⟩

theorem calm_recluster (h : Calm v m) {cs : Table String ManagedCluster}
    {o : Option ManagedCluster}
    (hcs : ∀ n, cs.get? n = if n = v.name then o else m.clusters.get? n)
    (hname : ∀ c, o = some c → c.nameText = v.name) (n : Nat) (x : Write) :
    Calm v { m with clusters := cs, version := m.version + n, writes := m.writes ++ [x] } where
  filed := by
    refine ⟨fun n' c hc => ?_, h.filed.works, h.filed.secrets⟩
    have hc : (if n' = v.name then o else m.clusters.get? n') = some c := (hcs n').symm.trans hc
    split at hc
    · next heq => rw [hname c hc, heq]
    · exact h.filed.clusters n' c hc
  quiet := ⟨h.quiet.failures, h.quiet.conflicts⟩
  strangers := h.strangers

/-- The cluster is written alike in both hubs. -/
theorem Twins.recluster (h : Twins v m m') {cs cs' : Table String ManagedCluster}
    {o o' : Option ManagedCluster}
    (hcs : ∀ n, cs.get? n = if n = v.name then o else m.clusters.get? n)
    (hcs' : ∀ n, cs'.get? n = if n = v.name then o' else m'.clusters.get? n)
    (ho : o.map (·.unversioned) = o'.map (·.unversioned))
    (hname : ∀ c, o = some c → c.nameText = v.name)
    (hname' : ∀ c, o' = some c → c.nameText = v.name) (n : Nat) (x : Write) :
    Advanced v m m' { m with clusters := cs, version := m.version + n, writes := m.writes ++ [x] }
      { m' with clusters := cs', version := m'.version + n, writes := m'.writes ++ [x] } := by
  refine ⟨⟨calm_recluster h.left hcs hname n x, calm_recluster h.right hcs' hname' n x,
    fun n' hn' => ?_, h.works, h.secrets, h.addOns⟩, n, [x], [], ?_, ?_⟩
  · show (cs.get? n').map _ = (cs'.get? n').map _
    rw [hcs, hcs']
    split
    · exact ho
    · exact h.clusters n' hn'
  · exact ⟨rfl, rfl, (List.append_nil _).symm⟩
  · exact ⟨rfl, rfl, (List.append_nil _).symm⟩

end Writes

/-! ## Listings -/

section Listings

variable {α : Type} {f : ManifestWork → α} {nspace : String} {selector : Option String}

/-- The entry is one that a listing shows. -/
def Hub.Memory.lists (nspace : String) (selector : Option String)
    (e : ObjectKey × ManifestWork) : Bool :=
  e.1.nspace == nspace && Hub.Memory.selects e.2.metadata selector

/-- Listings are the same up to `f` where the works that they can show are. -/
theorem map_worksIn (h : ∀ k, k.nspace = nspace →
      ((m.works.get? k).filter fun w => Memory.selects w.metadata selector).map f =
        ((m'.works.get? k).filter fun w => Memory.selects w.metadata selector).map f) :
    (m.worksIn nspace selector).map f = (m'.worksIn nspace selector).map f := by
  have hlist (m : Memory) : (m.worksIn nspace selector).map f =
      (m.works.pick (Memory.lists nspace selector) f).values := (Table.values_pick _ f _).symm
  have hpick : m.works.pick (Memory.lists nspace selector) f =
      m'.works.pick (Memory.lists nspace selector) f := by
    refine Table.ext_get? fun k => ?_
    rw [Table.get?_pick, Table.get?_pick]
    by_cases hk : k.nspace = nspace
    · have hfits : (fun w => Memory.lists nspace selector (k, w)) =
          fun w => Memory.selects w.metadata selector := by
        funext w
        simp [Memory.lists, hk]
      rw [hfits, h k hk]
    · have hnone (m : Memory) :
          (m.works.get? k).filter (fun w => Memory.lists nspace selector (k, w)) = none := by
        rw [Option.filter_eq_none_iff]
        intro w _
        simp [Memory.lists, hk]
      rw [hnone, hnone]
  rw [hlist, hlist, hpick]

theorem map_own (hworks : ∀ k, v.works k → (m.works.get? k).map f = (m'.works.get? k).map f)
    (hspace : nspace = v.name) :
    (m.worksIn nspace none).map f = (m'.worksIn nspace none).map f := by
  subst hspace
  refine map_worksIn fun k hk => ?_
  have hall (o : Option ManifestWork) :
      o.filter (fun w => Memory.selects w.metadata none) = o := by
    cases o <;> rfl
  rw [hall, hall]
  exact hworks k (v.own k hk)

theorem filter_stranger (hn : ',' ∉ v.name.toList) (h : Calm v m) {k : ObjectKey}
    (hhosting : v.hosting = some k.nspace) (hk : ¬v.works k) :
    (m.works.get? k).filter (fun w =>
      Memory.selects w.metadata (some (Pass.hostedSelector v.name))) = none := by
  rw [Option.filter_eq_none_iff]
  intro w hw
  rw [selects_hostedSelector hn, beq_iff_eq]
  exact h.strangers k w hhosting hk hw

theorem map_hosted (hn : ',' ∉ v.name.toList) (hm : Calm v m) (hm' : Calm v m')
    (hworks : ∀ k, v.works k → (m.works.get? k).map f = (m'.works.get? k).map f)
    (hlabel : ∀ w w', f w = f w' →
      w.metadata.label? Names.hostedCluster = w'.metadata.label? Names.hostedCluster)
    (hhosting : v.hosting = some nspace) {name : String} (hname : name = v.name) :
    (m.worksIn nspace (some (Pass.hostedSelector name))).map f =
      (m'.worksIn nspace (some (Pass.hostedSelector name))).map f := by
  subst hname
  refine map_worksIn fun k hk => ?_
  have hhosting : v.hosting = some k.nspace := hk ▸ hhosting
  by_cases hworksk : v.works k
  · rcases both_of_map_eq (hworks k hworksk) with ⟨hw, hw'⟩ | ⟨w, w', hw, hw', hsame⟩
    · rw [hw, hw']
    · rw [hw, hw', Option.filter_some, Option.filter_some, selects_hostedSelector hn,
        selects_hostedSelector hn, hlabel w w' hsame]
      split
      · exact congrArg some hsame
      · rfl
  · rw [filter_stranger hn hm hhosting hworksk, filter_stranger hn hm' hhosting hworksk]

end Listings

/-! ## Answers -/

/-- Both hubs do as they are asked, and answer the same as far as `same` tells. -/
def Agree (v : Sight) (t : Instant) (q : Request) (same : q.Value → q.Value → Prop)
    (m m' : Memory) : Prop :=
  ∃ a a' m₁ m₁', m.answer t q = (.ok a, m₁) ∧ m'.answer t q = (.ok a', m₁') ∧ same a a' ∧
    Advanced v m m' m₁ m₁'

namespace Twins

variable (h : Twins v m m')

include h

theorem agree_getCluster {n : String} (hn : v.Watches n) :
    Agree v t (.getCluster n) (fun x x' => x.map (·.unversioned) = x'.map (·.unversioned)) m m' :=
  ⟨_, _, m, m', rfl, rfl, h.clusters n hn, Advanced.refl h⟩

theorem agree_listWorks {nspace : String} {selector : Option String}
    (hlist : (m.worksIn nspace selector).map (·.unversioned) =
      (m'.worksIn nspace selector).map (·.unversioned)) :
    Agree v t (.listWorks nspace selector)
      (fun ws ws' => ws.map (·.unversioned) = ws'.map (·.unversioned)) m m' :=
  ⟨_, _, m, m', Memory.unlessFailing_of_none (h.left.quiet.failures _) _,
    Memory.unlessFailing_of_none (h.right.quiet.failures _) _, hlist, Advanced.refl h⟩

theorem agree_getWork {k : ObjectKey} (hk : v.works k) :
    Agree v t (.getWork k) (fun x x' => x.map (·.unversioned) = x'.map (·.unversioned)) m m' :=
  ⟨_, _, m, m', rfl, rfl, h.works k hk, Advanced.refl h⟩

theorem agree_getSecret {k : ObjectKey} (hk : k.nspace = v.name) :
    Agree v t (.getSecret k) (· = ·) m m' :=
  ⟨_, _, m, m', rfl, rfl, h.secrets k hk, Advanced.refl h⟩

theorem agree_listAddOns (nspace : String) : Agree v t (.listAddOns nspace) (· = ·) m m' := by
  refine ⟨m.addOnsIn nspace, m'.addOnsIn nspace, m, m', rfl, rfl, ?_, Advanced.refl h⟩
  unfold Memory.addOnsIn
  rw [h.addOns]

theorem agree_publish (about : Hub.Reference) (e : Hub.Event) :
    Agree v t (.publish about e) (fun _ _ => True) m m' := by
  have hcalm {m : Memory} (h : Calm v m) (es : List (String × Hub.Event)) :
      Calm v { m with events := es } :=
    ⟨⟨h.filed.clusters, h.filed.works, h.filed.secrets⟩, ⟨h.quiet.failures, h.quiet.conflicts⟩,
      h.strangers⟩
  refine ⟨(), (), _, _, rfl, rfl, trivial, ⟨hcalm h.left _, hcalm h.right _, h.clusters, h.works,
    h.secrets, h.addOns⟩, 0, [], [(about.name.getD "", e)], ?_, ?_⟩
  · exact ⟨rfl, (List.append_nil _).symm, rfl⟩
  · exact ⟨rfl, (List.append_nil _).symm, rfl⟩

theorem agree_deleteSecret {k : ObjectKey} (hk : k.nspace = v.name) :
    Agree v t (.deleteSecret k) (fun _ _ => True) m m' := by
  have hcalm {m : Memory} (h : Calm v m) (ws : List Write) :
      Calm v { m with secrets := m.secrets.erase k, writes := ws } :=
    ⟨⟨h.filed.clusters, h.filed.works, h.filed.secrets.erase k⟩,
      ⟨h.quiet.failures, h.quiet.conflicts⟩, h.strangers⟩
  have hsame : m.secrets.contains k = m'.secrets.contains k := by
    unfold Table.contains
    rw [h.secrets k hk]
  have hgo {m : Memory} (hm : Calm v m) : m.answer t (.deleteSecret k) =
      if m.secrets.contains k then
        (.ok (), { m with
          secrets := m.secrets.erase k
          writes := m.writes ++ [.deleteSecret k] })
      else (.ok (), m) := Memory.unlessFailing_of_none (hm.quiet.failures _) _
  cases hc : m.secrets.contains k with
  | false =>
    refine ⟨(), (), m, m', ?_, ?_, trivial, Advanced.refl h⟩
    · rw [hgo h.left, hc]
      rfl
    · rw [hgo h.right, ← hsame, hc]
      rfl
  | true =>
    refine ⟨(), (), _, _, (hgo h.left).trans (if_pos hc), (hgo h.right).trans
      (if_pos (hsame ▸ hc)), trivial, ⟨hcalm h.left _, hcalm h.right _, h.clusters, h.works,
      fun k' hk' => ?_, h.addOns⟩, 0, [.deleteSecret k], [], ?_, ?_⟩
    · show (m.secrets.erase k).get? k' = (m'.secrets.erase k).get? k'
      rw [Table.get?_erase, Table.get?_erase, h.secrets k' hk']
    · exact ⟨rfl, rfl, (List.append_nil _).symm⟩
    · exact ⟨rfl, rfl, (List.append_nil _).symm⟩

end Twins

/-! ## Works that are removed -/

/-- Asked `q`, a quiet hub leaves of the work under `k`, if it is there, what `left` says. -/
structure Removes (t : Instant) (q : Request) (a : q.Value) (k : ObjectKey) (x : Write)
    (left : ManifestWork → Option ManifestWork) : Prop where
  gone : ∀ m : Memory, m.Quiet → m.works.get? k = none → m.answer t q = (.ok a, m)
  there : ∀ (m : Memory) (w : ManifestWork), m.Quiet → m.works.get? k = some w → ∃ ws,
    m.answer t q =
        (.ok a, { m with works := ws, version := m.version + 0, writes := m.writes ++ [x] }) ∧
      ∀ k', ws.get? k' = if k' = k then left w else m.works.get? k'
  same : ∀ w w' : ManifestWork, w.unversioned = w'.unversioned →
    (left w).map (·.unversioned) = (left w').map (·.unversioned)
  key : ∀ w w', left w = some w' → w'.key = w.key

theorem Twins.agree_removes (h : Twins v m m') {q : Request} {a : q.Value} {k : ObjectKey}
    {x : Write} {left : ManifestWork → Option ManifestWork} (hr : Removes t q a k x left)
    (hk : v.works k) : Agree v t q (fun _ _ => True) m m' := by
  rcases both_of_map_eq (h.works k hk) with ⟨hw, hw'⟩ | ⟨w, w', hw, hw', hsame⟩
  · exact ⟨a, a, m, m', hr.gone m h.left.quiet hw, hr.gone m' h.right.quiet hw', trivial,
      Advanced.refl h⟩
  · obtain ⟨ws, hanswer, hws⟩ := hr.there m w h.left.quiet hw
    obtain ⟨ws', hanswer', hws'⟩ := hr.there m' w' h.right.quiet hw'
    refine ⟨a, a, _, _, hanswer, hanswer', trivial,
      h.rework hk hws hws' (hr.same w w' hsame) (fun w₁ hw₁ => ?_) 0 x⟩
    rw [hr.key w w₁ hw₁, h.left.filed.works k w hw]

/-- What is left of a work that is deleted. -/
def afterDeletion (t : Instant) (w : ManifestWork) : Option ManifestWork :=
  if (w.metadata.finalizers.getD []).isEmpty then none
  else some { w with metadata := { w.metadata with
    deletionTimestamp := w.metadata.deletionTimestamp.or (some t.truncated) } }

/-- What is left of a work whose finalizers are taken off. -/
def afterRelease (w : ManifestWork) : Option ManifestWork :=
  if w.isDeleting then none else some { w with metadata := { w.metadata with finalizers := none } }

theorem removes_deleteWork (t : Instant) (k : ObjectKey) :
    Removes t (.deleteWork k) () k (.deleteWork k) (afterDeletion t) := by
  refine ⟨fun m hm hw => ?_, fun m w hm hw => ?_, fun w w' hsame => ?_, fun w w' hw' => ?_⟩
  · refine (Memory.unlessFailing_of_none (hm.failures _) _).trans ?_
    rw [hw]
  · refine ⟨_, ?_, fun k' => Table.get?_erase_or_insert _ _ _ _ _⟩
    refine (Memory.unlessFailing_of_none (hm.failures _) _).trans ?_
    rw [hw]
    rfl
  · have hview (w : ManifestWork) : (afterDeletion t w).map (·.unversioned) =
        (afterDeletion t w.unversioned).map (·.unversioned) := by
      show (if (w.metadata.finalizers.getD []).isEmpty then none else _ : Option _).map _ =
        (if (w.metadata.finalizers.getD []).isEmpty then none else _ : Option _).map _
      split <;> rfl
    rw [hview w, hview w', hsame]
  · unfold afterDeletion at hw'
    rw [Option.ite_none_left_eq_some, Option.some.injEq] at hw'
    rw [← hw'.2]
    rfl

theorem removes_releaseWork (t : Instant) (k : ObjectKey) :
    Removes t (.releaseWork k) () k (.releaseWork k) afterRelease := by
  refine ⟨fun m _ hw => ?_, fun m w _ hw => ?_, fun w w' hsame => ?_, fun w w' hw' => ?_⟩
  · show m.releaseWork k = _
    unfold Memory.releaseWork
    rw [hw]
  · refine ⟨_, ?_, fun k' => Table.get?_erase_or_insert _ _ _ _ _⟩
    show m.releaseWork k = _
    unfold Memory.releaseWork
    rw [hw]
    rfl
  · have hview (w : ManifestWork) : (afterRelease w).map (·.unversioned) =
        (afterRelease w.unversioned).map (·.unversioned) := by
      show (if w.isDeleting then none else _ : Option _).map _ =
        (if w.isDeleting then none else _ : Option _).map _
      split <;> rfl
    rw [hview w, hview w', hsame]
  · unfold afterRelease at hw'
    rw [Option.ite_none_left_eq_some, Option.some.injEq] at hw'
    rw [← hw'.2]
    rfl

/-! ## Works that are brought -/

theorem Twins.agree_createWork (h : Twins v m m') {w : ManifestWork} (hk : v.works w.key)
    (hnone : m.works.get? w.key = none) :
    Agree v t (.createWork w) (fun u u' => u.unversioned = u'.unversioned) m m' := by
  have hnone' : m'.works.get? w.key = none := by
    have hsame := h.works w.key hk
    rw [hnone] at hsame
    exact Option.map_eq_none_iff.mp hsame.symm
  have hgo {m : Memory} (hm : Calm v m) (hw : m.works.get? w.key = none) :
      ∃ u, u = { w with metadata := stamped w.metadata (m.version + 1), status := none } ∧
        m.answer t (.createWork w) = (.ok u, { m with
          works := m.works.insert w.key u
          version := m.version + 1
          writes := m.writes ++ [.createWork w.key] }) := by
    refine ⟨_, rfl, (Memory.unlessFailing_of_none (hm.quiet.failures _) _).trans ?_⟩
    rw [hw]
    rfl
  obtain ⟨u, hu, hanswer⟩ := hgo h.left hnone
  obtain ⟨u', hu', hanswer'⟩ := hgo h.right hnone'
  have hsame : u.unversioned = u'.unversioned := by
    rw [hu, hu']
    rfl
  refine ⟨u, u', _, _, hanswer, hanswer', hsame, h.rework hk
    (fun k' => Table.get?_insert _ _ _ _) (fun k' => Table.get?_insert _ _ _ _)
    (congrArg some hsame) (fun w₁ hw₁ => ?_) 1 _⟩
  rw [← Option.some.inj hw₁, hu]
  rfl

/-- A work that is replaced from a copy of it, in both hubs. -/
theorem Twins.replaceWork (h : Twins v m m') {k : ObjectKey} (hk : v.works k)
    {old old' w w' : ManifestWork} (hold : m.works.get? k = some old)
    (hold' : m'.works.get? k = some old') (hsame : w.unversioned = w'.unversioned)
    (hkey : w.key = k) (hversion : w.metadata.resourceVersion = old.metadata.resourceVersion)
    (hversion' : w'.metadata.resourceVersion = old'.metadata.resourceVersion) :
    ∃ u u' m₁ m₁', m.answer t (.replaceWork w) = (.ok u, m₁) ∧
      m'.answer t (.replaceWork w') = (.ok u', m₁') ∧ u.unversioned = u'.unversioned ∧
        Advanced v m m' m₁ m₁' := by
  have hgo {m : Memory} {w old : ManifestWork} (hm : Calm v m) (hw : w.key = k)
      (hold : m.works.get? k = some old)
      (hv : w.metadata.resourceVersion = old.metadata.resourceVersion) :
      ∃ u, u = { w with metadata := stamped w.metadata (m.version + 1), status := old.status } ∧
        m.answer t (.replaceWork w) = (.ok u, { m with
          works := m.works.insert k u
          version := m.version + 1
          writes := m.writes ++ [.replaceWork k] }) := by
    subst hw
    refine ⟨_, rfl, (Memory.unlessFailing_of_none (hm.quiet.failures _) _).trans ?_⟩
    rw [hold, Memory.ifCurrent_of_same hv]
    rfl
  have hkey' : w'.key = k := (ManifestWork.key_of_unversioned hsame).symm.trans hkey
  obtain ⟨u, hu, hanswer⟩ := hgo h.left hkey hold hversion
  obtain ⟨u', hu', hanswer'⟩ := hgo h.right hkey' hold' hversion'
  have hstatus : old.status = old'.status := by
    have hstored := h.works k hk
    rw [hold, hold'] at hstored
    exact ManifestWork.status_of_unversioned (Option.some.inj hstored)
  have hview : u.unversioned = u'.unversioned := by
    have hparts (w : ManifestWork) (n : Nat) (s : Option WorkStatus) :
        ManifestWork.unversioned { w with metadata := stamped w.metadata n, status := s } =
          { w.unversioned with status := s } := rfl
    rw [hu, hu', hparts, hparts, hsame, hstatus]
  refine ⟨u, u', _, _, hanswer, hanswer', hview, h.rework hk
    (fun k' => Table.get?_insert _ _ _ _) (fun k' => Table.get?_insert _ _ _ _)
    (congrArg some hview) (fun w₁ hw₁ => ?_) 1 _⟩
  rw [← Option.some.inj hw₁, hu]
  exact hkey

/-! ## Updates of the cluster -/

namespace Hub.Part

def operation : Part → Hub.Operation
  | .status => .setStatus
  | .finalizers => .setFinalizers

def mark : Part → String → Write
  | .status => .setStatus
  | .finalizers => .setFinalizers

/-- The cluster `d` with the part as it is in `e`. -/
def take (p : Part) (e d : ManagedCluster) : ManagedCluster :=
  match p with
  | .status => { d with status := e.status }
  | .finalizers => { d with metadata := { d.metadata with finalizers := e.metadata.finalizers } }

/-- What is left of the stored cluster `d` when the part is written as in `e`. -/
def left (p : Part) (d e : ManagedCluster) (n : Nat) : Option ManagedCluster :=
  let u := { p.take e d with metadata := stamped (p.take e d).metadata n }
  if p.operation == .setFinalizers && u.isDeleting && (u.metadata.finalizers.getD []).isEmpty then
    none
  else some u

theorem left_view (p : Part) (d e : ManagedCluster) (n n' : Nat) :
    (p.left d e n).map (·.unversioned) =
      (p.left d.unversioned e.unversioned n').map (·.unversioned) := by
  cases p with
  | status => rfl
  | finalizers =>
    show (if d.isDeleting && (e.metadata.finalizers.getD []).isEmpty then none
      else _ : Option _).map _ =
      (if d.isDeleting && (e.metadata.finalizers.getD []).isEmpty then none
        else _ : Option _).map _
    split <;> rfl

/-- What an update of the part answers: the cluster `d` with the part as in `e`. -/
def updated (p : Part) (d e : ManagedCluster) (n : Nat) : ManagedCluster :=
  { p.take e d with metadata := stamped (p.take e d).metadata n }

theorem nameText_of_left {p : Part} {d e u : ManagedCluster} {n : Nat} (h : p.left d e n = some u) :
    u.nameText = d.nameText := by
  unfold left at h
  dsimp only at h
  split at h
  · cases h
  · rw [← Option.some.inj h]
    cases p <;> rfl

end Hub.Part

/-- An update from the copy that is stored is done in a quiet hub. -/
theorem write_quiet (hm : m.Quiet) {d e : ManagedCluster}
    (hd : m.clusters.get? e.nameText = some d)
    (hversion : e.metadata.resourceVersion = d.metadata.resourceVersion) (p : Part) :
    ∃ cs, m.talk t (p.write e) = (.ok (p.updated d e (m.version + 1)), { m with
        clusters := cs
        version := m.version + 1
        writes := m.writes ++ [p.mark e.nameText] }) ∧
      ∀ n, cs.get? n = if n = e.nameText then p.left d e (m.version + 1)
        else m.clusters.get? n := by
  have htalk : m.talk t (p.write e) =
      m.updateCluster p.operation p.mark (p.take e) e := by cases p <;> rfl
  have hconflicts : ¬0 < m.conflicts := by rw [hm.conflicts]; exact Nat.lt_irrefl 0
  rw [htalk]
  unfold Memory.updateCluster
  dsimp only
  rw [if_neg hconflicts, Memory.unlessFailing_of_none (hm.failures _), hd,
    Memory.ifCurrent_of_same hversion]
  exact ⟨_, rfl, fun n => Table.get?_erase_or_insert _ _ _ _ _⟩

/-- An attempt of an update, in terms of the write that it may make. -/
theorem talk_tryUpdate (m : Memory) (t : Instant) (name : String) (p : Part)
    (edit : ManagedCluster → Option ManagedCluster) :
    m.talk t (Hub.tryUpdate name p edit) =
      match m.clusters.get? name with
      | none => ((⟨.ok false, []⟩, false), m)
      | some d =>
        match edit d with
        | none => ((⟨.ok false, [d]⟩, false), m)
        | some e =>
          match m.talk t (p.write e) with
          | (.ok _, m₁) => ((⟨.ok true, [d]⟩, false), m₁)
          | (.error f, m₁) => ((⟨.error f, [d]⟩, f.isConflict), m₁) := by
  have hread : Memory.answer t (.getCluster name) m = (.ok (m.clusters.get? name), m) := rfl
  unfold Memory.talk Hub.tryUpdate Hub.ask
  rw [Dialogue.run_bind, Dialogue.run_question, hread]
  dsimp only
  cases m.clusters.get? name with
  | none => rfl
  | some d =>
    dsimp only
    cases edit d with
    | none => rfl
    | some e =>
      dsimp only
      rw [Dialogue.run_bind]
      cases Dialogue.run (Memory.answer t) (p.write e) m with
      | mk r m₁ => cases r <;> rfl

theorem talk_updateCluster {name : String} {p : Part}
    {edit : ManagedCluster → Option ManagedCluster} {u : Update}
    (h : m.talk t (Hub.tryUpdate name p edit) = ((u, false), m₁)) (retries : Nat) :
    m.talk t (Hub.updateCluster name p edit retries) = (u, m₁) := by
  have h : Dialogue.run (Memory.answer t) (Hub.tryUpdate name p edit) m = ((u, false), m₁) := h
  unfold Memory.talk
  cases retries with
  | zero =>
    show Dialogue.run _ (Prod.fst <$> Hub.tryUpdate name p edit) m = _
    rw [map_eq_pure_bind, Dialogue.run_bind, h]
    rfl
  | succ n =>
    unfold Hub.updateCluster
    rw [Dialogue.run_bind, h]
    rfl

/-- Both updates have ended well, and alike as far as one sees. -/
structure SameUpdate (u u' : Update) : Prop where
  written : u'.written = u.written
  done : ∃ b, u.written = .ok b
  seen : u.seen.map (·.unversioned) = u'.seen.map (·.unversioned)

/-- A write of the cluster is done alike in both hubs. -/
theorem Twins.write (h : Twins v m m') (p : Part) {d d' e e' : ManagedCluster}
    (hd : m.clusters.get? v.name = some d) (hd' : m'.clusters.get? v.name = some d')
    (hsame : d.unversioned = d'.unversioned) (he : e.unversioned = e'.unversioned)
    (hname : e.nameText = v.name)
    (hversion : e.metadata.resourceVersion = d.metadata.resourceVersion)
    (hversion' : e'.metadata.resourceVersion = d'.metadata.resourceVersion) :
    ∃ u u' m₁ m₁', m.talk t (p.write e) = (.ok u, m₁) ∧ m'.talk t (p.write e') = (.ok u', m₁') ∧
      Advanced v m m' m₁ m₁' := by
  have hname' : e'.nameText = v.name := by
    show e'.unversioned.nameText = v.name
    rw [← he]
    exact hname
  obtain ⟨cs, hu, hcs⟩ := write_quiet (t := t) h.left.quiet (hname ▸ hd) hversion p
  obtain ⟨cs', hu', hcs'⟩ := write_quiet (t := t) h.right.quiet (hname' ▸ hd') hversion' p
  rw [hname] at hu hcs
  rw [hname'] at hu' hcs'
  have hleft : (p.left d e (m.version + 1)).map (·.unversioned) =
      (p.left d' e' (m'.version + 1)).map (·.unversioned) := by
    rw [p.left_view d e _ 0, p.left_view d' e' _ 0, hsame, he]
  refine ⟨_, _, _, _, hu, hu', h.recluster hcs hcs' hleft (fun c hc => ?_) (fun c hc => ?_) 1
    (p.mark v.name)⟩
  · rw [Hub.Part.nameText_of_left hc, h.left.filed.clusters _ _ hd]
  · rw [Hub.Part.nameText_of_left hc, h.right.filed.clusters _ _ hd']

theorem Twins.tryUpdate (h : Twins v m m') (p : Part)
    {edit : ManagedCluster → Option ManagedCluster} (hedit : Blind edit) :
    ∃ u u' m₁ m₁', m.talk t (Hub.tryUpdate v.name p edit) = ((u, false), m₁) ∧
      m'.talk t (Hub.tryUpdate v.name p edit) = ((u', false), m₁') ∧ SameUpdate u u' ∧
      Advanced v m m' m₁ m₁' := by
  have hstored := h.clusters v.name (Or.inl rfl)
  rw [talk_tryUpdate, talk_tryUpdate]
  rcases both_of_map_eq hstored with ⟨hd, hd'⟩ | ⟨d, d', hd, hd', hsame⟩
  · rw [hd, hd']
    exact ⟨_, _, m, m', rfl, rfl, ⟨rfl, ⟨false, rfl⟩, rfl⟩, Advanced.refl h⟩
  have hseen : [d].map (·.unversioned) = [d'].map (·.unversioned) := congrArg (fun c => [c]) hsame
  have hedits : (edit d).map (·.unversioned) = (edit d').map (·.unversioned) := by
    rw [← hedit.view, ← hedit.view, hsame]
  rw [hd, hd']
  dsimp only
  rcases both_of_map_eq hedits with ⟨he, he'⟩ | ⟨e, e', he, he', hesame⟩
  · rw [he, he']
    exact ⟨_, _, m, m', rfl, rfl, ⟨rfl, ⟨false, rfl⟩, hseen⟩, Advanced.refl h⟩
  have hname : e.nameText = v.name := (hedit.name d e he).trans (h.left.filed.clusters _ _ hd)
  obtain ⟨u, u', m₁, m₁', hu, hu', hadvanced⟩ := h.write (t := t) p hd hd' hsame hesame hname
    (hedit.version d e he) (hedit.version d' e' he')
  rw [he, he']
  dsimp only
  rw [hu, hu']
  exact ⟨_, _, m₁, m₁', rfl, rfl, ⟨rfl, ⟨true, rfl⟩, hseen⟩, hadvanced⟩

end Hosting
