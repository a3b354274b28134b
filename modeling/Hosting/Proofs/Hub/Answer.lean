import Hosting.Hub.Update
import Hosting.Proofs.Hub.Frame

/-!
# What the hub does when it is asked

`Gives` tells the two ends of a request apart: a refusal, which changes no object, and the
deed.  Each request that can be refused has a lemma that names its deed.
-/

namespace Hosting

namespace ManagedCluster

/-- `d'` is `d` with these finalizers and this status, under whatever version. -/
structure Revised (d : ManagedCluster) (finalizers : Option (List String))
    (status : Option Conditions) (d' : ManagedCluster) : Prop where
  bare : d'.bare = d.bare
  finalizers : d'.metadata.finalizers = finalizers
  status : d'.status = status

end ManagedCluster

/-- The work but for its finalizers and the time of its deletion. -/
def ManifestWork.content (w : ManifestWork) : ManifestWork :=
  { w with metadata := { w.metadata with finalizers := none, deletionTimestamp := none } }

namespace Hub

/-- One part of the cluster `d` is now that of `e`.  A deleting cluster that is left
without finalizers is gone. -/
def Part.Took (p : Part) (d e : ManagedCluster) (after : Option ManagedCluster) : Prop :=
  match p with
  | .status => ∃ d', after = some d' ∧ d.Revised d.metadata.finalizers e.status d'
  | .finalizers =>
    (∃ d', after = some d' ∧ d.Revised e.metadata.finalizers d.status d') ∨
      d.isDeleting = true ∧ e.metadata.finalizers.getD [] = [] ∧ after = none

theorem Part.Took.bare {p : Part} {d e d' : ManagedCluster} (h : p.Took d e (some d')) :
    d'.bare = d.bare := by
  cases p with
  | status =>
    obtain ⟨_, he, hrevised⟩ := h
    exact Option.some.inj he ▸ hrevised.bare
  | finalizers =>
    rcases h with ⟨_, he, hrevised⟩ | ⟨-, -, hnone⟩
    · exact Option.some.inj he ▸ hrevised.bare
    · cases hnone

/-- The request that writes the part. -/
def Part.request : Part → ManagedCluster → Request
  | .status, c => .setStatus c
  | .finalizers, c => .setFinalizers c

/-- A work that the request puts in place is called by its name. -/
def Request.isNamed : Request → Bool
  | .createWork w | .replaceWork w => w.metadata.IsNamed
  | _ => true

namespace Memory

variable {α : Type} {m : Memory}

/-- Refused, and no object is changed; or done as `did` says. -/
def Gives (m : Memory) (did : α → Memory → Prop) : Except Error α × Memory → Prop
  | (.error _, m') => Alike m m'
  | (.ok a, m') => did a m'

theorem Gives.unlessFailing {did : α → Memory → Prop} {go : Except Error α × Memory}
    (h : Gives m did go) (op : Operation) : Gives m did (m.unlessFailing op go) := by
  unfold Memory.unlessFailing
  split
  · exact ⟨rfl, rfl, rfl, rfl⟩
  · exact h

theorem Gives.ifCurrent {β : Type} {did : α → Memory → Prop} {kind name : String}
    {stored : Option β} {metadata : β → Metadata} {copy : Metadata}
    {go : β → Except Error α × Memory} (h : ∀ s, stored = some s → Gives m did (go s)) :
    Gives m did (m.ifCurrent kind name stored metadata copy go) :=
  ifCurrent_ind (fun _ => Alike.refl m) fun s hs _ => h s hs

theorem Gives.imp {did did' : α → Memory → Prop} {r : Except Error α × Memory}
    (h : Gives m did r) (hd : ∀ a m', did a m' → did' a m') : Gives m did' r := by
  obtain ⟨r | a, m'⟩ := r
  · exact h
  · exact hd a m' h

theorem Gives.elim {did : α → Memory → Prop} {r : Except Error α × Memory} {P : Memory → Prop}
    (h : Gives m did r) (herr : ∀ m', Alike m m' → P m') (hok : ∀ a m', did a m' → P m') :
    P r.2 := by
  obtain ⟨e | a, m'⟩ := r
  · exact herr m' h
  · exact hok a m' h

/-! ## Clusters -/

/-- A part of the cluster `d`, filed under `name`, was written as in `e`. -/
structure Updated (p : Part) (name : String) (d e : ManagedCluster) (m m' : Memory) : Prop where
  within : Within { clusters := (· = name) } m m'
  stored : p.Took d e (m'.clusters.get? name)

theorem Updated.of_alike {p : Part} {name : String} {d e : ManagedCluster} {m' m'' : Memory}
    (h : Alike m m') (h' : Updated p name d e m' m'') : Updated p name d e m m'' :=
  ⟨(Within.of_alike _ h).trans h'.within, h'.stored⟩

theorem updateCluster_gives (op : Operation) (write : String → Write)
    (edit : ManagedCluster → ManagedCluster) (c : ManagedCluster) :
    Gives m (fun _ m' => ∃ d, m.clusters.get? c.nameText = some d ∧
        Within { clusters := (· = c.nameText) } m m' ∧
        ∀ u, u = { edit d with metadata := stamped (edit d).metadata (m.version + 1) } →
          m'.clusters.get? c.nameText =
            if op = .setFinalizers ∧ u.isDeleting = true ∧ u.metadata.finalizers.getD [] = [] then
              none
            else some u)
      (m.updateCluster op write edit c) := by
  unfold updateCluster
  dsimp only
  split
  · exact ⟨rfl, rfl, rfl, rfl⟩
  refine Gives.unlessFailing (Gives.ifCurrent fun d hd => ?_) op
  refine ⟨d, hd, ⟨fun n hn => ?_, fun _ _ => rfl, fun _ _ => rfl, rfl⟩, ?_⟩
  · show (if _ then _ else _ : Table String ManagedCluster).get? n = _
    split
    · exact Table.get?_erase_of_ne _ hn
    · exact Table.get?_insert_of_ne _ hn _
  · rintro u rfl
    show (if _ then _ else _ : Table String ManagedCluster).get? _ = _
    simp only [Bool.and_eq_true, beq_iff_eq, List.isEmpty_iff, and_assoc]
    split
    · exact Table.get?_erase_self _ _
    · exact Table.get?_insert_self _ _ _

theorem write_gives (t : Instant) (p : Part) (e : ManagedCluster) :
    Gives m (fun _ m' => ∃ d, m.clusters.get? e.nameText = some d ∧
        Updated p e.nameText d e m m')
      (m.talk t (p.write e)) := by
  cases p with
  | status =>
    refine (updateCluster_gives .setStatus .setStatus
      (fun d => { d with status := e.status }) e).imp fun _ m' ⟨d, hd, hwithin, hafter⟩ => ?_
    refine ⟨d, hd, hwithin, _, (hafter _ rfl).trans (if_neg fun h => ?_), rfl, rfl, rfl⟩
    cases h.1
  | finalizers =>
    refine (updateCluster_gives .setFinalizers .setFinalizers
      (fun d => { d with metadata := { d.metadata with finalizers := e.metadata.finalizers } })
      e).imp fun _ m' ⟨d, hd, hwithin, hafter⟩ => ?_
    refine ⟨d, hd, hwithin, ?_⟩
    have hafter := hafter _ rfl
    split at hafter
    · next h => exact Or.inr ⟨h.2.1, h.2.2, hafter⟩
    · exact Or.inl ⟨_, hafter, rfl, rfl, rfl⟩

/-! ## Works -/

theorem listWorks_gives (t : Instant) (nspace : String) (selector : Option String) :
    Gives m (fun ws m' => ws = m.worksIn nspace selector ∧ m' = m)
      (m.answer t (.listWorks nspace selector)) := by
  refine Gives.unlessFailing ?_ _
  exact ⟨rfl, rfl⟩

theorem createWork_gives (w : ManifestWork) :
    Gives m (fun w' m' => m.works.get? w.key = none ∧
        w' = { w with metadata := stamped w.metadata (m.version + 1), status := none } ∧
        Within { works := (· = w.key) } m m' ∧ m'.works.get? w.key = some w')
      (m.createWork w) := by
  refine Gives.unlessFailing ?_ _
  split
  · exact Alike.refl m
  next hnone =>
  refine ⟨hnone, rfl, ⟨fun _ _ => rfl, fun k hk => ?_, fun _ _ => rfl, rfl⟩, ?_⟩
  · exact Table.get?_insert_of_ne _ hk _
  · exact Table.get?_insert_self _ _ _

theorem replaceWork_gives (w : ManifestWork) :
    Gives m (fun w' m' => ∃ old, m.works.get? w.key = some old ∧
        w' = { w with metadata := stamped w.metadata (m.version + 1), status := old.status } ∧
        Within { works := (· = w.key) } m m' ∧ m'.works.get? w.key = some w')
      (m.replaceWork w) := by
  refine Gives.unlessFailing (Gives.ifCurrent fun old hold => ?_) _
  refine ⟨old, hold, rfl, ⟨fun _ _ => rfl, fun k hk => ?_, fun _ _ => rfl, rfl⟩, ?_⟩
  · exact Table.get?_insert_of_ne _ hk _
  · exact Table.get?_insert_self _ _ _

/-- The work is as it was, but all its finalizers may be off, and its deletion may have been
asked for. -/
structure Leaves (w w' : ManifestWork) : Prop where
  content : w'.content = w.content
  finalizers : w'.metadata.finalizers = w.metadata.finalizers ∨ w'.metadata.finalizers = none
  deletion : ∀ t, w.metadata.deletionTimestamp = some t → w'.metadata.deletionTimestamp = some t

namespace Leaves

variable {w w' w'' : ManifestWork}

theorem refl (w : ManifestWork) : Leaves w w := ⟨rfl, Or.inl rfl, fun _ => id⟩

theorem trans (h : Leaves w w') (h' : Leaves w' w'') : Leaves w w'' where
  content := h'.content.trans h.content
  finalizers := by
    rcases h'.finalizers with hf | hf
    · rw [hf]
      exact h.finalizers
    · exact Or.inr hf
  deletion t ht := h'.deletion t (h.deletion t ht)

theorem labels (h : Leaves w w') : w'.metadata.labels = w.metadata.labels := by
  show w'.content.metadata.labels = w.content.metadata.labels
  rw [h.content]

theorem isNamed (h : Leaves w w') : w'.metadata.IsNamed ↔ w.metadata.IsNamed := by
  show w'.content.metadata.IsNamed ↔ w.content.metadata.IsNamed
  rw [h.content]

end Leaves

/-- No work is there that was not there before. -/
def Sheds (m m' : Memory) : Prop :=
  ∀ k w', m'.works.get? k = some w' → ∃ w, m.works.get? k = some w ∧ Leaves w w'

theorem Sheds.of_works {m' : Memory} (h : m'.works = m.works) : Sheds m m' := fun _ w hw =>
  ⟨w, h ▸ hw, Leaves.refl w⟩

theorem Sheds.trans {m' m'' : Memory} (h : Sheds m m') (h' : Sheds m' m'') : Sheds m m'' := by
  intro k w'' hw''
  obtain ⟨w', hw', hl'⟩ := h' k w'' hw''
  obtain ⟨w, hw, hl⟩ := h k w' hw'
  exact ⟨w, hw, hl.trans hl'⟩

theorem get?_shed {ws : Table ObjectKey ManifestWork} {w w' : ManifestWork} {k : ObjectKey}
    (hw : ws.get? k = some w) (hl : Leaves w w') (p : Prop) [Decidable p] :
    (∀ k', k' ≠ k → (if p then ws.erase k else ws.insert k w').get? k' = ws.get? k') ∧
      ∀ k' v', (if p then ws.erase k else ws.insert k w').get? k' = some v' →
        ∃ v, ws.get? k' = some v ∧ Leaves v v' := by
  have hne : ∀ k', k' ≠ k → (if p then ws.erase k else ws.insert k w').get? k' = ws.get? k' := by
    intro k' hk
    split
    · exact Table.get?_erase_of_ne _ hk
    · exact Table.get?_insert_of_ne _ hk _
  refine ⟨hne, fun k' v' hv => ?_⟩
  by_cases hk : k' = k
  · subst hk
    split at hv
    · rw [Table.get?_erase_self] at hv
      cases hv
    · rw [Table.get?_insert_self, Option.some.injEq] at hv
      exact ⟨w, hw, hv ▸ hl⟩
  · exact ⟨v', hne k' hk ▸ hv, Leaves.refl v'⟩

theorem deleteWork_gives (t : Instant) (k : ObjectKey) :
    Gives m (fun _ m' => Within { works := (· = k) } m m' ∧ Sheds m m') (m.deleteWork t k) := by
  refine Gives.unlessFailing ?_ _
  split
  · exact ⟨Within.refl _ m, Sheds.of_works rfl⟩
  next w hw =>
  have hl : Leaves w { w with metadata := { w.metadata with
      deletionTimestamp := w.metadata.deletionTimestamp.or (some t.truncated) } } := by
    refine ⟨rfl, Or.inl rfl, fun x hx => ?_⟩
    show w.metadata.deletionTimestamp.or _ = some x
    rw [hx, Option.some_or]
  have h := get?_shed hw hl ((w.metadata.finalizers.getD []).isEmpty = true)
  exact ⟨⟨fun _ _ => rfl, h.1, fun _ _ => rfl, rfl⟩, h.2⟩

theorem releaseWork_gives (k : ObjectKey) :
    Gives m (fun _ m' => Within { works := (· = k) } m m' ∧ Sheds m m') (m.releaseWork k) := by
  unfold releaseWork
  split
  · exact ⟨Within.refl _ m, Sheds.of_works rfl⟩
  next w hw =>
  have hl : Leaves w { w with metadata := { w.metadata with finalizers := none } } :=
    ⟨rfl, Or.inr rfl, fun _ => id⟩
  have h := get?_shed hw hl (w.isDeleting = true)
  exact ⟨⟨fun _ _ => rfl, h.1, fun _ _ => rfl, rfl⟩, h.2⟩

/-! ## Secrets -/

theorem replaceSecret_gives (s : Secret) :
    Gives m (fun s' m' => s' = { s with metadata := stamped s.metadata (m.version + 1) } ∧
        Within { secrets := (· = s.key) } m m' ∧ m'.secrets.get? s.key = some s')
      (m.replaceSecret s) := by
  refine Gives.unlessFailing (Gives.ifCurrent fun _ _ => ?_) _
  refine ⟨rfl, ⟨fun _ _ => rfl, fun _ _ => rfl, fun k hk => ?_, rfl⟩, ?_⟩
  · exact Table.get?_insert_of_ne _ hk _
  · exact Table.get?_insert_self _ _ _

theorem deleteSecret_gives (k : ObjectKey) :
    Gives m (fun _ m' => Within { secrets := (· = k) } m m' ∧ m'.secrets.get? k = none)
      (m.deleteSecret k) := by
  refine Gives.unlessFailing ?_ _
  split
  · exact ⟨⟨fun _ _ => rfl, fun _ _ => rfl, fun k' hk => Table.get?_erase_of_ne _ hk, rfl⟩,
      Table.get?_erase_self _ _⟩
  · next h =>
    refine ⟨Within.refl _ m, ?_⟩
    exact Table.contains_eq_false_iff.mp (Bool.eq_false_iff.mpr h)

/-! ## What becomes of the clusters -/

/-- Clusters are written by updates of clusters alone. -/
theorem clusters_answer {t : Instant} {q : Request} (h : ∀ (p : Part) e, q ≠ p.request e) :
    (m.answer t q).2.clusters = m.clusters := by
  have hrefused (m' : Memory) (h : Alike m m') : m'.clusters = m.clusters := h.clusters
  cases q with
  | setFinalizers e => exact absurd rfl (h .finalizers e)
  | setStatus e => exact absurd rfl (h .status e)
  | listWorks n s =>
    refine (listWorks_gives t n s).elim hrefused ?_
    rintro _ m' ⟨-, rfl⟩
    rfl
  | createWork w =>
    exact (createWork_gives w).elim hrefused fun _ _ h => h.2.2.1.clusters_eq fun _ => id
  | replaceWork w =>
    exact (replaceWork_gives w).elim hrefused fun _ _ ⟨_, h⟩ => h.2.2.1.clusters_eq fun _ => id
  | deleteWork k =>
    exact (deleteWork_gives t k).elim hrefused fun _ _ h => h.1.clusters_eq fun _ => id
  | releaseWork k =>
    exact (releaseWork_gives k).elim hrefused fun _ _ h => h.1.clusters_eq fun _ => id
  | replaceSecret s =>
    exact (replaceSecret_gives s).elim hrefused fun _ _ h => h.2.1.clusters_eq fun _ => id
  | deleteSecret k =>
    exact (deleteSecret_gives k).elim hrefused fun _ _ h => h.1.clusters_eq fun _ => id
  | _ => rfl

/-- Whatever is done to a cluster, it stays who it is. -/
theorem bare_of_answer (t : Instant) (q : Request) {n : String} {d : ManagedCluster}
    (hd : (m.answer t q).2.clusters.get? n = some d) :
    ∃ c, m.clusters.get? n = some c ∧ d.bare = c.bare := by
  have hupdate (p : Part) (e : ManagedCluster) :
      ∀ n d, (m.talk t (p.write e)).2.clusters.get? n = some d →
        ∃ c, m.clusters.get? n = some c ∧ d.bare = c.bare := by
    refine (write_gives t p e).elim (P := fun m' => ∀ n d, m'.clusters.get? n = some d →
      ∃ c, m.clusters.get? n = some c ∧ d.bare = c.bare)
        (fun m' hm n d hd => ⟨d, hm.clusters ▸ hd, rfl⟩) ?_
    rintro _ m' ⟨c, hc, hu⟩ n d hd
    by_cases hn : n = e.nameText
    · subst hn
      have htook := hu.stored
      rw [hd] at htook
      exact ⟨c, hc, htook.bare⟩
    · exact ⟨d, (hu.within.clusters n hn).symm.trans hd, rfl⟩
  cases q with
  | setFinalizers e => exact hupdate .finalizers e n d hd
  | setStatus e => exact hupdate .status e n d hd
  | _ =>
    rw [clusters_answer fun p e heq => by cases p <;> cases heq] at hd
    exact ⟨d, hd, rfl⟩

/-! ## What becomes of the works -/

/-- What a request can do to the works: nothing, or it puts one in place under a new version, or
it removes or marks the one that it names. -/
inductive WorksDone (m : Memory) (q : Request) (m' : Memory) : Prop where
  | same (works : m'.works = m.works)
  | put {w u : ManifestWork} (asked : q = .createWork w ∨ q = .replaceWork w)
    (stamp : u.metadata = stamped w.metadata (m.version + 1))
    (within : Within { works := (· = w.key) } m m') (there : m'.works.get? w.key = some u)
  | removed {k : ObjectKey} (asked : q = .deleteWork k ∨ q = .releaseWork k)
    (within : Within { works := (· = k) } m m') (sheds : Sheds m m')

theorem worksDone_answer (t : Instant) (q : Request) : WorksDone m q (m.answer t q).2 := by
  have hrefused {q : Request} (m' : Memory) (h : Alike m m') : WorksDone m q m' := .same h.works
  cases q with
  | setFinalizers c =>
    exact (write_gives t .finalizers c).elim hrefused fun _ _ ⟨_, _, hu⟩ =>
      .same (hu.within.works_eq fun _ => id)
  | setStatus c =>
    exact (write_gives t .status c).elim hrefused fun _ _ ⟨_, _, hu⟩ =>
      .same (hu.within.works_eq fun _ => id)
  | listWorks n s =>
    refine (listWorks_gives t n s).elim hrefused ?_
    rintro _ m' ⟨-, rfl⟩
    exact .same rfl
  | createWork w =>
    refine (createWork_gives w).elim hrefused ?_
    rintro u m' ⟨-, rfl, hwithin, hthere⟩
    exact .put (Or.inl rfl) rfl hwithin hthere
  | replaceWork w =>
    refine (replaceWork_gives w).elim hrefused ?_
    rintro u m' ⟨old, -, rfl, hwithin, hthere⟩
    exact .put (Or.inr rfl) rfl hwithin hthere
  | deleteWork k =>
    exact (deleteWork_gives t k).elim hrefused fun _ _ h => .removed (Or.inl rfl) h.1 h.2
  | releaseWork k =>
    exact (releaseWork_gives k).elim hrefused fun _ _ h => .removed (Or.inr rfl) h.1 h.2
  | replaceSecret s =>
    exact (replaceSecret_gives s).elim hrefused fun _ _ h => .same (h.2.1.works_eq fun _ => id)
  | deleteSecret k =>
    exact (deleteSecret_gives k).elim hrefused fun _ _ h => .same (h.1.works_eq fun _ => id)
  | _ => exact .same rfl

/-! ## Keys -/

section Keys

variable {κ β : Type} [KeyOrder κ] [DecidableEq κ] {key : β → κ} {t : Table κ β}

/-- Each entry is filed under its own key. -/
def FiledBy (key : β → κ) (t : Table κ β) : Prop := ∀ k v, t.get? k = some v → key v = k

theorem FiledBy.insert (h : FiledBy key t) {k : κ} {v : β} (hv : key v = k) :
    FiledBy key (t.insert k v) := by
  intro k' v' hk'
  rw [Table.get?_insert] at hk'
  split at hk'
  · next he =>
    cases hk'
    rw [hv, he]
  · exact h k' v' hk'

theorem FiledBy.erase (h : FiledBy key t) (k : κ) : FiledBy key (t.erase k) := by
  intro k' v' hk'
  rw [Table.get?_erase] at hk'
  split at hk'
  · cases hk'
  · exact h k' v' hk'

end Keys

/-- Each cluster, work and secret is filed under its own key. -/
structure Filed (m : Memory) : Prop where
  clusters : FiledBy ManagedCluster.nameText m.clusters
  works : FiledBy ManifestWork.key m.works
  secrets : FiledBy Secret.key m.secrets

/-- Also, passes call each cluster and each work by its name. -/
structure Named (m : Memory) : Prop extends Filed m where
  clusterNames : ∀ n c, m.clusters.get? n = some c → c.metadata.IsNamed
  workNames : ∀ k w, m.works.get? k = some w → w.metadata.IsNamed

namespace Filed

theorem unlessFailing (h : m.Filed) {go : Except Error α × Memory} (hgo : go.2.Filed)
    (op : Operation) : (m.unlessFailing op go).2.Filed := by
  unfold Memory.unlessFailing
  split
  · exact ⟨h.clusters, h.works, h.secrets⟩
  · exact hgo

theorem ifCurrent {β : Type} (h : m.Filed) {kind name : String} {stored : Option β}
    {metadata : β → Metadata} {copy : Metadata} {go : β → Except Error α × Memory}
    (hgo : ∀ s, stored = some s → (go s).2.Filed) :
    (m.ifCurrent kind name stored metadata copy go).2.Filed :=
  ifCurrent_ind (P := fun r => r.2.Filed) (fun _ => h) fun s hs _ => hgo s hs

theorem updateCluster (h : m.Filed) (op : Operation) (write : String → Write)
    {edit : ManagedCluster → ManagedCluster} (hedit : ∀ d, (edit d).nameText = d.nameText)
    (c : ManagedCluster) : (m.updateCluster op write edit c).2.Filed := by
  unfold Memory.updateCluster
  dsimp only
  split
  · exact ⟨h.clusters, h.works, h.secrets⟩
  refine h.unlessFailing (h.ifCurrent fun d hd => ?_) op
  refine ⟨?_, h.works, h.secrets⟩
  show FiledBy _ (if _ then _ else _)
  split
  · exact h.clusters.erase _
  · refine h.clusters.insert ?_
    rw [← h.clusters _ _ hd, ← hedit d]
    rfl

theorem answer (h : m.Filed) (t : Instant) (q : Request) : (m.answer t q).2.Filed := by
  cases q with
  | getCluster n => exact h
  | setFinalizers c =>
    refine h.updateCluster _ _ (fun d => ?_) c
    rfl
  | setStatus c =>
    refine h.updateCluster _ _ (fun d => ?_) c
    rfl
  | listWorks n s => exact h.unlessFailing h _
  | getWork k => exact h
  | createWork w =>
    refine h.unlessFailing ?_ _
    split
    · exact h
    · exact ⟨h.clusters, h.works.insert rfl, h.secrets⟩
  | replaceWork w =>
    refine h.unlessFailing (h.ifCurrent fun _ _ => ?_) _
    exact ⟨h.clusters, h.works.insert rfl, h.secrets⟩
  | deleteWork k =>
    refine h.unlessFailing ?_ _
    split
    · exact h
    next w hw =>
    refine ⟨h.clusters, ?_, h.secrets⟩
    show FiledBy _ (if _ then _ else _)
    split
    · exact h.works.erase _
    · exact h.works.insert (h.works k w hw)
  | releaseWork k =>
    show (m.releaseWork k).2.Filed
    unfold releaseWork
    split
    · exact h
    next w hw =>
    refine ⟨h.clusters, ?_, h.secrets⟩
    show FiledBy _ (if _ then _ else _)
    split
    · exact h.works.erase _
    · exact h.works.insert (h.works k w hw)
  | getSecret k => exact h
  | replaceSecret s =>
    refine h.unlessFailing (h.ifCurrent fun _ _ => ?_) _
    exact ⟨h.clusters, h.works, h.secrets.insert rfl⟩
  | deleteSecret k =>
    refine h.unlessFailing ?_ _
    split
    · exact ⟨h.clusters, h.works, h.secrets.erase _⟩
    · exact h
  | listAddOns n => exact h
  | publish about e => exact ⟨h.clusters, h.works, h.secrets⟩

/-- Also when only a cluster was written, which is still itself. -/
theorem of_within (h : m.Filed) {m' : Memory} {n : String} {d : ManagedCluster}
    (hwithin : Within { clusters := (· = n) } m m') (hd : m'.clusters.get? n = some d)
    (hn : d.nameText = n) : m'.Filed where
  clusters k c hc := by
    by_cases hk : k = n
    · rw [hk, hd, Option.some.injEq] at hc
      rw [← hc, hn, hk]
    · rw [hwithin.clusters k hk] at hc
      exact h.clusters k c hc
  works := (hwithin.works_eq fun _ => id) ▸ h.works
  secrets := (hwithin.secrets_eq fun _ => id) ▸ h.secrets

theorem talk (h : m.Filed) (t : Instant) (d : Talk α) : (m.talk t d).2.Filed := by
  unfold Memory.talk
  induction d generalizing m with
  | done a => exact h
  | ask q next ih => exact ih _ (h.answer t q)

end Filed

theorem Named.anyName_eq (h : m.Named) {n : String} {c : ManagedCluster}
    (hc : m.clusters.get? n = some c) : c.anyName = n :=
  (ManagedCluster.anyName_eq (h.clusterNames n c hc)).trans (h.clusters n c hc)

theorem Named.of_alike {m' : Memory} (h : m.Named) (ha : Alike m m') : m'.Named where
  clusters := ha.clusters ▸ h.clusters
  works := ha.works ▸ h.works
  secrets := ha.secrets ▸ h.secrets
  clusterNames := ha.clusters ▸ h.clusterNames
  workNames := ha.works ▸ h.workNames

/-- Clusters and works go on to be called by their names. -/
theorem Named.answer (h : m.Named) {q : Request} (hq : q.isNamed = true) (t : Instant) :
    (m.answer t q).2.Named := by
  refine ⟨h.toFiled.answer t q, fun n d hd => ?_, fun k u hu => ?_⟩
  · obtain ⟨c, hc, hbare⟩ := bare_of_answer t q hd
    exact (ManagedCluster.isNamed_of_bare hbare).mpr (h.clusterNames n c hc)
  · rcases worksDone_answer t q (m := m) with hsame | ⟨hasked, hstamp, hwithin, hthere⟩ |
      ⟨-, -, hsheds⟩
    · exact h.workNames k u (hsame ▸ hu)
    · next w v =>
      by_cases hk : k = w.key
      · subst hk
        rw [hthere, Option.some.injEq] at hu
        have hw : w.metadata.IsNamed := by
          rcases hasked with rfl | rfl <;> exact of_decide_eq_true hq
        rw [← hu, hstamp]
        exact hw
      · exact h.workNames k u ((hwithin.works k hk).symm.trans hu)
    · obtain ⟨w, hw, hleaves⟩ := hsheds k u hu
      exact hleaves.isNamed.mpr (h.workNames k w hw)

/-! ## Failures -/

theorem failures_ifCurrent {β : Type} {kind name : String} {stored : Option β}
    {metadata : β → Metadata} {copy : Metadata} {go : β → Except Error α × Memory}
    (hgo : ∀ s, (go s).2.failures = m.failures) :
    (m.ifCurrent kind name stored metadata copy go).2.failures = m.failures :=
  ifCurrent_ind (P := fun r => r.2.failures = m.failures) (fun _ => rfl) fun s _ _ => hgo s

section

variable {op : Operation} (h : m.failures.get? op = none)

include h

theorem failures_unlessFailing {go : Except Error α × Memory} (hgo : go.2.failures = m.failures)
    (op' : Operation) : (m.unlessFailing op' go).2.failures.get? op = none := by
  unfold unlessFailing
  split
  · show (m.failures.erase op').get? op = none
    rw [Table.get?_erase, h, ite_self]
  · rw [hgo, h]

theorem failures_updateCluster (op' : Operation) (write : String → Write)
    (edit : ManagedCluster → ManagedCluster) (c : ManagedCluster) :
    (m.updateCluster op' write edit c).2.failures.get? op = none := by
  unfold updateCluster
  dsimp only
  split
  · exact h
  exact failures_unlessFailing h (failures_ifCurrent fun _ => rfl) op'

/-- No request lays a failure in wait. -/
theorem failures_answer (t : Instant) (q : Request) : (m.answer t q).2.failures.get? op = none := by
  cases q with
  | setFinalizers c => exact failures_updateCluster h _ _ _ c
  | setStatus c => exact failures_updateCluster h _ _ _ c
  | listWorks n s => exact failures_unlessFailing h rfl _
  | createWork w =>
    refine failures_unlessFailing h ?_ _
    split <;> rfl
  | replaceWork w => exact failures_unlessFailing h (failures_ifCurrent fun _ => rfl) _
  | deleteWork k =>
    refine failures_unlessFailing h ?_ _
    split <;> rfl
  | releaseWork k =>
    show (m.releaseWork k).2.failures.get? op = none
    unfold releaseWork
    split <;> exact h
  | replaceSecret s => exact failures_unlessFailing h (failures_ifCurrent fun _ => rfl) _
  | deleteSecret k =>
    refine failures_unlessFailing h ?_ _
    split <;> rfl
  | _ => exact h

end

theorem failures_talk {op : Operation} (h : m.failures.get? op = none) (t : Instant) (d : Talk α) :
    (m.talk t d).2.failures.get? op = none := by
  unfold Memory.talk
  induction d generalizing m with
  | done a => exact h
  | ask q next ih => exact ih _ (failures_answer h t q)

/-! ## Listings -/

theorem mem_worksIn {nspace : String} {selector : Option String} {w : ManifestWork} :
    w ∈ m.worksIn nspace selector ↔ ∃ k, m.works.get? k = some w ∧ k.nspace = nspace ∧
      selects w.metadata selector = true := by
  simp only [worksIn, List.mem_map, List.mem_filter, Bool.and_eq_true, beq_iff_eq]
  constructor
  · rintro ⟨⟨k, w'⟩, ⟨hmem, hn, hs⟩, rfl⟩
    exact ⟨k, Table.mem_entries_iff.mp hmem, hn, hs⟩
  · rintro ⟨k, hk, hn, hs⟩
    exact ⟨(k, w), ⟨Table.mem_entries_iff.mpr hk, hn, hs⟩, rfl⟩

end Memory
end Hub
end Hosting
