import Hosting.Proofs.Overwriting
import Mathlib.Data.List.Nodup

/-!
# The ledger of the hub

Whatever is put into the hub, created, replaced or updated is entered under the next number, and
nothing else is entered.  So the entries of a run are numbered from one on (`Accounted`), each
stored object is under the version of its last entry, and a version tells the write that it was
given to from all others, also when an object has gone since and come back under the same key.
-/

namespace Hosting
namespace Hub

open Memory (Alike later_answer later_apply Later Renewed Within stale? stamped)

/-! ## Entries -/

/-- An object that is kept under a version. -/
inductive Object where
  | cluster (name : String)
  | work (key : ObjectKey)
  | secret (key : ObjectKey)
  deriving DecidableEq, Repr

def Object.scope : Object → Memory.Scope
  | .cluster n => { clusters := (· = n) }
  | .work k => { works := (· = k) }
  | .secret k => { secrets := (· = k) }

/-- What is stored of an object, as far as all objects have it. -/
def Memory.stored? (m : Memory) : Object → Option Metadata
  | .cluster n => (m.clusters.get? n).map (·.metadata)
  | .work k => (m.works.get? k).map (·.metadata)
  | .secret k => (m.secrets.get? k).map (·.metadata)

/-- An object that was written, and what was stored of it then. -/
structure Entry where
  object : Object
  metadata : Metadata

namespace Entry

def version? (x : Entry) : Option String := x.metadata.resourceVersion

/-- A deleting cluster that nothing holds any more.  It is written, but not kept. -/
def IsReleased (x : Entry) : Prop :=
  (∃ n, x.object = .cluster n) ∧ x.metadata.isDeleting = true ∧
    x.metadata.finalizers.getD [] = []

end Entry

/-- The entry of a request: the object that is handed back as it was written. -/
def Request.entered? : (q : Request) → q.Answer → Option Entry
  | .setFinalizers _, a | .setStatus _, a =>
    a.toOption.map fun c => ⟨.cluster c.nameText, c.metadata⟩
  | .createWork _, a | .replaceWork _, a => a.toOption.map fun w => ⟨.work w.key, w.metadata⟩
  | .replaceSecret _, a => a.toOption.map fun s => ⟨.secret s.key, s.metadata⟩
  | _, _ => none

/-- The object that others put in place, as they want it. -/
def Change.put? : Change → Option Object
  | .cluster c => some (.cluster c.nameText)
  | .work w => some (.work w.key)
  | .secret s => some (.secret s.key)
  | _ => none

/-- The entry of a change, if it makes one. -/
def Change.entered? (e : Change) (m : Memory) : Option Entry :=
  match e with
  | .request t q => q.entered? (m.answer t q).1
  | e => e.put?.bind fun o => ((e.apply m).stored? o).map (Entry.mk o)

/-- The entries of a run, in their order. -/
def ledger : List Change → Memory → List Entry
  | [], _ => []
  | e :: es, m => (e.entered? m).toList ++ ledger es (e.apply m)

theorem ledger_append (es es' : List Change) (m : Memory) :
    ledger (es ++ es') m = ledger es m ++ ledger es' (m.changedBy es) := by
  induction es generalizing m with
  | nil => rfl
  | cons e es ih =>
    show (e.entered? m).toList ++ ledger (es ++ es') (e.apply m) = _
    rw [ih, ← List.append_assoc]
    rfl

/-! ## One change -/

/-- What a change does: it makes no entry, and what it leaves is under the version that it had;
or it makes one under the next version, and leaves all other objects alone. -/
inductive Enters (m : Memory) : Option Entry → Memory → Prop where
  | nothing {m' : Memory} (version : m'.version = m.version)
      (kept : ∀ o d', m'.stored? o = some d' →
        ∃ d, m.stored? o = some d ∧ d'.resourceVersion = d.resourceVersion) : Enters m none m'
  | entry {x : Entry} {m' : Memory} (version : m'.version = m.version + 1)
      (stamp : x.version? = some (Text.decimal (m.version + 1)))
      (there : m'.stored? x.object = some x.metadata ∨
        x.IsReleased ∧ m'.stored? x.object = none)
      (others : ∀ o, o ≠ x.object → m'.stored? o = m.stored? o) : Enters m (some x) m'

/-- What is kept in a table, or dated since when no version was given, is under the version that
it had. -/
theorem version_of_renewed {κ β : Type} [KeyOrder κ] {kept : β → β → Prop}
    {metadata : β → Metadata} {t u : Table κ β} {n : Nat} (h : Renewed kept metadata n n t u)
    (hkept : ∀ {v v'}, kept v v' → (metadata v').resourceVersion = (metadata v).resourceVersion)
    {k : κ} {d' : Metadata} (hd' : (u.get? k).map metadata = some d') :
    ∃ d, (t.get? k).map metadata = some d ∧ d'.resourceVersion = d.resourceVersion := by
  obtain ⟨v', hv', rfl⟩ := Option.map_eq_some_iff.mp hd'
  rcases h k v' hv' with ⟨v, hv, hsame⟩ | ⟨i, hlow, hhigh, -⟩
  · exact ⟨metadata v, by rw [hv]; rfl, hkept hsame⟩
  · omega

theorem version_unlessFailing {α : Type} {m : Memory} {go : Except Error α × Memory}
    (h : go.2.version = m.version) (op : Operation) :
    (m.unlessFailing op go).2.version = m.version := by
  unfold Memory.unlessFailing
  split
  · rfl
  · exact h

namespace Enters

variable {m m' : Memory}

/-- A change that gives no version makes no entry. -/
theorem of_later (hl : Later m m') (hv : m'.version = m.version) : Enters m none m' := by
  have hclusters := hl.clusters
  have hworks := hl.works
  have hsecrets := hl.secrets
  rw [hv] at hclusters hworks hsecrets
  refine .nothing hv fun o d' hd' => ?_
  cases o with
  | cluster n => exact version_of_renewed hclusters (fun h => by rw [h]) hd'
  | work k => exact version_of_renewed hworks id hd'
  | secret k => exact version_of_renewed hsecrets (fun h => by rw [h]) hd'

theorem of_alike (h : Alike m m') (hv : m'.version = m.version) : Enters m none m' :=
  of_later (Later.of_alike h hv) hv

theorem stored?_of_within {o o' : Object} (h : Within o'.scope m m') (hne : o ≠ o') :
    m'.stored? o = m.stored? o := by
  cases o with
  | cluster n =>
    have hn : ¬o'.scope.clusters n := by
      cases o' <;> simp_all [Object.scope]
    show (m'.clusters.get? n).map _ = (m.clusters.get? n).map _
    rw [h.clusters n hn]
  | work k =>
    have hk : ¬o'.scope.works k := by
      cases o' <;> simp_all [Object.scope]
    show (m'.works.get? k).map _ = (m.works.get? k).map _
    rw [h.works k hk]
  | secret k =>
    have hk : ¬o'.scope.secrets k := by
      cases o' <;> simp_all [Object.scope]
    show (m'.secrets.get? k).map _ = (m.secrets.get? k).map _
    rw [h.secrets k hk]

theorem of_within {x : Entry} (hwithin : Within x.object.scope m m')
    (hversion : m'.version = m.version + 1)
    (hstamp : x.version? = some (Text.decimal (m.version + 1)))
    (hthere : m'.stored? x.object = some x.metadata ∨
      x.IsReleased ∧ m'.stored? x.object = none) : Enters m (some x) m' :=
  .entry hversion hstamp hthere fun _ hne => stored?_of_within hwithin hne

/-- A cluster is put in place, or is gone because nothing holds it. -/
theorem cluster (c : ManagedCluster) (released : Bool)
    (hc : c.metadata.resourceVersion = some (Text.decimal (m.version + 1)))
    (hreleased : released = true → c.isDeleting = true ∧ c.metadata.finalizers.getD [] = [])
    (hclusters : m'.clusters =
      if released = true then m.clusters.erase c.nameText else m.clusters.insert c.nameText c)
    (hrest : m'.works = m.works ∧ m'.secrets = m.secrets ∧ m'.addOns = m.addOns)
    (hversion : m'.version = m.version + 1) :
    Enters m (some ⟨.cluster c.nameText, c.metadata⟩) m' := by
  obtain ⟨hworks, hsecrets, haddOns⟩ := hrest
  have hget (n : String) : m'.clusters.get? n = if n = c.nameText then
      if released = true then none else some c else m.clusters.get? n := by
    rw [hclusters, Table.get?_erase_or_insert]
  refine of_within ⟨fun n hn => ?_, fun _ _ => by rw [hworks], fun _ _ => by rw [hsecrets],
    haddOns⟩ hversion hc ?_
  · exact (hget n).trans (if_neg hn)
  · show (m'.clusters.get? c.nameText).map _ = _ ∨ _ ∧ (m'.clusters.get? c.nameText).map _ = _
    rw [hget, if_pos rfl]
    by_cases hr : released = true
    · rw [if_pos hr]
      exact Or.inr ⟨⟨⟨_, rfl⟩, hreleased hr⟩, rfl⟩
    · rw [if_neg hr]
      exact Or.inl rfl

theorem work (w : ManifestWork)
    (hw : w.metadata.resourceVersion = some (Text.decimal (m.version + 1)))
    (hworks : m'.works = m.works.insert w.key w)
    (hrest : m'.clusters = m.clusters ∧ m'.secrets = m.secrets ∧ m'.addOns = m.addOns)
    (hversion : m'.version = m.version + 1) :
    Enters m (some ⟨.work w.key, w.metadata⟩) m' := by
  obtain ⟨hclusters, hsecrets, haddOns⟩ := hrest
  refine of_within ⟨fun _ _ => by rw [hclusters], fun k hk => ?_, fun _ _ => by rw [hsecrets],
    haddOns⟩ hversion hw (Or.inl ?_)
  · rw [hworks, Table.get?_insert_of_ne _ hk]
  · show (m'.works.get? w.key).map _ = _
    rw [hworks, Table.get?_insert_self]
    rfl

theorem secret (s : Secret)
    (hs : s.metadata.resourceVersion = some (Text.decimal (m.version + 1)))
    (hsecrets : m'.secrets = m.secrets.insert s.key s)
    (hrest : m'.clusters = m.clusters ∧ m'.works = m.works ∧ m'.addOns = m.addOns)
    (hversion : m'.version = m.version + 1) :
    Enters m (some ⟨.secret s.key, s.metadata⟩) m' := by
  obtain ⟨hclusters, hworks, haddOns⟩ := hrest
  refine of_within ⟨fun _ _ => by rw [hclusters], fun _ _ => by rw [hworks], fun k hk => ?_,
    haddOns⟩ hversion hs (Or.inl ?_)
  · rw [hsecrets, Table.get?_insert_of_ne _ hk]
  · show (m'.secrets.get? s.key).map _ = _
    rw [hsecrets, Table.get?_insert_self]
    rfl

/-- A request that meets the failure laid in wait for it makes no entry. -/
theorem unlessFailing {α : Type} {entry : α → Entry} {go : Except Error α × Memory}
    (h : Enters m (go.1.toOption.map entry) go.2) (op : Operation) :
    Enters m ((m.unlessFailing op go).1.toOption.map entry) (m.unlessFailing op go).2 := by
  unfold Memory.unlessFailing
  split
  · exact of_alike ⟨rfl, rfl, rfl, rfl⟩ rfl
  · exact h

/-- Nor does one that is refused. -/
theorem ifCurrent {α β : Type} {entry : α → Entry} {kind name : String} {stored : Option β}
    {metadata : β → Metadata} {copy : Metadata} {go : β → Except Error α × Memory}
    (h : ∀ s, stored = some s → Enters m ((go s).1.toOption.map entry) (go s).2) :
    Enters m ((m.ifCurrent kind name stored metadata copy go).1.toOption.map entry)
      (m.ifCurrent kind name stored metadata copy go).2 :=
  Memory.ifCurrent_ind (P := fun r => Enters m (r.1.toOption.map entry) r.2)
    (fun _ => of_alike (Alike.refl m) rfl) fun s hs _ => h s hs

theorem updateCluster (hm : m.Filed) (op : Operation) (write : String → Write)
    {edit : ManagedCluster → ManagedCluster} (hedit : ∀ d, (edit d).nameText = d.nameText)
    (c : ManagedCluster) :
    Enters m ((m.updateCluster op write edit c).1.toOption.map
        fun c => ⟨.cluster c.nameText, c.metadata⟩) (m.updateCluster op write edit c).2 := by
  unfold Memory.updateCluster
  dsimp only
  by_cases hconflicts : 0 < m.conflicts
  · rw [if_pos hconflicts]
    exact of_alike ⟨rfl, rfl, rfl, rfl⟩ rfl
  rw [if_neg hconflicts]
  refine unlessFailing (ifCurrent fun d hd => ?_) op
  -- the edit leaves the name, so what is written is the cluster that was found
  have hname : c.nameText = (edit d).nameText := by
    rw [hedit, hm.clusters _ d hd]
  let u := { edit d with metadata := stamped (edit d).metadata (m.version + 1) }
  refine cluster u (op == .setFinalizers && u.isDeleting &&
    (u.metadata.finalizers.getD []).isEmpty) rfl (fun hr => ?_) ?_ ⟨rfl, rfl, rfl⟩ rfl
  · simp only [Bool.and_eq_true, List.isEmpty_iff] at hr
    exact ⟨hr.1.2, hr.2⟩
  · show (if _ then _ else _ : Table String ManagedCluster) = _
    rw [hname]
    rfl

theorem answer (hm : m.Filed) (t : Instant) (q : Request) :
    Enters m (q.entered? (m.answer t q).1) (m.answer t q).2 := by
  cases q with
  | setFinalizers c =>
    refine updateCluster hm _ _ (fun d => ?_) c
    rfl
  | setStatus c =>
    refine updateCluster hm _ _ (fun d => ?_) c
    rfl
  | createWork w =>
    refine unlessFailing ?_ _
    split
    · exact of_alike (Alike.refl m) rfl
    · exact work _ rfl rfl ⟨rfl, rfl, rfl⟩ rfl
  | replaceWork w =>
    refine unlessFailing (ifCurrent fun _ _ => ?_) _
    exact work _ rfl rfl ⟨rfl, rfl, rfl⟩ rfl
  | replaceSecret s =>
    refine unlessFailing (ifCurrent fun _ _ => ?_) _
    exact secret _ rfl rfl ⟨rfl, rfl, rfl⟩ rfl
  | listWorks n s =>
    refine of_later (later_answer t _) (version_unlessFailing ?_ _)
    rfl
  | deleteWork k =>
    refine of_later (later_answer t _) (version_unlessFailing ?_ _)
    split <;> rfl
  | releaseWork k =>
    refine of_later (later_answer t _) ?_
    show (m.releaseWork k).2.version = _
    unfold Memory.releaseWork
    split <;> rfl
  | deleteSecret k =>
    refine of_later (later_answer t _) (version_unlessFailing ?_ _)
    split <;> rfl
  | _ => exact of_later (later_answer t _) rfl

theorem apply (hm : m.Filed) (e : Change) : Enters m (e.entered? m) (e.apply m) := by
  cases e with
  | cluster c =>
    let u := { c with metadata := stamped c.metadata (m.version + 1) }
    have hentry : (Change.cluster c).entered? m = some ⟨.cluster u.nameText, u.metadata⟩ := by
      show (((m.clusters.insert c.nameText u).get? c.nameText).map _).map _ = _
      rw [Table.get?_insert_self]
      rfl
    rw [hentry]
    exact cluster u false rfl (fun h => nomatch h) rfl ⟨rfl, rfl, rfl⟩ rfl
  | work w =>
    let u := { w with metadata := stamped w.metadata (m.version + 1) }
    have hentry : (Change.work w).entered? m = some ⟨.work u.key, u.metadata⟩ := by
      show (((m.works.insert w.key u).get? w.key).map _).map _ = _
      rw [Table.get?_insert_self]
      rfl
    rw [hentry]
    exact work u rfl rfl ⟨rfl, rfl, rfl⟩ rfl
  | secret s =>
    let u := { s with metadata := stamped s.metadata (m.version + 1) }
    have hentry : (Change.secret s).entered? m = some ⟨.secret u.key, u.metadata⟩ := by
      show (((m.secrets.insert s.key u).get? s.key).map _).map _ = _
      rw [Table.get?_insert_self]
      rfl
    rw [hentry]
    exact secret u rfl rfl ⟨rfl, rfl, rfl⟩ rfl
  | report k r =>
    refine of_later (later_apply _) ?_
    show (m.reportWork k r).version = _
    unfold Memory.reportWork
    split <;> rfl
  | request t q => exact answer hm t q
  | _ => exact of_later (later_apply _) rfl

end Enters

/-! ## A run -/

/-- The entries that a hub has come to by, all of them since it was empty. -/
structure Accounted (l : List Entry) (m : Memory) : Prop where
  filed : m.Filed
  numbered : l.map Entry.version? =
    (List.range m.version).map fun i => some (Text.decimal (i + 1))
  /-- An object is under the version of its last entry. -/
  latest : ∀ o d, m.stored? o = some d → ∃ before x after, l = before ++ x :: after ∧
    x.object = o ∧ x.version? = d.resourceVersion ∧ ∀ y ∈ after, y.object ≠ o

namespace Accounted

variable {l : List Entry} {m m' : Memory} {x y : Entry} {o o' : Object} {d d' : Metadata}

theorem empty : Accounted [] {} := by
  refine ⟨Memory.filed_empty, rfl, fun o d h => ?_⟩
  cases o <;> cases h

theorem enters {x? : Option Entry} (h : Accounted l m) (hm : m'.Filed) (hx : Enters m x? m') :
    Accounted (l ++ x?.toList) m' := by
  cases hx with
  | nothing version kept =>
    refine ⟨hm, ?_, fun o d' hd' => ?_⟩
    · rw [version]
      simpa using h.numbered
    · obtain ⟨d, hd, hsame⟩ := kept o d' hd'
      obtain ⟨before, x, after, hl, ho, hv, hafter⟩ := h.latest o d hd
      exact ⟨before, x, after, by simpa using hl, ho, hv.trans hsame.symm, hafter⟩
  | @entry x m' version stamp there others =>
    refine ⟨hm, ?_, fun o d' hd' => ?_⟩
    · rw [version, List.range_succ, List.map_append, List.map_append, h.numbered]
      show _ ++ [x.version?] = _
      rw [stamp]
      rfl
    · by_cases ho : o = x.object
      · subst ho
        refine ⟨l, x, [], rfl, rfl, ?_, fun y hy => nomatch hy⟩
        rcases there with hthere | ⟨-, hgone⟩
        · rw [hthere, Option.some.injEq] at hd'
          rw [← hd']
          rfl
        · rw [hgone] at hd'
          cases hd'
      · rw [others o ho] at hd'
        obtain ⟨before, y, after, hl, hy, hv, hafter⟩ := h.latest o d' hd'
        refine ⟨before, y, after ++ [x], by simp [hl], hy, hv, fun z hz => ?_⟩
        rcases List.mem_append.mp hz with hz | hz
        · exact hafter z hz
        · rw [List.mem_singleton.mp hz]
          exact Ne.symm ho

theorem run (h : Accounted l m) (es : List Change) :
    Accounted (l ++ ledger es m) (m.changedBy es) := by
  induction es generalizing l m with
  | nil => simpa [ledger, Memory.changedBy] using h
  | cons e es ih =>
    have hrest := ih (h.enters (h.filed.apply e) (Enters.apply h.filed e))
    rw [List.append_assoc] at hrest
    exact hrest

theorem dated (h : Accounted l m) (hx : x ∈ l) : x.metadata.Dated 0 m.version := by
  have hv : x.version? ∈ l.map Entry.version? := List.mem_map_of_mem hx
  rw [h.numbered] at hv
  obtain ⟨i, hi, hv⟩ := List.mem_map.mp hv
  have hlt : i < m.version := List.mem_range.mp hi
  exact ⟨i + 1, by omega, by omega, hv.symm⟩

theorem once (h : Accounted l m) : (l.map Entry.version?).Nodup := by
  rw [h.numbered]
  refine List.Nodup.map (fun i j hij => ?_) List.nodup_range
  have hdecimal := Text.decimal_inj (Option.some.inj hij)
  omega

theorem mem_of_stored? (h : Accounted l m) (hd : m.stored? o = some d) :
    ∃ x ∈ l, x.object = o ∧ x.version? = d.resourceVersion := by
  obtain ⟨before, x, after, hl, ho, hv, -⟩ := h.latest o d hd
  exact ⟨x, by simp [hl], ho, hv⟩

theorem stamped (h : Accounted l m) (hd : m.stored? o = some d) : d.Dated 0 m.version := by
  obtain ⟨x, hx, -, hv⟩ := h.mem_of_stored? hd
  exact (h.dated hx).congr hv.symm

/-- Objects under one version are one object. -/
theorem distinct (h : Accounted l m) (hd : m.stored? o = some d) (hd' : m.stored? o' = some d')
    (hv : d.resourceVersion = d'.resourceVersion) : o = o' := by
  obtain ⟨x, hx, rfl, hxv⟩ := h.mem_of_stored? hd
  obtain ⟨y, hy, rfl, hyv⟩ := h.mem_of_stored? hd'
  rw [List.inj_on_of_nodup_map h.once hx hy (hxv.trans (hv.trans hyv.symm))]

end Accounted

/-- Each object is filed under its own key and under a version that the hub has given, and no two
are under the same one. -/
structure Memory.Consistent (m : Memory) : Prop where
  filed : m.Filed
  stamped : ∀ o d, m.stored? o = some d → d.Dated 0 m.version
  distinct : ∀ o o' d d', m.stored? o = some d → m.stored? o' = some d' →
    d.resourceVersion = d'.resourceVersion → o = o'

/-- The hub after a run that began with it empty. -/
def Memory.reached (es : List Change) : Memory := Memory.changedBy {} es

theorem accounted_reached (es : List Change) : Accounted (ledger es {}) (Memory.reached es) :=
  Accounted.empty.run es

theorem Memory.consistent_reached (es : List Change) : (Memory.reached es).Consistent where
  filed := (accounted_reached es).filed
  stamped _ _ hd := (accounted_reached es).stamped hd
  distinct _ _ _ _ hd hd' hv := (accounted_reached es).distinct hd hd' hv

/-- No write of the run was given the version, and no object was ever under it. -/
structure Unused (es : List Change) (version? : Option String) : Prop where
  written : ∀ x ∈ ledger es {}, x.version? ≠ version?
  stored : ∀ earlier, earlier <+: es → ∀ o d,
    (Memory.reached earlier).stored? o = some d → d.resourceVersion ≠ version?

theorem unused_of_dated {es : List Change} {x : Entry}
    (h : x.metadata.Dated (Memory.reached es).version ((Memory.reached es).version + 1)) :
    Unused es x.version? := by
  have hwritten : ∀ y ∈ ledger es {}, y.version? ≠ x.version? := fun y hy =>
    (((accounted_reached es).dated hy).ne h).symm
  refine ⟨hwritten, ?_⟩
  rintro earlier ⟨later, rfl⟩ o d hd
  obtain ⟨y, hy, -, hv⟩ := (accounted_reached earlier).mem_of_stored? hd
  rw [← hv]
  refine hwritten y ?_
  rw [ledger_append]
  exact List.mem_append_left _ hy

/-- However a hub that was empty is used, its objects stay filed and told apart by their versions,
of which there is one for each write of the run.  What is written next is stored under a version
that was never used before, unless it is a cluster that goes with that write. -/
theorem one_version_per_write (es : List Change) (e : Change) :
    (Memory.reached es).Consistent ∧ Accounted (ledger es {}) (Memory.reached es) ∧
      ((ledger es {}).map Entry.version?).Nodup ∧
      (Memory.reached es).version ≤ (e.apply (Memory.reached es)).version ∧
      ∀ x, e.entered? (Memory.reached es) = some x →
        x.version? = some (Text.decimal ((Memory.reached es).version + 1)) ∧
        Unused es x.version? ∧
        ((e.apply (Memory.reached es)).stored? x.object = some x.metadata ∨
          x.IsReleased ∧ (e.apply (Memory.reached es)).stored? x.object = none) := by
  have hrun := accounted_reached es
  refine ⟨Memory.consistent_reached es, hrun, hrun.once, (later_apply e).version, fun x hx => ?_⟩
  have henters := Enters.apply hrun.filed e
  rw [hx] at henters
  cases henters with
  | entry version stamp there others =>
    exact ⟨stamp, unused_of_dated ⟨_, Nat.lt_succ_self _, Nat.le_refl _, stamp⟩, there⟩

/-- A work that goes and is created again is not taken for the one that was there before. -/
theorem told_apart_when_put_back :
    let w : ManifestWork := { metadata := { name := some "w" } }
    let es : List Change := [.work w, .request ⟨0, 0⟩ (.deleteWork w.key)]
    let again : Change := .request ⟨0, 0⟩ (.createWork w)
    (Memory.reached es).stored? (.work w.key) = none ∧
      ∃ x y, ledger es {} = [x] ∧ again.entered? (Memory.reached es) = some y ∧
        x.object = .work w.key ∧ y.object = .work w.key ∧ x.version? ≠ y.version? := by
  intro w es again
  have hledger : (ledger es {}).map Entry.object = [.work w.key] := by decide +kernel
  have hagain : (again.entered? (Memory.reached es)).map Entry.object = some (.work w.key) := by
    decide +kernel
  obtain ⟨x, hx, hxobject⟩ := List.map_eq_singleton_iff.mp hledger
  obtain ⟨y, hy, hyobject⟩ := Option.map_eq_some_iff.mp hagain
  refine ⟨by decide +kernel, x, y, hx, hy, hxobject, hyobject, ?_⟩
  have hunused := ((one_version_per_write es again).2.2.2.2 y hy).2.1
  exact hunused.written x (by rw [hx]; exact List.mem_singleton_self x)

end Hub
end Hosting
