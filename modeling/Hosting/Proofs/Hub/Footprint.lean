import Hosting.Proofs.Hub.Frame

/-!
# What a request leaves behind

A request that fails leaves the hub as it was, but for the one thing laid in wait that it ran
into (`Failed`).  A write that is done concerns the one object that it names, and it is noted
once, unless there was nothing to be done (`Done`).  Both are said of every request at once in
`footprint`.
-/

namespace Hosting
namespace Hub

/-! ## What is asked -/

namespace Request

/-- The write that a request makes when it is done as asked. -/
def write? : Request → Option Write
  | .setFinalizers c => some (.setFinalizers c.nameText)
  | .setStatus c => some (.setStatus c.nameText)
  | .createWork w => some (.createWork w.key)
  | .replaceWork w => some (.replaceWork w.key)
  | .deleteWork k => some (.deleteWork k)
  | .releaseWork k => some (.releaseWork k)
  | .replaceSecret s => some (.replaceSecret s.key)
  | .deleteSecret k => some (.deleteSecret k)
  | _ => none

/-- The kind of failure that can be laid in wait for the request. -/
def operation? : Request → Option Operation
  | .setFinalizers _ => some .setFinalizers
  | .setStatus _ => some .setStatus
  | .listWorks _ _ => some .listWorks
  | .createWork _ => some .createWork
  | .replaceWork _ => some .replaceWork
  | .deleteWork _ => some .deleteWork
  | .replaceSecret _ => some .replaceSecret
  | .deleteSecret _ => some .deleteSecret
  | _ => none

/-- The copy that an update was made from. -/
def copy? : Request → Option Metadata
  | .setFinalizers c | .setStatus c => some c.metadata
  | .replaceWork w => some w.metadata
  | .replaceSecret s => some s.metadata
  | _ => none

/-- Conflicts can be laid in wait for updates of clusters. -/
def updatesCluster : Request → Bool
  | .setFinalizers _ | .setStatus _ => true
  | _ => false

end Request

namespace Write

/-- The kind of the object that is written. -/
def kind : Write → String
  | .setFinalizers _ | .setStatus _ => "ManagedCluster"
  | .createWork _ | .replaceWork _ | .deleteWork _ | .releaseWork _ => "ManifestWork"
  | .replaceSecret _ | .deleteSecret _ => "Secret"

/-- The object that is written, as messages show it. -/
def object (w : Write) : String :=
  w.kind ++ " " ++ match w with
    | .setFinalizers n | .setStatus n => n
    | .createWork k | .replaceWork k | .deleteWork k | .releaseWork k
    | .replaceSecret k | .deleteSecret k => slashed k

/-- The one object that a write can concern. -/
def scope : Write → Memory.Scope
  | .setFinalizers n | .setStatus n => { clusters := (· = n) }
  | .createWork k | .replaceWork k | .deleteWork k | .releaseWork k => { works := (· = k) }
  | .replaceSecret k | .deleteSecret k => { secrets := (· = k) }

end Write

namespace Memory

/-- The object that a write names, as far as all objects have it, if it is there. -/
def target? (m : Memory) : Write → Option Metadata
  | .setFinalizers n | .setStatus n => (m.clusters.get? n).map (·.metadata)
  | .createWork k | .replaceWork k | .deleteWork k | .releaseWork k =>
    (m.works.get? k).map (·.metadata)
  | .replaceSecret k | .deleteSecret k => (m.secrets.get? k).map (·.metadata)

/-! ## Failing -/

/-- Nothing is laid in wait for the request. -/
structure Unhindered (m : Memory) (q : Request) : Prop where
  conflicts : q.updatesCluster = true → m.conflicts = 0
  failures : ∀ op, q.operation? = some op → m.failures.get? op = none

/-- What the hub says to a request that it cannot do: the object is not there, or is there
already, or it is under another version than the copy. -/
inductive Refuses (m : Memory) (q : Request) : Error → Prop where
  | missing {w : Write} {copy : Metadata} (write : q.write? = some w) (made : q.copy? = some copy)
    (none : m.target? w = none) : Refuses m q (.notFound w.object)
  | taken {k : ObjectKey} {d : Metadata} (write : q.write? = some (.createWork k))
    (there : m.target? (.createWork k) = some d) :
    Refuses m q (.conflict ((Write.createWork k).object ++ " already exists"))
  | stale {w : Write} {copy d : Metadata} {e : Error} (write : q.write? = some w)
    (made : q.copy? = some copy) (there : m.target? w = some d)
    (stale : stale? w.kind d copy = some e) : Refuses m q e

/-- The request has failed with an error and left the hub in a state.  Of what was laid in wait
for it, one thing at most is used up: that which it failed by. -/
inductive Failed (m : Memory) (q : Request) : Error → Memory → Prop where
  | conflicting {w : Write} (updates : q.updatesCluster = true) (write : q.write? = some w)
    (pending : 0 < m.conflicts) :
    Failed m q (.conflict (w.object ++ " was modified")) { m with conflicts := m.conflicts - 1 }
  | failing {op : Operation} {text : String} (calm : q.updatesCluster = true → m.conflicts = 0)
    (asked : q.operation? = some op) (waiting : m.failures.get? op = some text) :
    Failed m q (.rejected text) { m with failures := m.failures.erase op }
  | refused {e : Error} (unhindered : m.Unhindered q) (refuses : m.Refuses q e) :
    Failed m q e m

/-- The hub holds the same, under the same versions, and neither a write nor an event came. -/
structure Untouched (m m' : Memory) : Prop where
  alike : Alike m m'
  version : m'.version = m.version
  writes : m'.writes = m.writes
  events : m'.events = m.events

variable {m m' : Memory} {q : Request} {e : Error}

theorem Failed.untouched (h : m.Failed q e m') : Untouched m m' := by
  cases h <;> exact ⟨⟨rfl, rfl, rfl, rfl⟩, rfl, rfl, rfl⟩

/-! ## Doing -/

/-- The write, if any, was done: only the object that it names can have changed, and it is noted
if that object was there or is there now. -/
structure Done (m : Memory) (x : Option Write) (m' : Memory) : Prop where
  within : Within (x.elim {} Write.scope) m m'
  writes : m'.writes = m.writes ++
    x.toList.filter fun w => (m.target? w).isSome || (m'.target? w).isSome
  failures : m'.failures = m.failures
  conflicts : m'.conflicts = m.conflicts

/-- There was nothing to be done. -/
theorem Done.idle {x : Option Write} (h : ∀ w, x = some w → m.target? w = none) :
    Done m x m := by
  refine ⟨Within.refl _ m, ?_, rfl, rfl⟩
  cases x with
  | none => simp
  | some w => simp [h w rfl]

/-- The write was done and noted. -/
theorem Done.noted {w : Write} {m₁ : Memory} (hwithin : Within w.scope m m₁)
    (hthere : (m.target? w).isSome = true ∨ (m₁.target? w).isSome = true)
    (hwrites : m₁.writes = m.writes) (hfailures : m₁.failures = m.failures)
    (hconflicts : m₁.conflicts = m.conflicts) : Done m (some w) (m₁.noted w) := by
  have htarget : (m₁.noted w).target? w = m₁.target? w := by cases w <;> rfl
  refine ⟨⟨hwithin.clusters, hwithin.works, hwithin.secrets, hwithin.addOns⟩, ?_, hfailures,
    hconflicts⟩
  show m₁.writes ++ [w] = _
  simp only [Option.toList_some, List.filter_cons, List.filter_nil, htarget, hwrites]
  rcases hthere with h | h <;> simp [h]

/-- The two ends of a request. -/
def Ends {α : Type} (m : Memory) (q : Request) : Except Error α × Memory → Prop
  | (.error e, m') => m.Failed q e m'
  | (.ok _, m') => m.Done q.write? m'

/-- A request goes on when no failure of its kind is laid in wait. -/
theorem ends_unlessFailing {α : Type} {go : Except Error α × Memory} {op : Operation}
    (hop : q.operation? = some op) (hcalm : q.updatesCluster = true → m.conflicts = 0)
    (hgo : m.Unhindered q → m.Ends q go) : m.Ends q (m.unlessFailing op go) := by
  unfold unlessFailing
  cases hfailure : m.failures.get? op with
  | some text => exact .failing hcalm hop hfailure
  | none =>
    refine hgo ⟨hcalm, fun op' hop' => ?_⟩
    rw [hop, Option.some.injEq] at hop'
    rw [← hop', hfailure]

/-- A request made from a copy goes on when the object is there under the same version. -/
theorem ends_ifCurrent {α β : Type} {w : Write} {copy : Metadata} {name : String}
    {metadata : α → Metadata} {stored : Option α} {go : α → Except Error β × Memory}
    (hunhindered : m.Unhindered q) (hwrite : q.write? = some w) (hcopy : q.copy? = some copy)
    (hobject : w.object = w.kind ++ " " ++ name) (htarget : m.target? w = stored.map metadata)
    (hgo : ∀ d, (m.target? w).isSome = true → m.Ends q (go d)) :
    m.Ends q (m.ifCurrent w.kind name stored metadata copy go) := by
  unfold ifCurrent
  cases stored with
  | none =>
    rw [← hobject]
    exact .refused hunhindered (.missing hwrite hcopy htarget)
  | some d =>
    dsimp only
    cases hstale : stale? w.kind (metadata d) copy with
    | some e => exact .refused hunhindered (.stale hwrite hcopy htarget hstale)
    | none => exact hgo d (by rw [htarget]; rfl)

theorem ends_updateCluster {op : Operation} {write : String → Write}
    (edit : ManagedCluster → ManagedCluster) {c : ManagedCluster}
    (hop : q.operation? = some op) (hwrite : q.write? = some (write c.nameText))
    (hcopy : q.copy? = some c.metadata) (hupdates : q.updatesCluster = true)
    (hkind : write c.nameText = .setFinalizers c.nameText ∨
      write c.nameText = .setStatus c.nameText) :
    m.Ends q (m.updateCluster op write edit c) := by
  have htarget (m : Memory) : m.target? (write c.nameText) =
      (m.clusters.get? c.nameText).map (·.metadata) := by
    rcases hkind with h | h <;> rw [h] <;> rfl
  have hscope : (write c.nameText).scope = { clusters := (· = c.nameText) } := by
    rcases hkind with h | h <;> rw [h] <;> rfl
  have hobject : (write c.nameText).object = "ManagedCluster " ++ c.nameText := by
    rcases hkind with h | h <;> rw [h] <;> rfl
  have hname : (write c.nameText).kind = "ManagedCluster" := by
    rcases hkind with h | h <;> rw [h] <;> rfl
  unfold updateCluster
  dsimp only
  by_cases hconflicts : 0 < m.conflicts
  · rw [if_pos hconflicts, ← hobject]
    exact .conflicting hupdates hwrite hconflicts
  rw [if_neg hconflicts]
  have hzero : m.conflicts = 0 := by omega
  refine ends_unlessFailing hop (fun _ => hzero) fun hunhindered => ?_
  rw [← hname]
  refine ends_ifCurrent hunhindered hwrite hcopy (hobject.trans (by rw [hname]; rfl)) (htarget m)
    fun d hthere => ?_
  show m.Done q.write? _
  rw [hwrite]
  refine Done.noted ?_ (Or.inl hthere) rfl rfl rfl
  rw [hscope]
  refine ⟨fun n hn => ?_, fun _ _ => rfl, fun _ _ => rfl, rfl⟩
  exact (Table.get?_erase_or_insert _ _ _ _ _).trans (if_neg hn)

theorem ends_createWork (w : ManifestWork) : m.Ends (.createWork w) (m.createWork w) := by
  refine ends_unlessFailing rfl (fun h => nomatch h) fun hunhindered => ?_
  cases hw : m.works.get? w.key with
  | some d =>
    have hthere : m.target? (.createWork w.key) = some d.metadata := by simp [target?, hw]
    exact .refused hunhindered (.taken rfl hthere)
  | none =>
    refine Done.noted ⟨fun _ _ => rfl, fun k hk => ?_, fun _ _ => rfl, rfl⟩ (Or.inr ?_) rfl rfl rfl
    · exact Table.get?_insert_of_ne _ hk _
    · simp [target?]

theorem ends_replaceWork (w : ManifestWork) : m.Ends (.replaceWork w) (m.replaceWork w) := by
  refine ends_unlessFailing rfl (fun h => nomatch h) fun hunhindered => ?_
  refine ends_ifCurrent (w := .replaceWork w.key) hunhindered rfl rfl rfl rfl fun d hthere => ?_
  refine Done.noted ⟨fun _ _ => rfl, fun k hk => ?_, fun _ _ => rfl, rfl⟩ (Or.inl hthere) rfl rfl rfl
  exact Table.get?_insert_of_ne _ hk _

theorem ends_deleteWork (t : Instant) (k : ObjectKey) :
    m.Ends (.deleteWork k) (m.deleteWork t k) := by
  refine ends_unlessFailing rfl (fun h => nomatch h) fun hunhindered => ?_
  cases hw : m.works.get? k with
  | none =>
    refine Done.idle fun w h => ?_
    cases h
    simp [target?, hw]
  | some d =>
    refine Done.noted ⟨fun _ _ => rfl, fun k' hk => ?_, fun _ _ => rfl, rfl⟩
      (Or.inl (by simp [target?, hw])) rfl rfl rfl
    exact (Table.get?_erase_or_insert _ _ _ _ _).trans (if_neg hk)

theorem ends_releaseWork (k : ObjectKey) : m.Ends (.releaseWork k) (m.releaseWork k) := by
  unfold releaseWork
  cases hw : m.works.get? k with
  | none =>
    refine Done.idle fun w h => ?_
    cases h
    simp [target?, hw]
  | some d =>
    refine Done.noted ⟨fun _ _ => rfl, fun k' hk => ?_, fun _ _ => rfl, rfl⟩
      (Or.inl (by simp [target?, hw])) rfl rfl rfl
    exact (Table.get?_erase_or_insert _ _ _ _ _).trans (if_neg hk)

theorem ends_replaceSecret (s : Secret) : m.Ends (.replaceSecret s) (m.replaceSecret s) := by
  refine ends_unlessFailing rfl (fun h => nomatch h) fun hunhindered => ?_
  refine ends_ifCurrent (w := .replaceSecret s.key) hunhindered rfl rfl rfl rfl
    fun d hthere => ?_
  refine Done.noted ⟨fun _ _ => rfl, fun _ _ => rfl, fun k hk => ?_, rfl⟩ (Or.inl hthere) rfl rfl rfl
  exact Table.get?_insert_of_ne _ hk _

theorem ends_deleteSecret (k : ObjectKey) : m.Ends (.deleteSecret k) (m.deleteSecret k) := by
  refine ends_unlessFailing rfl (fun h => nomatch h) fun hunhindered => ?_
  cases hs : m.secrets.get? k with
  | none =>
    have hnot : m.secrets.contains k = false := Table.contains_eq_false_iff.mpr hs
    rw [hnot]
    refine Done.idle fun w h => ?_
    cases h
    simp [target?, hs]
  | some d =>
    have hthere : m.secrets.contains k = true := by simp [Table.contains, hs]
    rw [hthere]
    refine Done.noted ⟨fun _ _ => rfl, fun _ _ => rfl, fun k' hk => ?_, rfl⟩
      (Or.inl (by simp [target?, hs])) rfl rfl rfl
    exact Table.get?_erase_of_ne _ hk

/-- Every request ends in one of the two ways. -/
theorem ends_answer (m : Memory) (t : Instant) (q : Request) : m.Ends q (m.answer t q) := by
  have hread {q : Request} {a : q.Value} {m' : Memory} (hwrite : q.write? = none)
      (h : Within {} m m') (hrest : m'.writes = m.writes ∧ m'.failures = m.failures ∧
        m'.conflicts = m.conflicts) : m.Ends q (.ok a, m') := by
    show m.Done q.write? m'
    rw [hwrite]
    exact ⟨h, by simp [hrest.1], hrest.2.1, hrest.2.2⟩
  cases q with
  | setFinalizers c => exact ends_updateCluster _ rfl rfl rfl rfl (Or.inl rfl)
  | setStatus c => exact ends_updateCluster _ rfl rfl rfl rfl (Or.inr rfl)
  | listWorks n s =>
    refine ends_unlessFailing rfl (fun h => nomatch h) fun _ => ?_
    exact hread rfl (Within.refl _ m) ⟨rfl, rfl, rfl⟩
  | createWork w => exact ends_createWork w
  | replaceWork w => exact ends_replaceWork w
  | deleteWork k => exact ends_deleteWork t k
  | releaseWork k => exact ends_releaseWork k
  | replaceSecret s => exact ends_replaceSecret s
  | deleteSecret k => exact ends_deleteSecret k
  | publish about e =>
    exact hread rfl ⟨fun _ _ => rfl, fun _ _ => rfl, fun _ _ => rfl, rfl⟩ ⟨rfl, rfl, rfl⟩
  | _ => exact hread rfl (Within.refl _ m) ⟨rfl, rfl, rfl⟩

/-- A request that fails changes nothing but what it failed by; of what a write that is done
changes there is one object at most, and it is noted exactly when that object was there or is
there now. -/
theorem footprint (m : Memory) (t : Instant) (q : Request) :
    (∀ e m', m.answer t q = (.error e, m') → Untouched m m' ∧ m.Failed q e m') ∧
    ∀ a m' w, m.answer t q = (.ok a, m') → q.write? = some w →
      Within w.scope m m' ∧ m'.writes = m.writes ++
        if (m.target? w).isSome ∨ (m'.target? w).isSome then [w] else [] := by
  have hends := ends_answer m t q
  constructor
  · intro e m' h
    rw [h] at hends
    exact ⟨Failed.untouched hends, hends⟩
  · intro a m' w h hw
    rw [h] at hends
    have hdone : m.Done q.write? m' := hends
    rw [hw] at hdone
    refine ⟨hdone.within, ?_⟩
    simpa [List.filter_cons] using hdone.writes

/-- A hub with a cluster, of which the next update is to be refused. -/
def contended (c : ManagedCluster) : Memory := (putCluster {} c).conflictNext 1

/-- The refused update only uses up the conflict; the work is created and noted, as it is there
from then on. -/
theorem footprint_of_contended :
    let c : ManagedCluster := { metadata := { name := some "c" } }
    let w : ManifestWork := { metadata := { name := some "w" } }
    let m := contended c
    (∃ e m', m.answer ⟨0, 0⟩ (.setStatus c) = (.error e, m') ∧ Untouched m m' ∧
      m'.conflicts = 0) ∧
    ∃ a m', m.answer ⟨0, 0⟩ (.createWork w) = (.ok a, m') ∧ m'.writes = [.createWork w.key] := by
  intro c w m
  constructor
  · refine ⟨_, _, rfl, ?_, rfl⟩
    exact ((footprint m ⟨0, 0⟩ (.setStatus c)).1 _ _ rfl).1
  · refine ⟨_, _, rfl, ?_⟩
    have hwrites := ((footprint m ⟨0, 0⟩ (.createWork w)).2 _ _ _ rfl rfl).2
    rw [hwrites, if_pos (by decide +kernel)]
    rfl

end Memory
end Hub
end Hosting
