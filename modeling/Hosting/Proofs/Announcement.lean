import Hosting.Proofs.Pass.Steps

/-!
# Events of conditions

Whatever the hub answers, the events that go with conditions are those of the conditions that
the stored write has changed (`published_iff`), but for one turn: an attempt is refused as
outdated, and the cluster is gone when it is read again.  Nothing is written then, and the
events of the refused attempt are told all the same.
-/

namespace Hosting
namespace Announcement

open Hub (Request Reference Event Course Update)
open Dialogue (History run transcript)

variable {α β σ : Type} {answer : (q : Request) → σ → q.Answer × σ} {s s' : σ} {ctx : Context}
  {c : ManagedCluster} {new : List Condition} {h told : History Request Request.Answer}

/-- The events that are told, each with the object that it is about. -/
def published (h : History Request Request.Answer) : List (Reference × Event) :=
  h.filterMap fun
    | ⟨.publish about e, _⟩ => some (about, e)
    | _ => none

/-- The write of a status that the hub took: the copy read before it, and what was written. -/
def stored? : History Request Request.Answer → Option (ManagedCluster × ManagedCluster)
  | [] => none
  | ⟨.getCluster _, .ok (some d)⟩ :: ⟨.setStatus e, .ok _⟩ :: _ => some (d, e)
  | _ :: h => stored? h

/-- The copy that a write was made from which was refused as outdated, when the cluster was gone
at the next look. -/
def vanished? : History Request Request.Answer → Option ManagedCluster
  | [] => none
  | ⟨.getCluster _, .ok (some d)⟩ :: ⟨.setStatus _, .error (.conflict _)⟩ ::
      ⟨.getCluster _, .ok none⟩ :: _ => some d
  | _ :: h => vanished? h

/-- The events of the conditions that change when they are entered in a copy of the cluster. -/
def announced (ctx : Context) (c : ManagedCluster) (new : List Condition) :
    Option ManagedCluster → List (Reference × Event)
  | none => []
  | some d =>
    ((Conditions.merge ctx.now new d.conditions).2.filterMap Progress.event?).map (c.reference, ·)

/-! ## The events after the update -/

/-- Nothing is said but events. -/
def OnlyEvents (h : History Request Request.Answer) : Prop :=
  ∀ x ∈ h, ∃ about e a, x = ⟨.publish about e, a⟩

theorem OnlyEvents.tail {x : (q : Request) × q.Answer} (ht : OnlyEvents (x :: h)) : OnlyEvents h :=
  fun y hy => ht y (List.mem_cons_of_mem x hy)

theorem stored?_of_onlyEvents (ht : OnlyEvents told) : stored? told = none := by
  induction told with
  | nil => rfl
  | cons x told ih =>
    obtain ⟨about, e, a, rfl⟩ := ht x List.mem_cons_self
    exact ih ht.tail

theorem vanished?_of_onlyEvents (ht : OnlyEvents told) : vanished? told = none := by
  induction told with
  | nil => rfl
  | cons x told ih =>
    obtain ⟨about, e, a, rfl⟩ := ht x List.mem_cons_self
    exact ih ht.tail

/-- Of a read that no write follows, nothing comes. -/
theorem nothing_of_read {name : String} {d : ManagedCluster} (ht : OnlyEvents told) :
    stored? (⟨.getCluster name, .ok (some d)⟩ :: told) = none ∧
      vanished? (⟨.getCluster name, .ok (some d)⟩ :: told) = none := by
  have hs := stored?_of_onlyEvents ht
  have hv := vanished?_of_onlyEvents ht
  cases told with
  | nil => exact ⟨hs, hv⟩
  | cons x told =>
    obtain ⟨about, e, a, rfl⟩ := ht x List.mem_cons_self
    exact ⟨hs, hv⟩

theorem transcript_bind_ok {p : Pass α} {f : α → Pass β} {a : α}
    (hp : run answer p.run s = (.ok a, s')) :
    transcript answer (p >>= f).run s =
      transcript answer p.run s ++ transcript answer (f a).run s' := by
  rw [ExceptT.run_bind, Dialogue.transcript_bind, hp]

/-- All events are told in their order, whatever comes of it. -/
theorem transcript_publishAll (es : List Event) :
    OnlyEvents (transcript answer (es.forM (Pass.publish c)).run s) ∧
      published (transcript answer (es.forM (Pass.publish c)).run s) =
        es.map (c.reference, ·) := by
  induction es generalizing s with
  | nil => exact ⟨fun _ hx => (nomatch hx), rfl⟩
  | cons e es ih =>
    obtain ⟨hevents, hpublished⟩ := ih (s := (answer (.publish c.reference e) s).2)
    have hsaid : transcript answer ((e :: es).forM (Pass.publish c)).run s =
        ⟨.publish c.reference e, (answer (.publish c.reference e) s).1⟩ ::
          transcript answer (es.forM (Pass.publish c)).run
            (answer (.publish c.reference e) s).2 := rfl
    rw [hsaid]
    refine ⟨fun x hx => ?_, congrArg (_ :: ·) hpublished⟩
    rcases List.mem_cons.mp hx with rfl | hx
    · exact ⟨_, _, _, rfl⟩
    · exact hevents x hx

/-! ## The update -/

variable {name : String} {edit : ManagedCluster → Option ManagedCluster} {n : Nat} {u : Update}

theorem published_course (hc : Course name .status edit n h u) :
    published (h ++ told) = published told := by
  induction hc with
  | again _ _ _ ih => exact ih
  | _ => rfl

/-- How an update of the status ends, and which of its attempts the rest is about: the one that
was stored, or the one that was refused before the cluster was gone. -/
def EndsAs (edit : ManagedCluster → Option ManagedCluster) (h : History Request Request.Answer)
    (u : Update) : Prop :=
  match u.written with
  | .ok true => ∃ d e, u.seen.getLast? = some d ∧ edit d = some e ∧ stored? h = some (d, e) ∧
    vanished? h = none
  | .ok false => stored? h = none ∧ (vanished? h = u.seen.getLast? ∨
    vanished? h = none ∧ ∃ d, u.seen.getLast? = some d ∧ edit d = none)
  | .error _ => stored? h = none ∧ vanished? h = none

theorem endsAs_of_course (hc : Course name .status edit n h u) (ht : OnlyEvents told) :
    EndsAs edit (h ++ told) u := by
  have hs := stored?_of_onlyEvents ht
  have hv := vanished?_of_onlyEvents ht
  induction hc with
  | unread => exact ⟨hs, hv⟩
  | gone => exact ⟨hs, .inl hv⟩
  | unchanged he =>
    obtain ⟨hs, hv⟩ := nothing_of_read ht
    exact ⟨hs, .inr ⟨hv, _, rfl, he⟩⟩
  | stored he => exact ⟨_, _, rfl, he, rfl, hv⟩
  | @refused _ d e f he hlast =>
    refine ⟨hs, ?_⟩
    cases f with
    | conflict detail =>
      cases told with
      | nil => rfl
      | cons x told =>
        obtain ⟨about, e, a, rfl⟩ := ht x List.mem_cons_self
        exact hv
    | _ => exact hv
  | @again n d e f h u he hlate rest ih =>
    obtain ⟨detail, rfl⟩ : ∃ detail, f = .conflict detail := by
      cases f <;> first | exact ⟨_, rfl⟩ | cases hlate
    cases rest with
    | unread => exact ⟨hs, hv⟩
    | gone => exact ⟨hs, .inl rfl⟩
    -- the rest begins with a copy, so that this attempt is not the last
    | _ => exact ih

/-! ## Conditions -/

theorem announced_of_none {d : ManagedCluster} (h : Pass.mergeConditions ctx.now new d = none) :
    announced ctx c new (some d) = [] := by
  have hnil : (Conditions.merge ctx.now new d.conditions).2 = [] := by
    simpa [Pass.mergeConditions] using h
  simp only [announced, hnil]
  rfl

/-- What is told is told of the stored write or of the one that was refused last, and no write is
stored but that of the conditions entered in the copy read before it. -/
structure Announces (ctx : Context) (c : ManagedCluster) (new : List Condition)
    (h : History Request Request.Answer) : Prop where
  told : published h = announced ctx c new (((stored? h).map (·.1)).or (vanished? h))
  merged : ∀ d e, stored? h = some (d, e) → Pass.mergeConditions ctx.now new d = some e
  single : stored? h = none ∨ vanished? h = none

theorem announces_nil : Announces ctx c new [] := ⟨rfl, fun _ _ h => (nomatch h), .inl rfl⟩

/-- What is told after an update: the events of its last copy, unless it has failed. -/
def afterwards (ctx : Context) (c : ManagedCluster) (new : List Condition) (u : Update) :
    List (Reference × Event) :=
  match u.written with
  | .ok _ => announced ctx c new u.seen.getLast?
  | .error _ => []

theorem announces_of_endsAs (hends : EndsAs (Pass.mergeConditions ctx.now new) h u)
    (htold : published h = afterwards ctx c new u) : Announces ctx c new h := by
  obtain ⟨written, seen⟩ := u
  rcases written with f | _ | _
  · obtain ⟨hs, hv⟩ := hends
    refine ⟨?_, fun d e hde => ?_, .inl hs⟩
    · rw [hs, hv]
      exact htold
    · rw [hs] at hde
      cases hde
  · -- nothing was written: the cluster was gone, or its last copy needed no edit
    obtain ⟨hs, hlast⟩ := hends
    refine ⟨?_, fun d e hde => ?_, .inl hs⟩
    · rw [hs, htold]
      rcases hlast with hv | ⟨hv, d, hd, he⟩
      · rw [hv]
        rfl
      · rw [hv]
        show announced ctx c new seen.getLast? = []
        rw [show seen.getLast? = some d from hd, announced_of_none he]
    · rw [hs] at hde
      cases hde
  · obtain ⟨d, e, hd, he, hs, hv⟩ := hends
    refine ⟨?_, fun d' e' hde => ?_, .inr hv⟩
    · rw [hs, hv, htold]
      exact congrArg (announced ctx c new) hd
    · rw [hs, Option.some.injEq, Prod.mk.injEq] at hde
      rw [← hde.1, ← hde.2, he]

theorem transcript_afterwards (u : Update) (s : σ) :
    let rest : Pass Unit := do
      let _ ← Pass.ofTalk (pure (u.written.mapError Failure.hub))
      match u.seen.getLast? with
      | none => return
      | some last =>
        ((Conditions.merge ctx.now new last.conditions).2.filterMap Progress.event?).forM
          (Pass.publish c)
    OnlyEvents (transcript answer rest.run s) ∧
      published (transcript answer rest.run s) = afterwards ctx c new u := by
  obtain ⟨written, seen⟩ := u
  cases written with
  | error f => exact ⟨fun _ hx => (nomatch hx), rfl⟩
  | ok b =>
    have hrun : run answer (Pass.ofTalk (pure ((Except.ok b : Except Hub.Error Bool).mapError
        Failure.hub))).run s = (.ok b, s) := rfl
    dsimp only [afterwards]
    rw [transcript_bind_ok hrun]
    cases seen.getLast? with
    | none => exact ⟨fun _ hx => (nomatch hx), rfl⟩
    | some last => exact transcript_publishAll _

theorem announces_setConditions (answer : (q : Request) → σ → q.Answer × σ) (s : σ) :
    Announces ctx c new (transcript answer (Pass.setConditions ctx c new).run s) := by
  unfold Pass.setConditions
  split
  · exact announces_nil
  generalize hupdate : Hub.updateCluster c.anyName .status (Pass.mergeConditions ctx.now new)
    ctx.settings.retries = update
  have hcourse : Course c.anyName .status (Pass.mergeConditions ctx.now new)
      ctx.settings.retries (transcript answer update s) (run answer update s).1 :=
    hupdate ▸ Hub.updateCluster_course answer s _
  have hrun : run answer (Pass.ofTalk (Except.ok <$> update)).run s =
      (.ok (run answer update s).1, (run answer update s).2) := by
    show run answer (Except.ok <$> update) s = _
    rw [map_eq_pure_bind, Dialogue.run_bind]
    rfl
  have hsaid : transcript answer (Pass.ofTalk (Except.ok <$> update)).run s =
      transcript answer update s := Dialogue.transcript_map _ _ _
  rw [transcript_bind_ok hrun, hsaid]
  obtain ⟨honly, htold⟩ := transcript_afterwards (run answer update s).1 (run answer update s).2
  refine announces_of_endsAs (endsAs_of_course hcourse honly) ?_
  rw [published_course hcourse]
  exact htold

/-- The events that are told are those of the conditions that the stored write has changed, none
without one, exactly when no refused write with events of its own was followed by the loss of the
cluster; else they are those of that write. -/
theorem published_iff (answer : (q : Request) → σ → q.Answer × σ) (s : σ) (ctx : Context)
    (c : ManagedCluster) (new : List Condition) :
    let h := transcript answer (Pass.setConditions ctx c new).run s
    let refused := announced ctx c new (vanished? h)
    (published h = announced ctx c new ((stored? h).map (·.1)) ↔ refused = []) ∧
      (refused ≠ [] → stored? h = none ∧ published h = refused) ∧
        ∀ d e, stored? h = some (d, e) → Pass.mergeConditions ctx.now new d = some e := by
  intro h refused
  obtain ⟨htold, hmerged, hsingle⟩ : Announces ctx c new h := announces_setConditions answer s
  rcases hsingle with hnone | hnone
  · -- nothing is stored: what is told is told of the refused write
    rw [hnone] at htold ⊢
    have hall : published h = refused := htold
    rw [hall]
    exact ⟨Iff.rfl, fun _ => ⟨rfl, rfl⟩, fun d e hde => (nomatch hde)⟩
  · have hrefused : refused = [] := congrArg (announced ctx c new) hnone
    rw [hnone, Option.or_none] at htold
    exact ⟨iff_of_true htold hrefused, fun hsome => absurd hrefused hsome, hmerged⟩

namespace Sample

def cluster : ManagedCluster where
  metadata := { name := some "c" }

/-- The first write comes too late, and the cluster is gone before the second. -/
def vanishing : (q : Request) → Nat → q.Answer × Nat
  | .getCluster _, n => (.ok (if n = 0 then some cluster else none), n + 1)
  | .setStatus _, n => (.error (.conflict "outdated"), n)
  | .publish _ _, n => (.ok (), n)
  | _, n => (.error .unsent, n)

def context : Context where
  now := ⟨0, 0⟩

def failed : Condition := Progress.pending context.now Progress.importFailed "no host"

end Sample

/-- An event is told of a condition that was written nowhere. -/
theorem told_unwritten :
    let h := transcript Sample.vanishing
      (Pass.setConditions Sample.context Sample.cluster [Sample.failed]).run 0
    stored? h = none ∧ published h = [(Sample.cluster.reference,
      .warning Progress.importFailed "Reconcile" "no host")] := by
  exact ⟨rfl, by decide⟩

end Announcement
end Hosting
