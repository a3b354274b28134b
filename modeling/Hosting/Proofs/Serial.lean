import Hosting.Proofs.Hub.Update
import Hosting.Proofs.Interleaving
import Hosting.Proofs.Mutation

/-!
# Updates that meet

Clients that change one cluster at the same time, each by reading it, editing the copy and
writing it back, and each trying again when it comes too late.  However their requests are
interleaved, the cluster ends as if those that have written had done so one after the other,
in the order of their writes, and each client knows whether it is one of them.
-/

namespace Hosting

open Hub (Attempts Concludes Memory Part Request Talk Unwritten Update wrote)

namespace Hub

theorem Memory.answer_write (m : Memory) (t : Instant) (p : Part) (e : ManagedCluster) :
    (m.answer t (p.request e)).2 = (m.talk t (p.write e)).2 := by
  cases p <;> rfl

theorem wrote_write {m : Memory} {t : Instant} (p : Part) (e : ManagedCluster) :
    wrote ⟨p.request e, (m.answer t (p.request e)).1⟩ = (m.talk t (p.write e)).1.toBool := by
  cases p with
  | status =>
    show wrote ⟨.setStatus e, (m.answer t (.setStatus e)).1⟩ = (m.answer t (.setStatus e)).1.toBool
    generalize (m.answer t (.setStatus e)).1 = r
    cases r <;> rfl
  | finalizers =>
    show wrote ⟨.setFinalizers e, (m.answer t (.setFinalizers e)).1⟩ =
      (m.answer t (.setFinalizers e)).1.toBool
    generalize (m.answer t (.setFinalizers e)).1 = r
    cases r <;> rfl

end Hub

/-! ## Clients -/

/-- A client that makes a change, and tries again so often when it comes too late. -/
structure Client where
  mutation : Mutation
  retries : Nat

def Client.update (name : String) (c : Client) : Talk Update :=
  Hub.updateCluster name c.mutation.part c.mutation.edit c.retries

namespace Session

variable {ι α : Type} [DecidableEq ι] {s : Session ι α} {who i : ι} {now : Instant} {q : Request}
  {next : q.Answer → Talk α}

/-- The clients that have written the cluster, in the order of their writes. -/
def writers (s : Session ι α) : List ι := (s.calls.filter fun x => wrote x.said).map Call.who

theorem mem_writers_iff : i ∈ s.writers ↔ ∃ x ∈ s.said i, wrote x = true := by
  simp only [writers, said, List.mem_map, List.mem_filter, decide_eq_true_eq]
  constructor
  · rintro ⟨x, ⟨hx, hwrote⟩, hi⟩
    exact ⟨x.said, ⟨x, ⟨hx, hi⟩, rfl⟩, hwrote⟩
  · rintro ⟨_, ⟨x, ⟨hx, hi⟩, rfl⟩, hwrote⟩
    exact ⟨x, ⟨hx, hwrote⟩, hi⟩

theorem notMem_writers (h : Unwritten [] (s.said i)) : i ∉ s.writers := by
  obtain ⟨h', hsaid, hnone⟩ := h
  rw [mem_writers_iff, hsaid]
  rintro ⟨x, hx, hwrote⟩
  rw [hnone x hx] at hwrote
  cases hwrote

theorem writers_asked : (s.asked who now q next).writers =
    s.writers ++ if wrote ⟨q, (s.hub.answer now q).1⟩ then [who] else [] := by
  unfold writers asked
  rw [List.filter_append, List.map_append]
  congr 1
  rw [List.filter_cons, List.filter_nil]
  show List.map _ (if wrote ⟨q, (s.hub.answer now q).1⟩ = true then _ else _) = _
  split <;> rfl

end Session

namespace Serial

variable {ι : Type} {clients : ι → Client} {name : String} {m : Memory} {s : Session ι Update}

/-- The cluster with the changes of some clients made one after the other. -/
def changed (clients : ι → Client) (writers : List ι) (c : ManagedCluster) : ManagedCluster :=
  writers.foldl (fun c i => (clients i).mutation.applied c) c

theorem changed_append (writers : List ι) (i : ι) (c : ManagedCluster) :
    changed clients (writers ++ [i]) c = (clients i).mutation.applied (changed clients writers c) :=
  List.foldl_append

theorem update_obeys (clients : ι → Client) (name : String) (i : ι) :
    ((clients i).update name).Obeys
      (Attempts name (clients i).mutation.part (clients i).mutation.edit [])
      (Concludes name (clients i).mutation.edit []) [] :=
  Hub.updateCluster_obeys ⟨[], rfl, fun _ hx => nomatch hx⟩ _

variable [DecidableEq ι]

/-- Clients under way with their updates of the cluster `name`. -/
def Updating (clients : ι → Client) (name : String) (s : Session ι Update) : Prop :=
  s.Conforms (fun i => Attempts name (clients i).mutation.part (clients i).mutation.edit [])
    fun i => Concludes name (clients i).mutation.edit []

/-- The stored cluster is that of the beginning with the changes of those that have written,
and no client has written twice. -/
structure Ordered (clients : ι → Client) (name : String) (m : Memory) (s : Session ι Update) :
    Prop where
  once : s.writers.Nodup
  live : ∀ d, s.hub.clusters.get? name = some d → d.isDeleting = false
  stored : (s.hub.clusters.get? name).map (·.unversioned) =
    (m.clusters.get? name).map fun c => (changed clients s.writers c).unversioned

namespace Ordered

variable {i : ι} {t : Instant} {q : Request} {next : q.Answer → Talk Update}
  {d e : ManagedCluster}

theorem of_unwritten (h : Ordered clients name m s)
    (hclusters : (s.hub.answer t q).2.clusters = s.hub.clusters)
    (hnot : wrote ⟨q, (s.hub.answer t q).1⟩ = false) :
    Ordered clients name m (s.asked i t q next) := by
  have hwriters : (s.asked i t q next).writers = s.writers := by
    rw [Session.writers_asked, hnot]
    exact List.append_nil _
  have hhub : (s.asked i t q next).hub.clusters = s.hub.clusters := hclusters
  refine ⟨?_, ?_, ?_⟩
  · rw [hwriters]; exact h.once
  · rw [hhub]; exact h.live
  · rw [hhub, hwriters]; exact h.stored

theorem of_wrote (h : Ordered clients name m s) (hi : i ∉ s.writers)
    (hd : s.hub.clusters.get? name = some d) (he : (clients i).mutation.edit d = some e)
    (hafter : ∃ d', (s.hub.answer t q).2.clusters.get? name = some d' ∧ d'.isDeleting = false ∧
      d'.unversioned = e.unversioned)
    (hwrote : wrote ⟨q, (s.hub.answer t q).1⟩ = true) :
    Ordered clients name m (s.asked i t q next) := by
  have hwriters : (s.asked i t q next).writers = s.writers ++ [i] := by
    rw [Session.writers_asked, hwrote]
    rfl
  obtain ⟨d', hd', hlive, hsame⟩ := hafter
  have hhub : (s.asked i t q next).hub.clusters.get? name = some d' := hd'
  refine ⟨?_, fun x hx => ?_, ?_⟩
  · rw [hwriters]
    exact List.nodup_append.mpr ⟨h.once, List.nodup_cons.mpr ⟨List.not_mem_nil, List.nodup_nil⟩,
      fun a ha b hb heq => hi (List.mem_singleton.mp hb ▸ heq ▸ ha)⟩
  · rw [hhub, Option.some.injEq] at hx
    rw [← hx, hlive]
  · have hstored := h.stored
    rw [hd, Option.map_some, eq_comm, Option.map_eq_some_iff] at hstored
    obtain ⟨c, hc, hchanged⟩ := hstored
    have hedit : (changed clients (s.writers ++ [i]) c).unversioned = e.unversioned := by
      rw [changed_append, ← Mutation.applied_unversioned, hchanged, Mutation.applied_unversioned,
        Mutation.applied_of_edit he]
    rw [hhub, hwriters, hc, Option.map_some, Option.map_some, hsame, hedit]

theorem asked (h : Ordered clients name m s) (hs : Updating clients name s)
    (hq : s.rest i = .ask q next) : Ordered clients name m (s.asked i t q next) := by
  obtain ⟨hunwritten, hattempt⟩ := hs.fits_of_ask hq
  rcases hattempt with rfl | ⟨d, e, hlast, he, rfl⟩
  · exact h.of_unwritten rfl rfl
  obtain ⟨hname, hknown⟩ := hs.known i name d hlast
  obtain ⟨htook, hversion⟩ := Mutation.took_edit he
  have hename : e.nameText = d.nameText := htook.nameText
  have hwrote := Hub.wrote_write (m := s.hub) (t := t) (clients i).mutation.part e
  have hhub := s.hub.answer_write t (clients i).mutation.part e
  have hgives := Memory.write_gives (m := s.hub) t (clients i).mutation.part e
  cases hr : s.hub.talk t ((clients i).mutation.part.write e) with
  | mk r m' =>
    rw [hr] at hwrote hhub hgives
    cases r with
    | error f => exact h.of_unwritten (hhub ▸ hgives.clusters) hwrote
    | ok u =>
      obtain ⟨d', hd', hupdated⟩ := hgives
      have hstored := Memory.stored_of_written hs.stamped hknown hename hversion
        (congrArg Prod.fst hr)
      rw [hstored, Option.some.injEq] at hd'
      subst hd'
      rw [hename, hname] at hstored hupdated
      have hlive := h.live d hstored
      have hafter := hupdated.stored.unversioned htook hlive
      exact h.of_wrote (Session.notMem_writers hunwritten) hstored he (hhub ▸ hafter) hwrote

theorem after (h : Ordered clients name m s) (hs : Updating clients name s)
    (schedule : List ι) : Ordered clients name m (s.after (schedule.map fun i => .call i t)) := by
  induction schedule generalizing s with
  | nil => exact h
  | cons i rest ih =>
    refine ih ?_ (hs.turn (.call i t))
    cases hq : s.rest i with
    | done u => rw [Session.turn_of_done hq]; exact h
    | ask q next => rw [Session.turn_of_ask hq]; exact h.asked hs hq

end Ordered

/-- No update is lost. -/
structure Serialized (clients : ι → Client) (name : String) (m : Memory) (s : Session ι Update) :
    Prop where
  /-- The cluster is that of the beginning with the changes of those that have written, made one
  after the other in the order of their writes. -/
  stored : (s.hub.clusters.get? name).map (·.unversioned) =
    (m.clusters.get? name).map fun c => (changed clients s.writers c).unversioned
  /-- No client has written twice. -/
  once : s.writers.Nodup
  /-- Those that have written are those that say so in the end. -/
  said : ∀ i, i ∈ s.writers ↔ ∃ u, s.rest i = .done u ∧ u.written = .ok true
  /-- One that says that it had nothing to write has seen so last. -/
  idle : ∀ i u, s.rest i = .done u → u.written = .ok false →
    ∃ x, (s.said i).getLast? = some ⟨.getCluster name, .ok x⟩ ∧
      ∀ d, x = some d → (clients i).mutation.edit d = none

theorem said_of_updating (hs : Updating clients name s) (i : ι) :
    i ∈ s.writers ↔ ∃ u, s.rest i = .done u ∧ u.written = .ok true := by
  cases hq : s.rest i with
  | ask q next =>
    have hnot := Session.notMem_writers (hs.fits_of_ask hq).1
    exact ⟨fun h => absurd h hnot, fun ⟨u, hu, _⟩ => nomatch hu⟩
  | done u =>
    have hends := hs.ends_of_done hq
    unfold Concludes at hends
    constructor
    · intro hi
      refine ⟨u, rfl, ?_⟩
      split at hends
      · assumption
      · exact absurd hi (Session.notMem_writers hends.1)
      · exact absurd hi (Session.notMem_writers hends)
    · rintro ⟨u', hu', hu⟩
      cases hu'
      rw [hu] at hends
      obtain ⟨h', x, -, hx, hsaid⟩ := hends
      refine Session.mem_writers_iff.mpr ⟨x, ?_, hx⟩
      rw [hsaid]
      exact List.mem_append_right _ (List.mem_singleton_self x)

/-- However the requests of clients that update one live cluster are interleaved, no update is
lost, and none is made by a client that says otherwise. -/
theorem no_update_lost (clients : ι → Client) (name : String) (hm : m.Filed) (hs : m.Stamped)
    (hlive : ∀ c, m.clusters.get? name = some c → c.isDeleting = false) (t : Instant)
    (schedule : List ι) :
    Serialized clients name m
      (Session.after (schedule.map fun i => .call i t)
        ⟨fun i => (clients i).update name, m, []⟩) := by
  have hstart : Updating clients name ⟨fun i => (clients i).update name, m, []⟩ :=
    Session.Conforms.start hm hs (update_obeys clients name)
  have hnone : Ordered clients name m ⟨fun i => (clients i).update name, m, []⟩ :=
    ⟨List.nodup_nil, hlive, rfl⟩
  have hordered := hnone.after (t := t) hstart schedule
  have hend := hstart.after (schedule.map fun i => .call i t)
  refine ⟨hordered.stored, hordered.once, said_of_updating hend, fun i u hu hidle => ?_⟩
  have hends := hend.ends_of_done hu
  unfold Concludes at hends
  rw [hidle] at hends
  exact hends.2

/-! ## Three clients at once -/

open Sample

/-- Of three clients that have read the same copy, two come too late. -/
def rivals : Fin 3 → Client
  | 0 => ⟨.ensureFinalizer "a", 0⟩
  | 1 => ⟨.mergeConditions now [Progress.succeeded now], 1⟩
  | 2 => ⟨.removeFinalizer Names.workFinalizer, 0⟩

def contested : Memory := Run.after "c" [.change (.cluster (held (hosted "c" "h")))] {}

def contest : Session (Fin 3) Update :=
  .after ([0, 1, 2, 0, 1, 2, 1, 1].map fun i => .call i now)
    ⟨fun i => (rivals i).update "c", contested, []⟩

theorem no_update_lost_of_rivals :
    contest.writers = [0, 1] ∧ Serialized rivals "c" contested contest := by
  have hnamed : contested.Named := Run.named_after _ Memory.named_empty (by decide +kernel)
  exact ⟨by decide +kernel,
    no_update_lost rivals "c" hnamed.toFiled
      (Memory.stamped_after _ Memory.stamped_empty _)
      (fun c hc => by
        have hc' : some { held (hosted "c" "h") with
            metadata := Memory.stamped (held (hosted "c" "h")).metadata 1 } = some c := hc
        rw [← Option.some.inj hc']
        rfl) now [0, 1, 2, 0, 1, 2, 1, 1]⟩

end Serial
end Hosting
