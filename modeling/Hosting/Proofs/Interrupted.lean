import Hosting.Proofs.Interleaving
import Hosting.Proofs.Pass.Conduct

/-!
# Passes that others interrupt

Between any two requests of a pass the hub may change: clusters are written by others, and
their deletion is asked for.  A pass that has seen a cluster live may so come to write one
that is not live any more.  It never puts its finalizer on such a cluster, since what it
writes has to be under the version that it has read live.
-/

namespace Hosting

open Hub (Memory Request)

namespace Interrupted

open Hub.Memory (Alike Known)
open Pass Sample

variable {m m' : Memory} {t : Instant} {c d e : ManagedCluster}

/-- No deleting cluster carries the finalizer that did not carry it before. -/
def Spares (m m' : Memory) : Prop :=
  ∀ n d', m'.clusters.get? n = some d' → d'.isDeleting = true → d'.isHeld = true →
    ∃ d, m.clusters.get? n = some d ∧ d.isHeld = true

theorem spares_of_clusters (h : m'.clusters = m.clusters) : Spares m m' :=
  fun _ d' hd' _ hheld => ⟨d', h ▸ hd', hheld⟩

theorem spares_of_took {p : Hub.Part} {n : String} (hd : m.clusters.get? n = some d)
    (h : Hub.Memory.Updated p n d e m m')
    (hlive : p = .finalizers → e.isHeld = true → d.isDeleting = false) : Spares m m' := by
  intro n' d' hd' hdel hheld
  by_cases hn : n' = n
  · subst hn
    refine ⟨d, hd, ?_⟩
    cases p with
    | status =>
      obtain ⟨d'', hd'', hrevised⟩ := h.stored
      rw [hd', Option.some.injEq] at hd''
      subst hd''
      rw [← ManagedCluster.isHeld_congr hrevised.finalizers, hheld]
    | finalizers =>
      rcases h.stored with ⟨d'', hd'', hrevised⟩ | ⟨-, -, hgone⟩
      · rw [hd', Option.some.injEq] at hd''
        subst hd''
        have hlive := hlive rfl ((ManagedCluster.isHeld_congr hrevised.finalizers).symm.trans hheld)
        rw [ManagedCluster.isDeleting_of_bare hrevised.bare, hlive] at hdel
        cases hdel
      · rw [hd'] at hgone
        cases hgone
  · rw [h.within.clusters n' hn] at hd'
    exact ⟨d', hd', hheld⟩

theorem reconcile_careful (ctx : Context) (name : String)
    (h : Dialogue.History Request Request.Answer) :
    (reconcile ctx name).run.Obeys Careful (fun _ _ => True) h := by
  obtain ⟨next, hnext, hnone, hsome⟩ := behaves_reconcile ctx name
  rw [hnext, ExceptT.run_bind, Dialogue.obeys_bind]
  refine Dialogue.obeys_map.mpr ⟨trivial, fun a => ?_⟩
  rcases a with f | c
  · exact trivial
  cases c with
  | none => exact (hnone _).imp (fun _ _ hq => hq.1) fun _ _ _ => trivial
  | some c => exact (hsome c _).imp (fun _ _ hq => hq.1) fun _ _ _ => trivial

/-- A careful request finds the cluster as it was read live, or is refused. -/
theorem spares_of_careful (hs : m.Stamped) {h : Dialogue.History Request Request.Answer}
    {q : Request} (hq : Careful h q)
    (hknown : ∀ n d, h.getLast? = some ⟨.getCluster n, .ok (some d)⟩ → Known d m) :
    Spares m (m.answer t q).2 := by
  have hupdate (p : Hub.Part) (e : ManagedCluster)
      (hlive : p = .finalizers → e.isHeld = true → ∀ u, (m.talk t (p.write e)).1 = .ok u →
        ∀ d, m.clusters.get? e.nameText = some d → d.isDeleting = false) :
      Spares m (m.talk t (p.write e)).2 := by
    have hgives := Hub.Memory.write_gives (m := m) t p e
    revert hlive hgives
    generalize m.talk t (p.write e) = r
    intro hlive hgives
    obtain ⟨f | u, m'⟩ := r
    · exact spares_of_clusters hgives.clusters
    · obtain ⟨d, hd, hupdated⟩ := hgives
      exact spares_of_took hd hupdated fun hp hheld => hlive hp hheld u rfl d hd
  cases q with
  | setStatus e => exact hupdate .status e fun hp => nomatch hp
  | setFinalizers e =>
    refine hupdate .finalizers e fun _ hheld u hu d hd => ?_
    obtain ⟨n, c, hlast, hlive, hname, hversion⟩ := hq hheld
    have hstored := Hub.Memory.stored_of_written hs (hknown n c hlast) hname hversion hu
    rw [hd, Option.some.injEq] at hstored
    rw [hstored, hlive]
  | _ =>
    refine spares_of_clusters (Hub.Memory.clusters_answer fun p e heq => ?_)
    cases p <;> cases heq

/-! ## Passes among others -/

section

variable {ι : Type} [DecidableEq ι] {α : Type} {s : Session ι α}

/-- None of the requests that were made has put the finalizer on a deleting cluster. -/
def Sparing (s : Session ι α) : Prop := ∀ x ∈ s.calls, Spares x.hub x.after

theorem Sparing.turn (h : Sparing s)
    (hs : s.Conforms (fun _ => Careful) fun _ _ _ => True) (t : Turn ι) : Sparing (s.turn t) := by
  cases t with
  | change e => exact h
  | call who now =>
    cases hq : s.rest who with
    | done a => rw [Session.turn_of_done hq]; exact h
    | ask q next =>
      rw [Session.turn_of_ask hq]
      intro x hx
      rcases List.mem_append.mp hx with hx | hx
      · exact h x hx
      · rw [List.mem_singleton.mp hx]
        exact spares_of_careful hs.stamped (hs.fits_of_ask hq) fun n d hlast =>
          (hs.known who n d hlast).2

theorem Sparing.after (h : Sparing s)
    (hs : s.Conforms (fun _ => Careful) fun _ _ _ => True) (turns : List (Turn ι)) :
    Sparing (s.after turns) := by
  induction turns generalizing s with
  | nil => exact h
  | cons t ts ih => exact ih (h.turn hs t) (hs.turn t)

/-- However the requests of passes are interleaved with each other and with what others do, no
request of theirs leaves a cluster deleting and with the finalizer that did not carry it just
before. -/
theorem never_held_while_deleting (ctx : ι → Context) (name : ι → String) {m : Memory}
    (hm : m.Filed) (hs : m.Stamped) (turns : List (Turn ι)) :
    ∀ x ∈ (Session.after turns ⟨fun i => (reconcile (ctx i) (name i)).run, m, []⟩).calls,
      ∀ n d', x.after.clusters.get? n = some d' → d'.isDeleting = true → d'.isHeld = true →
        ∃ d, x.hub.clusters.get? n = some d ∧ d.isHeld = true := by
  have hstart : Sparing (⟨fun i => (reconcile (ctx i) (name i)).run, m, []⟩ :
      Session ι (Except Failure Outcome)) := by
    intro x hx
    cases hx
  exact hstart.after (Session.Conforms.start hm hs fun i => reconcile_careful (ctx i) (name i) [])
    turns

/-- The request is to put the finalizer on a cluster that is deleting by now. -/
def isLate (x : Call ι) : Bool :=
  match x.request with
  | .setFinalizers e => e.isHeld && (x.hub.clusters.get? e.nameText).any (·.isDeleting)
  | _ => false

end

/-- The deletion of the cluster is asked for between the read and the write of an update. -/
def overtaken : List (Turn Unit) :=
  List.replicate 9 (.call () now) ++ .change (.cluster (deleting (hosted "c" "h"))) ::
    List.replicate 5 (.call () now)

def interrupted : Session Unit (Except Failure Outcome) :=
  .after overtaken ⟨fun _ => (reconcile { now := now } "c").run,
    Run.after "c" (setUp (hosted "c" "h")) {}, []⟩

theorem never_held_when_overtaken :
    interrupted.calls.any isLate = true ∧
      ∀ x ∈ interrupted.calls, ∀ n d', x.after.clusters.get? n = some d' →
        d'.isDeleting = true → d'.isHeld = true →
          ∃ d, x.hub.clusters.get? n = some d ∧ d.isHeld = true := by
  have hnamed : (Run.after "c" (setUp (hosted "c" "h")) {}).Named :=
    Run.named_after _ Hub.Memory.named_empty (by decide +kernel)
  exact ⟨by decide +kernel,
    never_held_while_deleting (fun _ => { now := now }) (fun _ => "c") hnamed.toFiled
      (Hub.Memory.stamped_after _ Hub.Memory.stamped_empty _) overtaken⟩

end Interrupted
end Hosting
