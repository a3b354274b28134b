import Hosting.Proofs.Version
import Mathlib.Logic.Function.Basic

/-!
# Clients that take turns

Several clients talk to one hub, one request at a time.  Whose request comes next is not for
them to say, and between their requests the hub changes as others want.  Each client goes on
as its dialogue says from what it was answered, and what it has read last stands for one
state of a cluster, however much has happened since (`Conforms.after`).
-/

namespace Hosting

open Hub (Change Memory Request Talk)
open Hub.Memory (Known Later)

variable {ι α : Type}

/-- What comes next. -/
inductive Turn (ι : Type) where
  /-- The client makes its next request, if it has one left. -/
  | call (who : ι) (now : Instant)
  | change (e : Change)

/-- A request of a client, with the hub as it is asked. -/
structure Call (ι : Type) where
  who : ι
  now : Instant
  request : Request
  hub : Memory

namespace Call

/-- The request with its answer. -/
def said (c : Call ι) : (q : Request) × q.Answer :=
  ⟨c.request, (c.hub.answer c.now c.request).1⟩

/-- The hub after it. -/
def after (c : Call ι) : Memory := (c.hub.answer c.now c.request).2

end Call

/-- What each client still has to do, and the requests that were made so far. -/
structure Session (ι α : Type) where
  rest : ι → Talk α
  hub : Memory
  calls : List (Call ι) := []

namespace Session

section Turns

variable [DecidableEq ι]

/-- The client has made the request `q`, and goes on with the answer. -/
def asked (s : Session ι α) (who : ι) (now : Instant) (q : Request) (next : q.Answer → Talk α) :
    Session ι α where
  rest := Function.update s.rest who (next (s.hub.answer now q).1)
  hub := (s.hub.answer now q).2
  calls := s.calls ++ [⟨who, now, q, s.hub⟩]

def turn (s : Session ι α) : Turn ι → Session ι α
  | .call who now =>
    match s.rest who with
    | .done _ => s
    | .ask q next => s.asked who now q next
  | .change e => { s with hub := e.apply s.hub }

def after (turns : List (Turn ι)) (s : Session ι α) : Session ι α := turns.foldl turn s

/-- What was said with a client. -/
def said (s : Session ι α) (who : ι) : Dialogue.History Request Request.Answer :=
  (s.calls.filter (·.who = who)).map Call.said

variable {s : Session ι α} {who i : ι} {now : Instant} {q : Request} {next : q.Answer → Talk α}

theorem turn_of_done {a : α} (h : s.rest who = .done a) : s.turn (.call who now) = s := by
  simp only [turn, h]

theorem turn_of_ask (h : s.rest who = .ask q next) :
    s.turn (.call who now) = s.asked who now q next := by
  simp only [turn, h]

theorem said_asked_self :
    (s.asked who now q next).said who = s.said who ++ [⟨q, (s.hub.answer now q).1⟩] := by
  simp [said, asked, Call.said]

theorem said_asked_of_ne (h : i ≠ who) : (s.asked who now q next).said i = s.said i := by
  simp [said, asked, Ne.symm h]

theorem rest_asked_self :
    (s.asked who now q next).rest who = next (s.hub.answer now q).1 :=
  Function.update_self _ _ _

theorem rest_asked_of_ne (h : i ≠ who) : (s.asked who now q next).rest i = s.rest i :=
  Function.update_of_ne h _ _

/-! ## What the clients go by -/

variable {fits : ι → Dialogue.History Request Request.Answer → Request → Prop}
  {ends : ι → Dialogue.History Request Request.Answer → α → Prop}

/-- Each client goes on from what it was answered, and no other cluster has since been stored
under the version that it has read last. -/
structure Conforms (fits : ι → Dialogue.History Request Request.Answer → Request → Prop)
    (ends : ι → Dialogue.History Request Request.Answer → α → Prop) (s : Session ι α) : Prop where
  filed : s.hub.Filed
  stamped : s.hub.Stamped
  obeys : ∀ i, (s.rest i).Obeys (fits i) (ends i) (s.said i)
  known : ∀ i n d, (s.said i).getLast? = some ⟨.getCluster n, .ok (some d)⟩ →
    d.nameText = n ∧ Known d s.hub

namespace Conforms

theorem start {rest : ι → Talk α} {m : Memory} (hm : m.Filed) (hs : m.Stamped)
    (h : ∀ i, (rest i).Obeys (fits i) (ends i) []) : Conforms fits ends ⟨rest, m, []⟩ where
  filed := hm
  stamped := hs
  obeys := h
  known _ _ _ hlast := by cases hlast

variable (h : Conforms fits ends s)

include h

theorem fits_of_ask (hq : s.rest who = .ask q next) : fits who (s.said who) q :=
  (hq ▸ h.obeys who : Dialogue.Obeys (fits who) (ends who) (.ask q next) _).1

theorem ends_of_done {a : α} (hd : s.rest who = .done a) : ends who (s.said who) a :=
  (hd ▸ h.obeys who : Dialogue.Obeys (fits who) (ends who) (.done a) _)

theorem asked (hq : s.rest who = .ask q next) :
    Conforms fits ends (s.asked who now q next) where
  filed := h.filed.answer now q
  stamped := h.stamped.later (Hub.Memory.later_answer now q)
  obeys i := by
    by_cases hi : i = who
    · subst hi
      rw [rest_asked_self, said_asked_self]
      exact (hq ▸ h.obeys i : Dialogue.Obeys _ _ (.ask q next) _).2 _
    · rw [rest_asked_of_ne hi, said_asked_of_ne hi]
      exact h.obeys i
  known i n d hlast := by
    have hlater : Later s.hub (s.hub.answer now q).2 := Hub.Memory.later_answer now q
    by_cases hi : i = who
    · subst hi
      rw [said_asked_self, List.getLast?_concat, Option.some.injEq] at hlast
      obtain ⟨rfl, hanswer⟩ := Sigma.mk.inj hlast
      have hstored : s.hub.clusters.get? n = some d := Except.ok.inj (eq_of_heq hanswer)
      exact ⟨h.filed.clusters n d hstored,
        (Hub.Memory.known_of_stored h.stamped h.filed hstored).later hlater⟩
    · rw [said_asked_of_ne hi] at hlast
      exact (h.known i n d hlast).imp_right (·.later hlater)

theorem turn (t : Turn ι) : Conforms fits ends (s.turn t) := by
  cases t with
  | call who now =>
    cases hq : s.rest who with
    | done a => rw [turn_of_done hq]; exact h
    | ask q next => rw [turn_of_ask hq]; exact h.asked hq
  | change e =>
    exact ⟨h.filed.apply e, h.stamped.later (Hub.Memory.later_apply e), h.obeys,
      fun i n d hlast => (h.known i n d hlast).imp_right (·.later (Hub.Memory.later_apply e))⟩

theorem after (turns : List (Turn ι)) : Conforms fits ends (s.after turns) := by
  induction turns generalizing s with
  | nil => exact h
  | cons t ts ih => exact ih (h.turn t)

end Conforms
end Turns
end Session
end Hosting
