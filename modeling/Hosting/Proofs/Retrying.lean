import Hosting.Hub.Client
import Hosting.Proofs.Hub.Update

/-!
# Updates over HTTP

An update of a cluster through an API server, whatever the server replies: which requests are
sent, what each of them carries, and which reply ends the update (`update_conducted`).  A write
goes to the cluster that the edited copy names, and that is where it may go astray
(`write_astray`).
-/

namespace Hosting
namespace Hub
namespace Retrying

open Dialogue (History run transcript)

variable {σ : Type} {now : Instant} {name : String} {part : Part}
  {edit : ManagedCluster → Option ManagedCluster} {n : Nat}

/-! ## The record of an update -/

/-- What was sent, with the replies, in order. -/
abbrev Record := List (Call × Reply)

/-- A server that keeps the record of all that it is sent. -/
def recorded (send : Call → σ → Reply × σ) (call : Call) (s : σ × Record) :
    Reply × (σ × Record) :=
  let (a, server) := send call s.1
  (a, (server, s.2 ++ [(call, a)]))

/-- An update through a server: its outcome, and all that was sent for it. -/
def update (send : Call → σ → Reply × σ) (now : Instant) (name : String) (part : Part)
    (edit : ManagedCluster → Option ManagedCluster) (retries : Nat) (s : Recorder × σ) :
    Except Error Bool × Record :=
  let (u, _, _, record) := (updateCluster name part edit retries).run
    (serve (recorded send) now) (s.1, (s.2, []))
  (u.written, record)

/-! ## Requests and replies -/

/-- A request about the cluster `name` as it is sent, unless it cannot be. -/
def sent (name : String) (call : Call) : Except Error Call :=
  if name = "" then .error .unsent
  else match call.sent? with
    | none => .error .unsent
    | some call => .ok call

/-- The look-up of a cluster. -/
def lookUp (name : String) : Except Error Call := sent name (.get (Exchange.clusterPath name))

/-- The write of a part of the cluster `name` as it is in `e`, under the version of `e`. -/
def write (part : Part) (name : String) (e : ManagedCluster) : Call :=
  match part with
  | .status => .patch (Exchange.clusterPath name ++ "/status") (Exchange.statusPatch e)
  | .finalizers => .patch (Exchange.clusterPath name) (Exchange.finalizersPatch e.metadata)

/-- The write of a part of a cluster, which goes by the name that the cluster has. -/
def order (part : Part) (e : ManagedCluster) : Except Error Call :=
  match e.metadata.name with
  | none => .error (.invalidObject "ManagedCluster missing name")
  | some name => sent name (write part name e)

/-- How the reply to a look-up ends the update, if it does. -/
def lookUpVerdict? (edit : ManagedCluster → Option ManagedCluster) (a : Reply) :
    Option (Except Error Bool) :=
  match a.found ManagedCluster.ofJson? with
  | .error f => some (.error f)
  | .ok none => some (.ok false)
  | .ok (some d) => if (edit d).isSome then none else some (.ok false)

/-- How the reply to a write ends the update, if it does, when so many retries are left. -/
def writeVerdict? (left : Nat) (a : Reply) : Option (Except Error Bool) :=
  match a.refusal? with
  | none =>
    match (Json.read? a.body).bind ManagedCluster.ofJson? with
    | some _ => some (.ok true)
    | none => some (.error .unreadable)
  | some f =>
    if f.code = 409 then
      if left = 0 then some (.error (.conflict f.message)) else none
    else if f.code = 404 then some (.error (.notFound f.message))
    else some (.error (.refused f.code f.message))

theorem writeVerdict?_of_ok {a : Reply} {u : ManagedCluster}
    (h : a.value ManagedCluster.ofJson? = .ok u) : writeVerdict? n a = some (.ok true) := by
  unfold Reply.value at h
  unfold writeVerdict?
  cases hf : a.refusal? with
  | some f =>
    rw [hf] at h
    cases h
  | none =>
    rw [hf] at h
    dsimp only at h ⊢
    split at h
    · next x hx => rw [hx]
    · cases h

theorem writeVerdict?_of_error {a : Reply} {f : Error}
    (h : a.value ManagedCluster.ofJson? = .error f) :
    writeVerdict? n a = if f.isConflict = true ∧ n ≠ 0 then none else some (.error f) := by
  unfold Reply.value at h
  unfold writeVerdict?
  cases hr : a.refusal? with
  | some r =>
    rw [hr] at h
    dsimp only at h ⊢
    rw [Except.error.injEq] at h
    subst h
    unfold Refusal.error Error.ofCode
    by_cases hconflict : r.code = 409
    · by_cases hn : n = 0 <;> simp [hconflict, hn, Error.isConflict]
    · by_cases hgone : r.code = 404 <;> simp [hconflict, hgone, Error.isConflict]
  | none =>
    rw [hr] at h
    dsimp only at h ⊢
    split at h
    · cases h
    · next hx =>
      rw [Except.error.injEq] at h
      subst h
      rw [hx]
      rfl

/-! ## Requests that are carried out -/

/-- The exchanges that a request with its answer took. -/
inductive Carried (now : Instant) : (q : Request) × q.Answer → Record → Prop where
  | unmade {r : Recorder} {q : Request} {f : Error}
      (hq : Exchange.ofRequest now r q = .error f) : Carried now ⟨q, .error f⟩ []
  | unsent {r : Recorder} {q : Request} {x : Exchange q.Value}
      (hq : Exchange.ofRequest now r q = .ok x) (hx : x.call.sent? = none) :
    Carried now ⟨q, q.unsent⟩ []
  | replied {r : Recorder} {q : Request} {x : Exchange q.Value} {call : Call} {a : Reply}
      (hq : Exchange.ofRequest now r q = .ok x) (hx : x.call.sent? = some call) :
    Carried now ⟨q, x.read a⟩ [(call, a)]

theorem carried_serve (send : Call → σ → Reply × σ) (now : Instant) (q : Request)
    (s : Recorder × (σ × Record)) :
    ∃ xs, Carried now ⟨q, (serve (recorded send) now q s).1⟩ xs ∧
      (serve (recorded send) now q s).2.2.2 = s.2.2 ++ xs := by
  unfold serve
  cases hq : Exchange.ofRequest now s.1 q with
  | error f => exact ⟨[], .unmade hq, (List.append_nil _).symm⟩
  | ok x =>
    dsimp only
    cases hx : x.call.sent? with
    | none => exact ⟨[], .unsent hq hx, (List.append_nil _).symm⟩
    | some call => exact ⟨_, .replied hq hx, rfl⟩

/-- The exchanges that what was said took, one after the other. -/
inductive CarriedAll (now : Instant) : History Request Request.Answer → Record → Prop where
  | nil : CarriedAll now [] []
  | cons {x : (q : Request) × q.Answer} {h : History Request Request.Answer} {xs ys : Record}
      (head : Carried now x xs) (tail : CarriedAll now h ys) : CarriedAll now (x :: h) (xs ++ ys)

theorem carriedAll_run {α : Type} (send : Call → σ → Reply × σ) (now : Instant) (d : Talk α)
    (s : Recorder × (σ × Record)) :
    ∃ xs, CarriedAll now (transcript (serve (recorded send) now) d s) xs ∧
      (run (serve (recorded send) now) d s).2.2.2 = s.2.2 ++ xs := by
  induction d generalizing s with
  | done a => exact ⟨[], .nil, (List.append_nil _).symm⟩
  | ask q next ih =>
    obtain ⟨xs, hhead, hrecord⟩ := carried_serve send now q s
    obtain ⟨ys, htail, hrest⟩ := ih (serve (recorded send) now q s).1
      (serve (recorded send) now q s).2
    refine ⟨xs ++ ys, .cons hhead htail, ?_⟩
    rw [← List.append_assoc, ← hrecord]
    exact hrest

/-- The request of an exchange as it is sent. -/
def made {α : Type} (x : Except Error (Exchange α)) : Except Error Call :=
  match x with
  | .error f => .error f
  | .ok x =>
    match x.call.sent? with
    | none => .error .unsent
    | some call => .ok call

theorem made_checked {α : Type} {call : Call} {read : Reply → Except Error α} :
    made (Exchange.checked name ⟨call, read⟩) = sent name call := by
  unfold Exchange.checked sent
  split <;> rfl

theorem read_of_checked {α : Type} {call : Call} {read : Reply → Except Error α} {x : Exchange α}
    (h : Exchange.checked name ⟨call, read⟩ = .ok x) : x.read = read := by
  unfold Exchange.checked at h
  split at h
  · cases h
  · rw [← Except.ok.inj h]

/-- A request that is made by an exchange of its own fails, or takes that one exchange. -/
theorem carried_cases {q : Request} {a : q.Answer} {xs : Record}
    {y : Except Error (Exchange q.Value)} (hy : ∀ r, Exchange.ofRequest now r q = y)
    (hq : q.unsent = .error .unsent) (h : Carried now ⟨q, a⟩ xs) :
    (∃ f, made y = .error f ∧ a = .error f ∧ xs = []) ∨
      ∃ x call reply, y = .ok x ∧ made y = .ok call ∧ a = x.read reply ∧ xs = [(call, reply)] := by
  cases h with
  | unmade hmade =>
    rw [hy] at hmade
    subst hmade
    exact Or.inl ⟨_, rfl, rfl, rfl⟩
  | unsent hmade hx =>
    rw [hy] at hmade
    subst hmade
    exact Or.inl ⟨.unsent, by rw [made, hx], hq, rfl⟩
  | replied hmade hx =>
    rw [hy] at hmade
    subst hmade
    exact Or.inr ⟨_, _, _, rfl, by rw [made, hx], rfl, rfl⟩

theorem carried_lookUp {a : Except Error (Option ManagedCluster)} {xs : Record}
    (h : Carried now ⟨.getCluster name, a⟩ xs) :
    (∃ f, lookUp name = .error f ∧ a = .error f ∧ xs = []) ∨
      ∃ call reply, lookUp name = .ok call ∧ a = reply.found ManagedCluster.ofJson? ∧
        xs = [(call, reply)] := by
  obtain ⟨f, hmade, ha, hxs⟩ | ⟨x, call, reply, hx, hmade, ha, hxs⟩ :=
    carried_cases (fun _ => rfl) rfl h
  · exact Or.inl ⟨f, made_checked.symm.trans hmade, ha, hxs⟩
  · refine Or.inr ⟨call, reply, made_checked.symm.trans hmade, ?_, hxs⟩
    rw [ha, read_of_checked hx]

/-- The exchange that a write is made by. -/
def exchange (part : Part) (e : ManagedCluster) : Except Error (Exchange ManagedCluster) := do
  let name ← Exchange.nameOf e.metadata Kind.managedCluster
  Exchange.checked name ⟨write part name e, Reply.value ManagedCluster.ofJson?⟩

theorem made_exchange {e : ManagedCluster} : made (exchange part e) = order part e := by
  unfold exchange order Exchange.nameOf
  cases e.metadata.name with
  | none => rfl
  | some name => exact made_checked

theorem read_of_exchange {e : ManagedCluster} {x : Exchange ManagedCluster}
    (h : exchange part e = .ok x) : x.read = Reply.value ManagedCluster.ofJson? := by
  unfold exchange Exchange.nameOf at h
  cases hname : e.metadata.name with
  | none =>
    rw [hname] at h
    cases h
  | some name =>
    rw [hname] at h
    exact read_of_checked h

theorem carried_write {e : ManagedCluster} {a : Except Error ManagedCluster} {xs : Record}
    (h : Carried now (part.said e a) xs) :
    (∃ f, order part e = .error f ∧ a = .error f ∧ xs = []) ∨
      ∃ call reply, order part e = .ok call ∧ a = reply.value ManagedCluster.ofJson? ∧
        xs = [(call, reply)] := by
  have hcases : (∃ f, made (exchange part e) = .error f ∧ a = .error f ∧ xs = []) ∨
      ∃ x call reply, exchange part e = .ok x ∧ made (exchange part e) = .ok call ∧
        a = x.read reply ∧ xs = [(call, reply)] := by
    cases part <;> exact carried_cases (fun _ => rfl) rfl h
  rw [made_exchange] at hcases
  obtain ⟨f, hmade, ha, hxs⟩ | ⟨x, call, reply, hx, hmade, ha, hxs⟩ := hcases
  · exact Or.inl ⟨f, hmade, ha, hxs⟩
  · refine Or.inr ⟨call, reply, hmade, ?_, hxs⟩
    rw [ha, read_of_exchange hx]

theorem isConflict_of_sent {call : Call} {f : Error} (h : sent name call = .error f) :
    f.isConflict = false := by
  unfold sent at h
  split at h
  · rw [← Except.error.inj h]
    rfl
  · split at h
    · rw [← Except.error.inj h]
      rfl
    · cases h

/-- What is written is written under the name that it has. -/
theorem named_of_order {e : ManagedCluster} {call : Call} (h : order part e = .ok call) :
    ∃ n, e.metadata.name = some n ∧ sent n (write part n e) = .ok call := by
  unfold order at h
  split at h
  · cases h
  · next n hname => exact ⟨n, hname, h⟩

theorem isConflict_of_order {e : ManagedCluster} {f : Error} (h : order part e = .error f) :
    f.isConflict = false := by
  unfold order at h
  split at h
  · rw [← Except.error.inj h]
    rfl
  · exact isConflict_of_sent h

/-! ## The course of the exchanges -/

/-- What is sent in an update that may be tried again so many times, and how it ends. -/
inductive Exchanged (name : String) (part : Part) (edit : ManagedCluster → Option ManagedCluster) :
    Nat → Record → Except Error Bool → Prop where
  | unsent {n : Nat} {f : Error} (hget : lookUp name = .error f) :
    Exchanged name part edit n [] (.error f)
  | read {n : Nat} {get : Call} {a : Reply} {r : Except Error Bool}
      (hget : lookUp name = .ok get) (hend : lookUpVerdict? edit a = some r) :
    Exchanged name part edit n [(get, a)] r
  | unordered {n : Nat} {get : Call} {a : Reply} {d e : ManagedCluster} {f : Error}
      (hget : lookUp name = .ok get) (hread : a.found ManagedCluster.ofJson? = .ok (some d))
      (he : edit d = some e) (horder : order part e = .error f) :
    Exchanged name part edit n [(get, a)] (.error f)
  | written {n : Nat} {get patch : Call} {a b : Reply} {d e : ManagedCluster}
      {r : Except Error Bool} (hget : lookUp name = .ok get)
      (hread : a.found ManagedCluster.ofJson? = .ok (some d)) (he : edit d = some e)
      (horder : order part e = .ok patch) (hend : writeVerdict? n b = some r) :
    Exchanged name part edit n [(get, a), (patch, b)] r
  | again {n : Nat} {get patch : Call} {a b : Reply} {d e : ManagedCluster} {record : Record}
      {r : Except Error Bool} (hget : lookUp name = .ok get)
      (hread : a.found ManagedCluster.ofJson? = .ok (some d)) (he : edit d = some e)
      (horder : order part e = .ok patch) (hend : writeVerdict? (n + 1) b = none)
      (rest : Exchanged name part edit n record r) :
    Exchanged name part edit (n + 1) ((get, a) :: (patch, b) :: record) r

theorem lookUpVerdict?_of_edit {a : Reply} {d e : ManagedCluster}
    (hread : a.found ManagedCluster.ofJson? = .ok (some d)) (he : edit d = some e) :
    lookUpVerdict? edit a = none := by
  simp [lookUpVerdict?, hread, he]

theorem CarriedAll.single {x : (q : Request) × q.Answer} {record : Record}
    (h : CarriedAll now [x] record) : Carried now x record := by
  cases h with
  | cons head tail =>
    cases tail
    rwa [List.append_nil]

/-- A look-up that is answered was sent. -/
theorem carried_read {c : Option ManagedCluster} {xs : Record}
    (h : Carried now ⟨.getCluster name, .ok c⟩ xs) :
    ∃ get a, lookUp name = .ok get ∧ a.found ManagedCluster.ofJson? = .ok c ∧ xs = [(get, a)] := by
  obtain ⟨f, -, ha, -⟩ | ⟨get, a, hget, ha, hxs⟩ := carried_lookUp h
  · cases ha
  · exact ⟨get, a, hget, ha.symm, hxs⟩

theorem exchanged_of_course {h : History Request Request.Answer} {u : Update} {record : Record}
    (hc : Course name part edit n h u) (hrecord : CarriedAll now h record) :
    Exchanged name part edit n record u.written := by
  induction hc generalizing record with
  | unread =>
    obtain ⟨f, hget, ha, rfl⟩ | ⟨get, a, hget, ha, rfl⟩ := carried_lookUp hrecord.single
    · cases ha
      exact .unsent hget
    · exact .read hget (by rw [lookUpVerdict?, ← ha])
  | gone =>
    obtain ⟨get, a, hget, ha, rfl⟩ := carried_read hrecord.single
    exact .read hget (by rw [lookUpVerdict?, ha])
  | unchanged he =>
    obtain ⟨get, a, hget, ha, rfl⟩ := carried_read hrecord.single
    exact .read hget (by simp [lookUpVerdict?, ha, he])
  | stored he =>
    cases hrecord with | cons head tail =>
    obtain ⟨get, a, hget, ha, rfl⟩ := carried_read head
    obtain ⟨f, -, hb, -⟩ | ⟨patch, b, horder, hb, rfl⟩ := carried_write tail.single
    · cases hb
    · exact .written hget ha he horder (writeVerdict?_of_ok hb.symm)
  | @refused n d e f he hlast =>
    cases hrecord with | cons head tail =>
    obtain ⟨get, a, hget, ha, rfl⟩ := carried_read head
    obtain ⟨g, horder, hb, rfl⟩ | ⟨patch, b, horder, hb, rfl⟩ := carried_write tail.single
    · cases hb
      exact .unordered hget ha he horder
    · refine .written hget ha he horder ((writeVerdict?_of_error hb.symm).trans (if_neg ?_))
      rintro ⟨hconflict, hn⟩
      rcases hlast with rfl | hother
      · exact hn rfl
      · rw [hconflict] at hother
        cases hother
  | @again n d e f h u he hlate rest ih =>
    cases hrecord with | cons head tail =>
    cases tail with | cons head' tail =>
    obtain ⟨get, a, hget, ha, rfl⟩ := carried_read head
    obtain ⟨g, horder, hb, -⟩ | ⟨patch, b, horder, hb, rfl⟩ := carried_write head'
    · -- what cannot be sent does not come too late
      rw [Except.error.inj hb, isConflict_of_order horder] at hlate
      cases hlate
    · have hend : writeVerdict? (n + 1) b = none :=
        (writeVerdict?_of_error hb.symm).trans (if_pos ⟨hlate, Nat.succ_ne_zero n⟩)
      exact .again hget ha he horder hend (ih tail)

/-! ## Requests, replies and the end -/

/-- How the reply at a place of the record ends the update, if it does: look-ups and writes take
turns, and each pair of them takes one of the retries. -/
def verdict? (edit : ManagedCluster → Option ManagedCluster) (retries i : Nat) (a : Reply) :
    Option (Except Error Bool) :=
  if i % 2 = 0 then lookUpVerdict? edit a else writeVerdict? (retries - i / 2) a

theorem verdict?_later {i : Nat} {a : Reply} :
    verdict? edit (n + 1) (i + 2) a = verdict? edit n i a := by
  have hleft : n + 1 - (i + 2) / 2 = n - i / 2 := by omega
  rw [verdict?, verdict?, Nat.add_mod_right, hleft]

/-- What an update over HTTP may send, and where it ends. -/
structure Conducted (name : String) (part : Part) (edit : ManagedCluster → Option ManagedCluster)
    (retries : Nat) (record : Record) (r : Except Error Bool) : Prop where
  bounded : record.length ≤ 2 * (retries + 1)
  looksUp : ∀ i x, record[2 * i]? = some x → lookUp name = .ok x.1
  /-- A write is the edit of the copy that the look-up before it has given, and of no other. -/
  writes : ∀ i y, record[2 * i + 1]? = some y → ∃ x d e, record[2 * i]? = some x ∧
    x.2.found ManagedCluster.ofJson? = .ok (some d) ∧ edit d = some e ∧
      ∃ n, e.metadata.name = some n ∧ sent n (write part n e) = .ok y.1
  /-- No reply but the last one ends the update. -/
  goesOn : ∀ i x, record[i]? = some x → i + 1 < record.length → verdict? edit retries i x.2 = none
  /-- The last reply ends the update, unless the look-up cannot be sent, or no write of the edit
  of the copy that it gives. -/
  ends : (record = [] ∧ ∃ f, lookUp name = .error f ∧ r = .error f) ∨
    ∃ i x, record.length = i + 1 ∧ record[i]? = some x ∧ (verdict? edit retries i x.2 = some r ∨
      i % 2 = 0 ∧ ∃ d e f, x.2.found ManagedCluster.ofJson? = .ok (some d) ∧ edit d = some e ∧
        order part e = .error f ∧ r = .error f)

variable {record : Record} {r : Except Error Bool}

theorem bounded_of_exchanged (h : Exchanged name part edit n record r) :
    record.length ≤ 2 * (n + 1) := by
  induction h with
  | again _ _ _ _ _ _ ih =>
    rw [List.length_cons, List.length_cons]
    omega
  | _ =>
    simp only [List.length_cons, List.length_nil]
    omega

theorem looksUp_of_exchanged (h : Exchanged name part edit n record r) (i : Nat)
    (x : Call × Reply) (hx : record[2 * i]? = some x) : lookUp name = .ok x.1 := by
  induction h generalizing i with
  | unsent _ => cases hx
  | read hget _ | unordered hget _ _ _ | written hget _ _ _ _ =>
    cases i with
    | zero =>
      cases hx
      exact hget
    | succ i => cases hx
  | again hget _ _ _ _ _ ih =>
    cases i with
    | zero =>
      cases hx
      exact hget
    | succ i => exact ih i hx

theorem writes_of_exchanged (h : Exchanged name part edit n record r) (i : Nat)
    (y : Call × Reply) (hy : record[2 * i + 1]? = some y) : ∃ x d e, record[2 * i]? = some x ∧
      x.2.found ManagedCluster.ofJson? = .ok (some d) ∧ edit d = some e ∧
        ∃ n, e.metadata.name = some n ∧ sent n (write part n e) = .ok y.1 := by
  induction h generalizing i with
  | unsent _ | read _ _ | unordered _ _ _ _ => cases hy
  | written _ hread he horder _ =>
    cases i with
    | zero =>
      cases hy
      exact ⟨_, _, _, rfl, hread, he, named_of_order horder⟩
    | succ i => cases hy
  | again _ hread he horder _ _ ih =>
    cases i with
    | zero =>
      cases hy
      exact ⟨_, _, _, rfl, hread, he, named_of_order horder⟩
    | succ i => exact ih i hy

theorem goesOn_of_exchanged (h : Exchanged name part edit n record r) (i : Nat)
    (x : Call × Reply) (hx : record[i]? = some x) (hi : i + 1 < record.length) :
    verdict? edit n i x.2 = none := by
  induction h generalizing i with
  | unsent _ => cases hx
  | read _ _ | unordered _ _ _ _ => simp at hi
  | written _ hread he _ _ =>
    match i, hx with
    | 0, rfl => exact lookUpVerdict?_of_edit hread he
    | i + 1, _ =>
      simp only [List.length_cons, List.length_nil] at hi
      omega
  | again _ hread he _ hend _ ih =>
    match i, hx with
    | 0, rfl => exact lookUpVerdict?_of_edit hread he
    | 1, rfl => exact hend
    | i + 2, hx =>
      rw [List.length_cons, List.length_cons] at hi
      exact verdict?_later.trans (ih i hx (by omega))

theorem ends_of_exchanged (h : Exchanged name part edit n record r) :
    (record = [] ∧ ∃ f, lookUp name = .error f ∧ r = .error f) ∨
      ∃ i x, record.length = i + 1 ∧ record[i]? = some x ∧ (verdict? edit n i x.2 = some r ∨
        i % 2 = 0 ∧ ∃ d e f, x.2.found ManagedCluster.ofJson? = .ok (some d) ∧ edit d = some e ∧
          order part e = .error f ∧ r = .error f) := by
  induction h with
  | unsent hget => exact Or.inl ⟨rfl, _, hget, rfl⟩
  | read _ hend => exact Or.inr ⟨0, _, rfl, rfl, Or.inl hend⟩
  | unordered _ hread he horder =>
    exact Or.inr ⟨0, _, rfl, rfl, Or.inr ⟨rfl, _, _, _, hread, he, horder, rfl⟩⟩
  | written _ _ _ _ hend => exact Or.inr ⟨1, _, rfl, rfl, Or.inl hend⟩
  | again hget _ _ _ _ _ ih =>
    obtain ⟨-, f, hnone, -⟩ | ⟨i, x, hlength, hx, hends⟩ := ih
    · rw [hget] at hnone
      cases hnone
    · refine Or.inr ⟨i + 2, x, congrArg (· + 2) hlength, hx, ?_⟩
      rwa [verdict?_later, Nat.add_mod_right]

/-- Whatever a server replies, an update looks the cluster up and writes it by turns, at most so
often as it may be tried again and once more; each write is the edit of the copy looked up just
before, and the update ends with the first reply that ends it. -/
theorem update_conducted (send : Call → σ → Reply × σ) (now : Instant) (name : String)
    (part : Part) (edit : ManagedCluster → Option ManagedCluster) (retries : Nat)
    (s : Recorder × σ) :
    Conducted name part edit retries (update send now name part edit retries s).2
      (update send now name part edit retries s).1 := by
  obtain ⟨xs, hxs, hrecord⟩ := carriedAll_run send now
    (updateCluster name part edit retries) (s.1, (s.2, []))
  have hexchanged : Exchanged name part edit retries (update send now name part edit retries s).2
      (update send now name part edit retries s).1 := by
    have hsame : (update send now name part edit retries s).2 = xs := hrecord
    rw [hsame]
    exact exchanged_of_course (updateCluster_course _ _ _) hxs
  exact ⟨bounded_of_exchanged hexchanged, looksUp_of_exchanged hexchanged,
    writes_of_exchanged hexchanged, goesOn_of_exchanged hexchanged, ends_of_exchanged hexchanged⟩

/-- A server that gives, whatever it is asked, a cluster of another name. -/
def stray (_ : Call) (s : Unit) : Reply × Unit :=
  (⟨200, "\x7b\"metadata\":\x7b\"name\":\"d\"\x7d,\"spec\":\x7b\x7d\x7d"⟩, s)

/-- A write goes where the copy that was looked up says, not to the cluster that was looked up. -/
theorem write_astray :
    ((update stray ⟨0, 0⟩ "c" .finalizers some 0 (⟨"hosting", []⟩, ())).2.map fun x =>
      (x.1.method, x.1.uri)) =
      [("GET", Exchange.clusterPath "c"), ("PATCH", Exchange.clusterPath "d" ++ "?")] := by
  decide +kernel

end Retrying
end Hub
end Hosting
