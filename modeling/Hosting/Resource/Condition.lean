import Hosting.Instant.Text
import Hosting.Json.Decode

/-!
Conditions, as records, and the rules by which a list of them takes in new ones.
-/

namespace Hosting

/-- Whether something holds, as far as it is known. -/
inductive Verdict where
  | true | false | unknown
  deriving DecidableEq, Repr

namespace Verdict

def text : Verdict → String
  | .true => "True"
  | .false => "False"
  | .unknown => "Unknown"

def all : List Verdict := [.true, .false, .unknown]

end Verdict

/-- One observed condition of an object. -/
structure Condition where
  type : String
  status : Verdict
  reason : String
  message : String
  lastTransition : Option Instant
  deriving DecidableEq, Repr

namespace Condition

/-- Status, reason and message are the same. -/
def sameState (a b : Condition) : Bool :=
  a.status == b.status && a.reason == b.reason && a.message == b.message

open Json in
def ofJson? (v : Json) : Option Condition := do
  match ← slots? ["type", "status", "reason", "message", "lastTransitionTime"] 0 v with
  | [type, status, reason, message, time] =>
    some {
      type := ← required asString type
      status := ← required (asChoice Verdict.text Verdict.all) status
      reason := ← withDefault "" asString reason
      message := ← withDefault "" asString message
      lastTransition := ← optional (fun t => asString t >>= Instant.read?) time }
  | _ => none

def toJson (c : Condition) : Json :=
  .ofPresent [
    ("type", some (.string c.type)),
    ("status", some (.string c.status.text)),
    ("reason", some (.string c.reason)),
    ("message", some (.string c.message)),
    ("lastTransitionTime", c.lastTransition.map fun t => .string t.exactText)]

end Condition

/-- The conditions of an object; of several entries of a type the first counts. -/
abbrev Conditions := List Condition

namespace Conditions

def find? (cs : Conditions) (type : String) : Option Condition := List.find? (·.type == type) cs

def has (cs : Conditions) (type : String) (status : Verdict) : Bool :=
  (find? cs type).any (·.status == status)

/-- `old` with the state of `new`; its time moves when the status flips. -/
def moved (now : Instant) (old new : Condition) : Condition :=
  { old with
    status := new.status
    reason := new.reason
    message := new.message
    lastTransition :=
      if old.status = new.status then old.lastTransition else some (new.lastTransition.getD now) }

/-- The conditions with `c` entered, or nothing when they say the same already.  The
first entry of its type takes its state; without one it is added, stamped `now` when
it has no time. -/
def set? (now : Instant) (c : Condition) : Conditions → Option Conditions
  | [] => some [{ c with lastTransition := some (c.lastTransition.getD now) }]
  | x :: xs =>
    if x.type = c.type then
      if x.sameState c then none else some (moved now x c :: xs)
    else (set? now c xs).map (x :: ·)

/-- Enter conditions one after another: the result, and those that changed something. -/
def merge (now : Instant) : List Condition → Conditions → Conditions × List Condition
  | [], cs => (cs, [])
  | c :: new, cs =>
    match set? now c cs with
    | none => merge now new cs
    | some cs' => ((merge now new cs').1, c :: (merge now new cs').2)

theorem find?_cons (x : Condition) (cs : Conditions) (type : String) :
    find? (x :: cs) type = if x.type = type then some x else find? cs type := by
  by_cases h : x.type = type <;> simp [find?, h]

/-- Nothing changes exactly when the first condition of the type says the same. -/
theorem set?_eq_none_iff {now : Instant} {c : Condition} {cs : Conditions} :
    set? now c cs = none ↔ (find? cs c.type).any (·.sameState c) = true := by
  induction cs with
  | nil => simp [set?, find?]
  | cons x xs ih =>
    rw [find?_cons]
    by_cases h : x.type = c.type <;> simp [set?, h, ih]

/-- Once entered, a condition is found with its state. -/
theorem find?_of_set? {now : Instant} {c : Condition} {cs cs' : Conditions}
    (h : set? now c cs = some cs') : (find? cs' c.type).any (·.sameState c) = true := by
  induction cs generalizing cs' with
  | nil =>
    simp only [set?, Option.some.injEq] at h
    simp [← h, find?, Condition.sameState]
  | cons x xs ih =>
    by_cases hx : x.type = c.type
    · simp only [set?, hx, if_true, Option.ite_none_left_eq_some, Option.some.injEq] at h
      simp [← h.2, find?_cons, moved, hx, Condition.sameState]
    · simp only [set?, hx, if_false, Option.map_eq_some_iff] at h
      obtain ⟨ys, hys, rfl⟩ := h
      simpa [find?_cons, hx] using ih hys

/-- Entering a condition leaves those of other types as they are. -/
theorem find?_set?_of_ne {now : Instant} {c : Condition} {cs cs' : Conditions} {type : String}
    (hne : type ≠ c.type) (h : set? now c cs = some cs') : find? cs' type = find? cs type := by
  induction cs generalizing cs' with
  | nil =>
    simp only [set?, Option.some.injEq] at h
    simp [← h, find?, hne.symm]
  | cons x xs ih =>
    by_cases hx : x.type = c.type
    · simp only [set?, hx, if_true, Option.ite_none_left_eq_some, Option.some.injEq] at h
      simp [← h.2, find?_cons, moved, hx, hne.symm]
    · simp only [set?, hx, if_false, Option.map_eq_some_iff] at h
      obtain ⟨ys, hys, rfl⟩ := h
      simp [find?_cons, ih hys]

open Json in
def ofJson? : Json → Option Conditions := asList Condition.ofJson?

def toJson (cs : Conditions) : Json := .array (cs.map Condition.toJson)

end Conditions
end Hosting
