import Hosting.Backoff
import Hosting.Failure
import Hosting.Outcome
import Hosting.Watch.Queue
import Hosting.Watch.Source

/-!
The loop that turns what is observed into passes.  An object that arrives asks for the
cluster it belongs to; when a key's wait is over, its pass runs, and asks for the key
again when it is not done or has failed.  Times are in milliseconds.
-/

namespace Hosting

namespace Backoffs

/-- When to come back to a key after its pass: as the pass says, or, after a failure, by
the key's own delays, which a success makes start over. -/
def settle (t : Backoffs) (key : String) : Except Failure Outcome → Option Nat × Backoffs
  | .ok outcome => (outcome.delay?, t.forget key)
  | .error _ => (some (t.next key).1, (t.next key).2)

end Backoffs

namespace Watch

/-- An object that is observed at a time, or observed to be gone. -/
structure Arrival where
  time : Nat
  source : Source
  gone : Bool := false

/-- The state of the loop, with that of the server that passes talk to. -/
structure Loop (σ : Type) where
  /-- The clusters as they were last observed. -/
  seen : Table String ManagedCluster := .empty
  queue : Queue
  backoffs : Backoffs
  server : σ

namespace Loop

variable {σ : Type}

def ask (l : Loop σ) (key : String) (t : Nat) : Loop σ :=
  { l with queue := l.queue.request key t }

/-- Take in an observation.  A cluster always asks for itself, a cluster that is gone for
nothing. -/
def arrive (l : Loop σ) (a : Arrival) : Loop σ :=
  match a.source with
  | .cluster c =>
    if a.gone then { l with seen := l.seen.erase c.anyName }
    else ask { l with seen := l.seen.insert c.anyName c } c.anyName a.time
  | source =>
    match source.cluster? with
    | none => l
    | some key => l.ask key a.time

/-- A key's time has come.  There is a pass only for a cluster that was observed, and as
one that is hosted. -/
def due (pass : Nat → String → σ → Except Failure Outcome × σ) (l : Loop σ) (key : String)
    (t : Nat) : Loop σ :=
  let l := { l with queue := l.queue.remove key }
  if (l.seen.get? key).any (·.isHosted) then
    let (result, server) := pass t key l.server
    let (delay, backoffs) := l.backoffs.settle key result
    let l := { l with server := server, backoffs := backoffs }
    match delay with
    | none => l
    | some seconds => l.ask key (t + seconds * 1000)
  else l

/-- Run at most `fuel` steps, up to the time `stop`.  What arrives at the time of a pass
arrives before it. -/
def steps (pass : Nat → String → σ → Except Failure Outcome × σ) (stop : Nat) :
    (fuel : Nat) → List Arrival → Loop σ → Loop σ
  | 0, _, l => l
  | n + 1, [], l =>
    match l.queue.first? with
    | none => l
    | some (key, t) => if t < stop then steps pass stop n [] (l.due pass key t) else l
  | n + 1, a :: rest, l =>
    match l.queue.first? with
    | none => steps pass stop n rest (l.arrive a)
    | some (key, t) =>
      if a.time ≤ t then steps pass stop n rest (l.arrive a)
      else if t < stop then steps pass stop n (a :: rest) (l.due pass key t)
      else l

/-- Run up to the time `stop`, with arrivals in the order of their times.  Each arrival is
one step and asks for at most one pass; a pass comes back to its key no earlier than a
second later. -/
def run (pass : Nat → String → σ → Except Failure Outcome × σ) (stop : Nat)
    (arrivals : List Arrival) (l : Loop σ) : Loop σ :=
  let n := arrivals.length + 1
  steps pass stop (n + n * (stop / 1000 + n + 1)) arrivals l

end Loop
end Watch
end Hosting
