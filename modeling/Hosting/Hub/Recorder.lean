import Hosting.Hub.Event
import Hosting.Hub.Http
import Hosting.Instant.Text
import Hosting.Resource.Metadata

/-!
Events on their way to the server.  An event that was told before, not long ago, is not
told anew: the first one is counted up.
-/

namespace Hosting
namespace Hub

/-- An event as the server has it. -/
structure Told where
  about : Reference
  event : Event
  first : Instant
  /-- How often it was told, and when last, once it was told again. -/
  series : Option (Nat × Instant) := none
  deriving DecidableEq, Repr

namespace Told

/-- When the event was told last. -/
def last (t : Told) : Instant :=
  match t.series with
  | none => t.first
  | some s => s.2

def again (t : Told) (now : Instant) : Told :=
  { t with series := some (((t.series.map (·.1)).getD 1) + 1, now) }

/-- An event of the same kind about the same object. -/
def isLike (t : Told) (about : Reference) (e : Event) : Bool :=
  t.about == about && t.event.severity == e.severity && t.event.action == e.action &&
    t.event.reason == e.reason

/-- Nanoseconds since 1970, or seconds when those do not fit in 64 bits. -/
def stamp (t : Instant) : Int :=
  let n := t.second * 1000000000 + t.nano
  if -Int.pow 2 63 ≤ n && n < Int.pow 2 63 then n else t.second

/-- A number of 64 bits in hexadecimal, a negative one as its complement. -/
def hexText (n : Int) : String := String.ofList (Text.toDigits 16 1 (n % Int.pow 2 64).toNat)

/-- The name of the event: that of its object, or else of the controller, and the time. -/
def name (controller : String) (t : Told) : String :=
  t.about.name.getD controller ++ "." ++ hexText (stamp t.first)

def nspace (t : Told) : String := t.about.nspace.getD "default"

end Told

def Reference.toJson (r : Reference) : Json :=
  .ofPresent [
    ("apiVersion", r.apiVersion.map .string),
    ("kind", r.kind.map .string),
    ("name", r.name.map .string),
    ("namespace", r.nspace.map .string),
    ("uid", r.uid.map .string)]

namespace Told

def toJson (controller : String) (t : Told) : Json :=
  Kind.event.tagged [
    ("metadata", some (.ofPresent [
      ("name", some (.string (t.name controller))),
      ("namespace", t.about.nspace.map .string)])),
    ("regarding", some t.about.toJson),
    ("type", some (.string t.event.severity.text)),
    ("reason", some (.string t.event.reason)),
    ("action", some (.string t.event.action)),
    ("note", t.event.note.map .string),
    ("eventTime", some (.string t.first.microsText)),
    ("reportingController", some (.string controller)),
    ("reportingInstance", some (.string controller)),
    ("series", t.series.map fun s => .ofMembers [
      ("count", .int s.1), ("lastObservedTime", .string s.2.microsText)])]

/-- An event is created when it is told first, and changed when it is told again. -/
def call (controller : String) (t : Told) : Call :=
  let path := Call.collection Kind.event (some t.nspace)
  match t.series with
  | none => .post path (t.toJson controller)
  | some _ => .patch (path ++ "/" ++ t.name controller) (t.toJson controller)

end Told

/-- The events told by a controller that may be counted up. -/
structure Recorder where
  controller : String
  told : List Told := []

namespace Recorder

/-- How many seconds an event is remembered after it was told last. -/
def memory : Int := 360

def isBefore (t u : Instant) : Bool :=
  t.second < u.second || (t.second == u.second && t.nano < u.nano)

/-- Without the events that are too old to be counted up. -/
def fresh (r : Recorder) (now : Instant) : Recorder :=
  { r with told := r.told.filter fun t => isBefore now (t.last.addSeconds memory) }

/-- The event as it is to be told now. -/
def next (r : Recorder) (now : Instant) (about : Reference) (e : Event) : Told :=
  match (r.fresh now).told.find? (·.isLike about e) with
  | some t => t.again now
  | none => { about := about, event := e, first := now }

/-- Remember an event that the server has taken. -/
def remember (r : Recorder) (now : Instant) (t : Told) : Recorder :=
  { r with told :=
      ((r.fresh now).told.filter fun u => !u.isLike t.about t.event) ++ [t] }

end Recorder

open Json in
/-- The answer is an event. -/
def eventOfJson? (v : Json) : Option Unit := do
  match ← members? ["apiVersion", "kind", "metadata", "type", "reason", "action", "note",
      "eventTime", "reportingController", "reportingInstance"] v with
  | [version, kind, metadata, type, reason, action, note, time, controller, instance_] =>
    Kind.tagFits Kind.event.apiVersion version
    Kind.tagFits Kind.event.name kind
    let _ ← optional Metadata.ofJson? metadata
    let _ ← optional asString type
    let _ ← optional asString reason
    let _ ← optional asString action
    let _ ← optional asString note
    let _ ← optional (fun t => asString t >>= Instant.read?) time
    let _ ← optional asString controller
    let _ ← optional asString instance_
    some ()
  | _ => none

end Hub
end Hosting
