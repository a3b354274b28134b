import Hosting.Text.Blank

/-!
The probes by which a supervisor asks whether the controller is alive, and whether it is
ready to work.
-/

namespace Hosting
namespace Probe

structure Reply where
  status : Nat
  body : String
  deriving DecidableEq, Repr

/-- The path of a request target, without its query. -/
def path (target : String) : String :=
  String.ofList (target.toList.takeWhile fun c => c != '?' && c != '#')

/-- What a probe says. -/
def state? (ready : Bool) (path : String) : Option Reply :=
  if path = "/healthz" then some ⟨200, "ok"⟩
  else if path = "/readyz" then some (if ready then ⟨200, "ready"⟩ else ⟨503, "not ready"⟩)
  else none

/-- A probe is read with `GET`, or with `HEAD` when the body is not wanted. -/
def reply (ready : Bool) (method target : String) : Reply :=
  match state? ready (path target) with
  | none => ⟨404, ""⟩
  | some r =>
    if method = "GET" then r
    else if method = "HEAD" then { r with body := "" }
    else ⟨405, ""⟩

end Probe
end Hosting
