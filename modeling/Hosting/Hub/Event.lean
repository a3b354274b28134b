/-!
Events: what the controller tells operators about an object.
-/

namespace Hosting
namespace Hub

inductive Severity where
  | normal
  /-- Something that an operator should look at. -/
  | warning
  deriving DecidableEq, Repr

def Severity.text : Severity → String
  | .normal => "Normal"
  | .warning => "Warning"

/-- Something that happened to an object of the hub. -/
structure Event where
  severity : Severity
  reason : String
  action : String
  note : Option String
  deriving DecidableEq, Repr

def Event.normal (reason action note : String) : Event := ⟨.normal, reason, action, some note⟩

def Event.warning (reason action note : String) : Event := ⟨.warning, reason, action, some note⟩

/-- Which object an event is about. -/
structure Reference where
  apiVersion : Option String := none
  kind : Option String := none
  name : Option String := none
  nspace : Option String := none
  uid : Option String := none
  deriving DecidableEq, Repr

end Hub
end Hosting
