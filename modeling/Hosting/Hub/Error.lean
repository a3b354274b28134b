/-!
The ways in which the hub refuses a request.
-/

namespace Hosting
namespace Hub

/-- Why the hub did not do what it was asked. -/
inductive Error where
  /-- The object was changed by someone else. -/
  | conflict (detail : String)
  | notFound (detail : String)
  | rejected (detail : String)
  /-- The object lacks what a request about it needs. -/
  | invalidObject (detail : String)
  /-- The server answered with a code that has no meaning of its own here. -/
  | refused (code : Nat) (detail : String)
  /-- The server's answer is not what was asked for. -/
  | unreadable
  /-- The request could not be made. -/
  | unsent
  deriving DecidableEq, Repr

namespace Error

/-- The meaning of an answer of the server by its code. -/
def ofCode (code : Nat) (detail : String) : Error :=
  if code = 409 then .conflict detail
  else if code = 404 then .notFound detail
  else .refused code detail

def isConflict : Error → Bool
  | .conflict _ => true
  | _ => false

def isNotFound : Error → Bool
  | .notFound _ => true
  | _ => false

def message : Error → String
  | .conflict detail => "Conflict: " ++ detail
  | .notFound detail => "Not found: " ++ detail
  | .rejected detail => "API error: " ++ detail
  | .invalidObject detail => "Invalid object: " ++ detail
  | .refused _ detail => "Kubernetes error: " ++ detail
  | .unreadable => "Kubernetes error: unreadable answer"
  | .unsent => "Kubernetes error: the request cannot be made"

end Error
end Hub
end Hosting
