import Hosting.HostedWork
import Hosting.Hub.Error
import Hosting.Settings

/-!
The failures of the controller.  A failure keeps its cause; the words are made at the end.
-/

namespace Hosting

/-- Why the controller could not do its work. -/
inductive Failure where
  | hub (e : Hub.Error)
  | build (e : BuildError)
  | settings (detail : String)
  | probe (detail : String)
  | watch (detail : String)
  /-- Several failures of one pass. -/
  | several (failures : List Failure)

namespace Failure

mutual

def message : Failure → String
  | .hub e => "Hub error: " ++ e.message
  | .build e => "Manifest error: " ++ e.message
  | .settings detail => "Invalid configuration: " ++ detail
  | .probe detail => "Probe server error: " ++ detail
  | .watch detail => "Resource watch failed: " ++ detail
  | .several fs => "[" ++ Text.join ", " (messages fs) ++ "]"

def messages : List Failure → List String
  | [] => []
  | f :: fs => f.message :: messages fs

end

def ofSettings (e : SettingsError) : Failure := .settings e.message

/-- The failure with those that followed from it, itself when there are none. -/
def withMore (f : Failure) (rest : List Failure) : Failure :=
  if rest.isEmpty then f else .several (f :: rest)

end Failure
end Hosting
