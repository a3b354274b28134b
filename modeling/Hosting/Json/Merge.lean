import Hosting.Json

/-!
Merge patches of JSON values, and when a server takes one.
-/

namespace Hosting
namespace Json

/-- The members of an object; nothing else has any. -/
def members : Json → List (String × Json)
  | .object ms => ms
  | _ => []

mutual

/-- The value that a patch makes of another one.  An object changes the members that it
names; any other patch takes the place of the value. -/
def merge : Json → Json → Json
  | .object ps, v => .object (mergeMembers ps v.members)
  | p, _ => p

/-- Members that are `null` in the patch are removed. -/
def mergeMembers : List (String × Json) → List (String × Json) → List (String × Json)
  | [], ms => ms
  | (k, .null) :: ps, ms => mergeMembers ps (Table.drop k ms)
  | (k, p) :: ps, ms =>
    mergeMembers ps (Table.place k (merge p ((Table.find k ms).getD .null)) ms)

end

/-- A member of a member. -/
def at? (v : Json) (k l : String) : Option Json := (v.member? k).bind (member? l)

/-- The version that an object has, or that a patch of it gives. -/
def version? (v : Json) : Option String := (v.at? "metadata" "resourceVersion").bind string?

/-- The object once it is patched; none when the patch gives another version than it has. -/
def patched? (patch v : Json) : Option Json :=
  if patch.version?.all fun r => v.version? == some r then some (merge patch v) else none

end Json
end Hosting
