/-!
What a successful pass asks of the loop that runs it.
-/

namespace Hosting

/-- What is to be done about a cluster after a pass. -/
inductive Outcome where
  /-- Wait for the next change. -/
  | done
  /-- Look again after so many seconds, or earlier when something changes. -/
  | again (seconds : Nat)
  deriving DecidableEq, Repr

/-- After how many seconds to look again, if at all without a change. -/
def Outcome.delay? : Outcome → Option Nat
  | .done => none
  | .again seconds => some seconds

end Hosting
