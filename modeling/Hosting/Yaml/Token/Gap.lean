/-!
What lies between tokens: blanks, comments and line breaks.
-/

namespace Hosting
namespace Yaml

/-- What was read since the last character of a scalar: blanks on the same line, or
a break (none when it was escaped) and further breaks, in reverse. -/
inductive Gap where
  | blanks (cs : List Char)
  | breaks (first : Option Char) (more : List Char)
  deriving DecidableEq, Repr

namespace Gap

def none : Gap := .blanks []

def isEmpty : Gap → Bool
  | .blanks [] => true
  | _ => false

def hasBreak : Gap → Bool
  | .blanks _ => false
  | .breaks _ _ => true

/-- Blanks count only on the line that the last character is on. -/
def blank (c : Char) : Gap → Gap
  | .blanks cs => .blanks (c :: cs)
  | .breaks f more => .breaks f more

def newline (c : Char) : Gap → Gap
  | .blanks _ => .breaks (some c) []
  | .breaks f more => .breaks f (c :: more)

/-- What the gap contributes to the scalar: its blanks; or its breaks, of which a
first newline is a space when it is the only one and nothing otherwise. -/
def text : Gap → List Char
  | .blanks cs => cs.reverse
  | .breaks (some '\n') [] => [' ']
  | .breaks (some '\n') more => more.reverse
  | .breaks (some c) more => c :: more.reverse
  | .breaks Option.none more => more.reverse

end Gap
end Yaml
end Hosting
