import Hosting.Payload

/-!
The documents of a stream as slices of it.  They are found in one pass over the lines, in which
only places are counted, in octets; a slice is to be had only between two characters.
-/

namespace Hosting
namespace Payload

/-- How many octets a text takes. -/
def octets : List Char → Nat
  | [] => 0
  | c :: cs => c.utf8Size + octets cs

/-- The text parted after `n` octets, if there are so many and a character ends with them. -/
def partAt? : (n : Nat) → List Char → Option (List Char × List Char)
  | 0, cs => some ([], cs)
  | _ + 1, [] => none
  | n + 1, c :: cs =>
    if c.utf8Size ≤ n + 1 then (partAt? (n + 1 - c.utf8Size) cs).map fun p => (c :: p.1, p.2)
    else none

/-- A stretch of a stream, from one place up to another. -/
structure Slice where
  start : Nat
  stop : Nat
  deriving DecidableEq, Repr

/-- What stands in the slice.  There is nothing where it ends before it starts, goes past the end
of the stream or cuts a character. -/
def Slice.text? (stream : List Char) (s : Slice) : Option (List Char) :=
  if s.start ≤ s.stop then do
    let (_, rest) ← partAt? s.start stream
    let (inside, _) ← partAt? (s.stop - s.start) rest
    return inside
  else none

/-- The slices between separators, of a stream of `size` octets.  Of the lines that are left the
first is at `offset`, and `start` is where the slice begins that it belongs to. -/
def slices (size start offset : Nat) : List (List Char) → List Slice
  | [] => [⟨start, size⟩]
  | l :: ls =>
    let next := offset + octets l
    if isSeparator l then ⟨start, offset⟩ :: slices size next next ls
    else slices size start next ls

/-- The documents of a stream, cut out of it; nothing if a slice of it is not to be had. -/
def cut? (stream : List Char) : Option (List (List Char)) :=
  ((slices (octets stream) 0 0 (lines stream)).mapM (Slice.text? stream)).map
    (·.filter fun d => (lines d).any hasContent)

end Payload
end Hosting
