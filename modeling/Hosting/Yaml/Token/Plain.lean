import Hosting.Yaml.Glyph
import Hosting.Yaml.Token.Gap

/-!
Plain scalars: texts without quotes.
-/

namespace Hosting
namespace Yaml

/-- What reading a scalar yields: its text, whether breaks follow it, and the rest. -/
structure PlainRead where
  text : List Char
  breaks : Bool
  rest : List Glyph

def isFlowMark (c : Char) : Bool :=
  c == ',' || c == '[' || c == ']' || c == '\x7b' || c == '\x7d'

/-- A plain scalar: it ends before a comment, before a colon that ends a word, in flow
form before a mark of it, in block form before a line that is indented less than
`indent`, and before a line that marks a document.  `done` is its text so far in
reverse. -/
def readPlain (flow : Bool) (indent : Nat) (done : List Char) (gap : Gap) :
    List Glyph → Option PlainRead
  | [] => some ⟨done.reverse, gap.hasBreak, []⟩
  | g :: gs =>
    if g.isBlank then
      if gap.hasBreak && g.char = '\t' && g.column < indent then none
      else readPlain flow indent done (gap.blank g.char) gs
    else if g.isBreak then readPlain flow indent done (gap.newline g.char) gs
    else if marksDocument (g :: gs) || (!gap.isEmpty && g.char = '#') ||
        (!flow && !gap.isEmpty && g.column < indent) then
      some ⟨done.reverse, gap.hasBreak, g :: gs⟩
    else if flow && g.char = ':' &&
        gs.head?.any (fun h => isFlowMark h.char || h.char == '?') then none
    else if (g.char = ':' && endsWord gs) || (flow && isFlowMark g.char) then
      some ⟨done.reverse, gap.hasBreak, g :: gs⟩
    else readPlain flow indent (g.char :: (gap.text.reverse ++ done)) Gap.none gs

end Yaml
end Hosting
