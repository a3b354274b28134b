import Hosting.Text.Numeral

/-!
The characters of a stream at their places, with line breaks made one.
-/

namespace Hosting
namespace Yaml

/-- A character at its place.  A line break, however it is written, is one newline;
the two Unicode separators are breaks that keep their own character. -/
structure Glyph where
  char : Char
  /-- How many octets the stream has before it. -/
  index : Nat
  line : Nat
  /-- How many characters its line has before it. -/
  column : Nat
  deriving DecidableEq, Repr

/-- The characters that a stream may hold. -/
def isAllowed (c : Char) : Bool :=
  let n := c.toNat
  n == 0x9 || n == 0xA || n == 0xD || (0x20 ≤ n && n ≤ 0x7E) || n == 0x85 ||
    (0xA0 ≤ n && n ≤ 0xD7FF) || (0xE000 ≤ n && n ≤ 0xFFFD) || 0x10000 ≤ n

def isBreakChar (c : Char) : Bool :=
  c == '\n' || c == '\r' || c == '\u0085' || c == '\u2028' || c == '\u2029'

def isBlankChar (c : Char) : Bool := c == ' ' || c == '\t'

/-- The glyphs of a text that begins at the given place. -/
def glyphsAt (index line column : Nat) : List Char → List Glyph
  | [] => []
  | '\r' :: '\n' :: cs => ⟨'\n', index, line, column⟩ :: glyphsAt (index + 2) (line + 1) 0 cs
  | c :: cs =>
    if isBreakChar c then
      ⟨if c = '\r' || c = '\u0085' then '\n' else c, index, line, column⟩ ::
        glyphsAt (index + c.utf8Size) (line + 1) 0 cs
    else ⟨c, index, line, column⟩ :: glyphsAt (index + c.utf8Size) line (column + 1) cs

/-- The glyphs of a stream; none when it holds a character that it may not. -/
def glyphs? (cs : List Char) : Option (List Glyph) :=
  if cs.all isAllowed then some (glyphsAt 0 0 0 cs) else none

namespace Glyph

def isBreak (g : Glyph) : Bool := isBreakChar g.char

def isBlank (g : Glyph) : Bool := isBlankChar g.char

/-- A byte order mark that a line begins with. -/
def marksOrder (g : Glyph) : Bool := g.char == '\uFEFF' && g.column == 0

/-- Letters of anchors, directives and tag handles. -/
def isWord (g : Glyph) : Bool := g.char.isAlphanum || g.char == '-' || g.char == '_'

end Glyph

/-- A blank, a break or the end comes next. -/
def endsWord : List Glyph → Bool
  | [] => true
  | g :: _ => g.isBlank || g.isBreak

/-- A break or the end comes next. -/
def endsLine : List Glyph → Bool
  | [] => true
  | g :: _ => g.isBreak

/-- The next character is `c`. -/
def startsWith (c : Char) : List Glyph → Bool
  | [] => false
  | g :: _ => g.char == c

/-- A line that begins with `---` or `...` as a word of its own. -/
def marksDocument : List Glyph → Bool
  | a :: b :: c :: rest =>
    a.column == 0 && a.char == b.char && b.char == c.char && (a.char == '-' || a.char == '.') &&
      endsWord rest
  | _ => false

def chars (gs : List Glyph) : List Char := gs.map (·.char)

end Yaml
end Hosting
