import Hosting.Yaml.Glyph
import Hosting.Yaml.Token

/-!
What stands before a node, its anchor and its tag, and the directives before a document.
-/

namespace Hosting
namespace Yaml

/-! ## Anchors and aliases -/

/-- The characters that may follow the name of an anchor or alias. -/
def endsName (gs : List Glyph) : Bool :=
  endsWord gs || gs.head?.any fun g => "?:,]\x7d%@\x60".toList.contains g.char

/-- The name after `&` or `*`. -/
def readName (gs : List Glyph) : Option (List Char × List Glyph) :=
  let name := gs.takeWhile Glyph.isWord
  let rest := gs.dropWhile Glyph.isWord
  if !name.isEmpty && endsName rest then some (chars name, rest) else none

/-! ## Tags -/

def isUriChar (verbatim : Bool) (g : Glyph) : Bool :=
  g.isWord || ";/?:@&=+$.!~*\x27()".toList.contains g.char ||
    (verbatim && (g.char == ',' || g.char == '[' || g.char == ']'))

/-- How many octets must follow an escaped one that begins a character. -/
def owedAfter? (b : UInt8) : Option Nat :=
  if b < 0x80 then some 0
  else if 0xC0 ≤ b && b < 0xE0 then some 1
  else if 0xE0 ≤ b && b < 0xF0 then some 2
  else if 0xF0 ≤ b && b < 0xF8 then some 3
  else none

/-- The octets of a tag, in which `%` and two digits stand for an octet and any other
character, always of one octet, for itself.  `owed` escapes are still to come of those
that an escape began; whether they spell a character is not asked. -/
def readUri (verbatim : Bool) (done : Bytes) (owed : Nat) :
    List Glyph → Option (Bytes × List Glyph)
  | [] => if owed = 0 then some (done.reverse, []) else none
  | g :: gs =>
    if g.char = '%' then
      match gs with
      | a :: b :: rest => do
        let n := ((← Text.digit? a.char) * 16 + (← Text.digit? b.char)).toUInt8
        if owed = 0 then readUri verbatim (n :: done) (← owedAfter? n) rest
        else if Utf8.isContinuation n then readUri verbatim (n :: done) (owed - 1) rest
        else none
      | _ => none
    else if owed ≠ 0 then none
    else if isUriChar verbatim g then readUri verbatim (g.char.toUInt8 :: done) 0 gs
    else some (done.reverse, g :: gs)

/-- A tag ends before its first NUL, whatever is written after that. -/
def untilNul (tag : Bytes) : Bytes := tag.takeWhile (· != 0)

/-- `!`, a word and perhaps another `!`. -/
def readHandle : List Glyph → Option (List Char × List Glyph)
  | [] => none
  | g :: gs =>
    if g.char = '!' then
      let word := chars (gs.takeWhile Glyph.isWord)
      match gs.dropWhile Glyph.isWord with
      | h :: hs =>
        if h.char = '!' then some ('!' :: (word ++ ['!']), hs) else some ('!' :: word, h :: hs)
      | [] => some ('!' :: word, [])
    else none

/-- A handle that is closed by a second `!`. -/
def isClosed (handle : List Char) : Bool := 2 ≤ handle.length && handle.getLast? == some '!'

/-- A tag, from its `!` on: handle and rest, `<` and `>` around the whole of it, or `!`
alone. -/
def readTag (flow : Bool) (gs : List Glyph) : Option (Token × List Glyph) := do
  let (token, rest) ← match gs with
    | _ :: g :: rest =>
      if g.char = '<' then do
        let (uri, rest) ← readUri true [] 0 rest
        if uri.isEmpty || !startsWith '>' rest then none
        else some (Token.tag [] (untilNul uri), rest.drop 1)
      else shorthand gs
    | _ => shorthand gs
  if endsWord rest || (flow && startsWith ',' rest) then some (token, rest) else none
where
  shorthand (gs : List Glyph) : Option (Token × List Glyph) := do
    let (handle, rest) ← readHandle gs
    if isClosed handle then
      let (uri, rest) ← readUri false [] 0 rest
      if uri.isEmpty then none else some (.tag handle (untilNul uri), rest)
    else
      let (uri, rest) ← readUri false (Utf8.encode (handle.drop 1)).reverse 0 rest
      let uri := untilNul uri
      if uri.isEmpty then some (.tag [] (Utf8.encode ['!']), rest) else some (.tag ['!'] uri, rest)

/-! ## Directives -/

/-- A number of at most nine digits. -/
def readVersionNumber (gs : List Glyph) : Option (Nat × List Glyph) := do
  let ds := gs.takeWhile fun g => Text.isDigit g.char
  if 9 < ds.length then none
  else
    let n ← Text.digits? 10 (chars ds)
    some (n, gs.drop ds.length)

/-- A directive after its `%`, to the end of its line. -/
def readDirective (gs : List Glyph) : Option (Token × List Glyph) := do
  let name := chars (gs.takeWhile Glyph.isWord)
  let rest := gs.dropWhile Glyph.isWord
  if name.isEmpty || !endsWord rest then none
  else
    let rest := rest.dropWhile Glyph.isBlank
    let (token, rest) ←
      if name = ['Y', 'A', 'M', 'L'] then do
        let (major, rest) ← readVersionNumber rest
        if startsWith '.' rest then
          let (minor, rest) ← readVersionNumber (rest.drop 1)
          some (Token.versionDirective major minor, rest)
        else none
      else if name = ['T', 'A', 'G'] then do
        let (handle, rest) ← readHandle rest
        if !(isClosed handle || handle = ['!']) || !rest.head?.any Glyph.isBlank then none
        else
          let (uri, rest) ← readUri true [] 0 (rest.dropWhile Glyph.isBlank)
          if uri.isEmpty || !endsWord rest then none
          else some (Token.tagDirective handle (untilNul uri), rest)
      else none
    let rest := rest.dropWhile Glyph.isBlank
    let rest := if startsWith '#' rest then rest.dropWhile (!·.isBreak) else rest
    if endsLine rest then some (token, rest.drop 1) else none

end Yaml
end Hosting
