import Hosting.Yaml.Glyph
import Hosting.Yaml.Token.Gap

/-!
Quoted scalars, with the escapes of double quotes.
-/

namespace Hosting
namespace Yaml

/-- A scalar between single quotes, in which two quotes stand for one.  `done` is its
text so far in reverse. -/
def readSingle (done : List Char) (gap : Gap) : List Glyph → Option (List Char × List Glyph)
  | [] => none
  | g :: gs =>
    if g.isBlank then readSingle done (gap.blank g.char) gs
    else if g.isBreak then readSingle done (gap.newline g.char) gs
    else if marksDocument (g :: gs) then none
    else
      let done := gap.text.reverse ++ done
      if g.char = '\'' then
        match gs with
        | h :: hs =>
          if h.char = '\'' then readSingle ('\'' :: done) Gap.none hs
          else some (done.reverse, h :: hs)
        | [] => some (done.reverse, [])
      else readSingle (g.char :: done) Gap.none gs

/-- What a backslash and the character after it mean: a character, or the code of one
in so many hexadecimal digits. -/
inductive Escape where
  | char (c : Char)
  | code (digits : Nat)

def escape? (c : Char) : Option Escape :=
  match c with
  | '0' => some (.char '\x00')
  | 'a' => some (.char '\x07')
  | 'b' => some (.char '\x08')
  | 't' => some (.char '\t')
  | '\t' => some (.char '\t')
  | 'n' => some (.char '\n')
  | 'v' => some (.char '\x0b')
  | 'f' => some (.char '\x0c')
  | 'r' => some (.char '\r')
  | 'e' => some (.char '\x1b')
  | ' ' => some (.char ' ')
  | '"' => some (.char '"')
  | '/' => some (.char '/')
  | '\\' => some (.char '\\')
  | 'N' => some (.char '\u0085')
  | '_' => some (.char '\u00a0')
  | 'L' => some (.char '\u2028')
  | 'P' => some (.char '\u2029')
  | 'x' => some (.code 2)
  | 'u' => some (.code 4)
  | 'U' => some (.code 8)
  | _ => none

def charOfCode? (n : Nat) : Option Char :=
  if n < 0xD800 || (0xDFFF < n && n < 0x110000) then some (Char.ofNat n) else none

/-- A scalar between double quotes.  `code` holds the digits still owed of a code and
its value so far. -/
def readDouble (done : List Char) (gap : Gap) (code : Option (Nat × Nat)) :
    List Glyph → Option (List Char × List Glyph)
  | [] => none
  | g :: gs =>
    match code with
    | some (owed, n) => do
      let d ← Text.digit? g.char
      let n := n * 16 + d
      if owed ≤ 1 then
        let c ← charOfCode? n
        readDouble (c :: done) Gap.none none gs
      else readDouble done Gap.none (some (owed - 1, n)) gs
    | none =>
      if g.isBlank then readDouble done (gap.blank g.char) none gs
      else if g.isBreak then readDouble done (gap.newline g.char) none gs
      else if marksDocument (g :: gs) then none
      else
        let done := gap.text.reverse ++ done
        if g.char = '"' then some (done.reverse, gs)
        else if g.char = '\\' then
          match gs with
          | [] => none
          | h :: hs =>
            if h.isBreak then readDouble done (.breaks none []) none hs
            else match escape? h.char with
              | none => none
              | some (.char c) => readDouble (c :: done) Gap.none none hs
              | some (.code k) => readDouble done Gap.none (some (k, 0)) hs
        else readDouble (g.char :: done) Gap.none none gs

end Yaml
end Hosting
