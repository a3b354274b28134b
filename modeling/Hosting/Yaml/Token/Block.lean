import Hosting.Yaml.Glyph

/-!
Block scalars: texts that their indentation marks off.
-/

namespace Hosting
namespace Yaml

/-- What becomes of the breaks at the end of a block scalar. -/
inductive Chomp where
  | strip | clip | keep
  deriving DecidableEq, Repr

/-- A block scalar that is being read.  `indent` is none until the first line that
is not empty tells it. -/
structure BlockRead where
  literal : Bool
  chomp : Chomp
  /-- The least indentation that the surroundings allow. -/
  least : Nat
  indent : Option Nat
  /-- The deepest column that the leading empty lines reach. -/
  deepest : Nat
  /-- The text so far, in reverse. -/
  done : List Char
  /-- The break that ended the last line, and those of the empty lines after it, in reverse. -/
  lastBreak : Option Char
  empties : List Char
  /-- The last line began with a blank. -/
  afterBlank : Bool
  inLine : Bool

namespace BlockRead

/-- The finished text: what its breaks at the end leave of it. -/
def finish (b : BlockRead) : List Char :=
  let done := if b.chomp = .strip then b.done else b.lastBreak.toList ++ b.done
  (if b.chomp = .keep then b.empties ++ done else done).reverse

/-- A line begins: the breaks before it join it to the text.  In folded form a
newline between two lines that begin with no blank is a space when it is the only
one and nothing otherwise. -/
def beginLine (b : BlockRead) (blank : Bool) : BlockRead :=
  let fold := !b.literal && b.lastBreak == some '\n' && !b.afterBlank && !blank
  let done :=
    if fold then (if b.empties.isEmpty then ' ' :: b.done else b.done)
    else b.lastBreak.toList ++ b.done
  { b with
    done := b.empties ++ done
    lastBreak := none
    empties := []
    afterBlank := blank
    inLine := true }

end BlockRead

/-- The text of a block scalar, and the glyphs after it. -/
def readBlock (b : BlockRead) : List Glyph → Option (List Char × List Glyph)
  | [] => some (b.finish, [])
  | g :: gs =>
    if b.inLine then
      if g.isBreak then readBlock { b with lastBreak := some g.char, inLine := false } gs
      else readBlock { b with done := g.char :: b.done } gs
    else
      let inside := b.indent.all (g.column < ·)
      if inside && g.char = ' ' then readBlock b gs
      else if inside && g.char = '\t' then none
      else
        let deepest := max b.deepest g.column
        if g.isBreak then readBlock { b with empties := g.char :: b.empties, deepest := deepest } gs
        else
          let indent := b.indent.getD (max deepest b.least)
          if g.column = indent then
            let b := b.beginLine g.isBlank
            readBlock { b with indent := some indent, done := g.char :: b.done } gs
          else some (b.finish, g :: gs)

/-- The marks after `|` or `>`: an indentation and what becomes of the last breaks, in
either order; then only blanks and a comment may follow on the line. -/
def blockHeader? (gs : List Glyph) : Option (Option Nat × Chomp × List Glyph) := do
  let chompOf (c : Char) : Option Chomp :=
    if c = '+' then some .keep else if c = '-' then some .strip else none
  let digitOf (c : Char) : Option Nat := if Text.isDigit c then some (c.toNat - 48) else none
  let header : Option Nat × Chomp × List Glyph :=
    match gs with
    | [] => (none, .clip, [])
    | a :: as =>
      match chompOf a.char, digitOf a.char, as with
      | some k, _, b :: bs =>
        match digitOf b.char with
        | some d => (some d, k, bs)
        | none => (none, k, as)
      | some k, _, [] => (none, k, [])
      | none, some d, b :: bs =>
        match chompOf b.char with
        | some k => (some d, k, bs)
        | none => (some d, .clip, as)
      | none, some d, [] => (some d, .clip, [])
      | none, none, _ => (none, .clip, a :: as)
  let (indent, chomp, rest) := header
  if indent = some 0 then none
  else
    let rest := rest.dropWhile Glyph.isBlank
    let rest := if startsWith '#' rest then rest.dropWhile (!·.isBreak) else rest
    if endsLine rest then some (indent, chomp, rest.drop 1) else none

/-- A block scalar after its `|` or `>`, in surroundings indented by `parent`. -/
def readBlockScalar (literal : Bool) (parent : Int) (gs : List Glyph) :
    Option (List Char × List Glyph) := do
  let (indent, chomp, rest) ← blockHeader? gs
  let least := max 1 (parent + 1).toNat
  readBlock {
    literal := literal
    chomp := chomp
    least := least
    indent := indent.map fun d => (max parent 0).toNat + d
    deepest := 0
    done := []
    lastBreak := none
    empties := []
    afterBlank := false
    inLine := false } rest

end Yaml
end Hosting
