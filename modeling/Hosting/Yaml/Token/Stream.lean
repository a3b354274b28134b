import Hosting.Yaml.Token.Block
import Hosting.Yaml.Token.Plain
import Hosting.Yaml.Token.Property
import Hosting.Yaml.Token.Quoted

/-!
A stream cut into tokens.  The columns of open blocks decide where blocks begin and end, and
a key that no `?` announces is known for one when its `:` comes.
-/

namespace Hosting
namespace Yaml

/-- A place where a key may have begun without a `?`: it is known for one only when
its `:` comes.  `required` when the block it stands in admits nothing but a key. -/
structure KeyStart where
  token : Nat
  index : Nat
  line : Nat
  column : Nat
  required : Bool
  deriving DecidableEq, Repr

/-- A stream that is being cut into tokens. -/
structure Cutter where
  /-- The tokens so far, in reverse, and their number. -/
  tokens : List Token
  count : Nat
  /-- The columns of the open blocks, innermost first. -/
  indents : List Nat
  /-- The possible key start at each level of flow collections, innermost first, and
  outside of all. -/
  start : Option KeyStart
  outer : List (Option KeyStart)
  /-- A key may start at the next token. -/
  keyAllowed : Bool
  deriving DecidableEq, Repr

namespace Cutter

def initial : Cutter := ⟨[], 0, [], none, [], true⟩

/-- Within a flow collection. -/
def inFlow (c : Cutter) : Bool := !c.outer.isEmpty

/-- The column of the innermost block, -1 outside of all. -/
def indent (c : Cutter) : Int :=
  match c.indents with
  | [] => -1
  | i :: _ => i

def push (c : Cutter) (t : Token) : Cutter :=
  { c with tokens := t :: c.tokens, count := c.count + 1 }

/-- Put a token before the one of number `n`. -/
def insertAt (c : Cutter) (n : Nat) (t : Token) : Cutter :=
  let newer := c.count - n
  { c with tokens := c.tokens.take newer ++ t :: c.tokens.drop newer, count := c.count + 1 }

/-- Close the blocks that lie deeper than `column`. -/
def unroll (c : Cutter) (column : Int) : Cutter :=
  if c.inFlow then c
  else
    let deeper := c.indents.takeWhile fun (i : Nat) => column < (i : Int)
    { c with
      tokens := deeper.map (fun _ => Token.blockEnd) ++ c.tokens
      count := c.count + deeper.length
      indents := c.indents.drop deeper.length }

/-- Open a block at `column`, unless one is open there, by a token before number `n`. -/
def roll (c : Cutter) (column : Nat) (n : Nat) (t : Token) : Cutter :=
  if c.inFlow || (column : Int) ≤ c.indent then c
  else { c.insertAt n t with indents := column :: c.indents }

/-- The next token begins at `g`; it may turn out to be a key. -/
def saveStart? (c : Cutter) (g : Glyph) : Option Cutter :=
  if c.keyAllowed then
    if c.start.any (·.required) then none
    else
      let required := !c.inFlow && c.indent == (g.column : Int)
      some { c with start := some ⟨c.count, g.index, g.line, g.column, required⟩ }
  else some c

/-- What began is no key. -/
def dropStart? (c : Cutter) : Option Cutter :=
  if c.start.any (·.required) then none else some { c with start := none }

/-- A key and its `:` stand on one line, at most 1024 octets apart. -/
def isStale (g : Glyph) (k : KeyStart) : Bool := k.line < g.line || k.index + 1024 < g.index

/-- Forget the key starts that the next token at `g` is too far from. -/
def dropStale? (c : Cutter) (g : Glyph) : Option Cutter :=
  let stale (k : Option KeyStart) : Bool := k.any (isStale g)
  let fails (k : Option KeyStart) : Bool := k.any fun k => isStale g k && k.required
  if fails c.start || c.outer.any fails then none
  else
    let kept (k : Option KeyStart) : Option KeyStart := if stale k then none else k
    some { c with start := kept c.start, outer := c.outer.map kept }

def allow (c : Cutter) (b : Bool) : Cutter := { c with keyAllowed := b }

/-- The end of the stream closes every block. -/
def finish? (c : Cutter) : Option (List Token) := do
  if (c.start :: c.outer).any (·.any (·.required)) then none
  else some (c.unroll (-1)).tokens.reverse

end Cutter

/-- Skip blanks, comments and breaks, and a byte order mark where a line begins.  In block
form a key may start after a break, and where one may start a tab is no blank. -/
def skipBlanks (flow : Bool) (allowed comment : Bool) : List Glyph → Bool × List Glyph
  | [] => (allowed, [])
  | g :: gs =>
    if g.isBreak then skipBlanks flow (!flow || allowed) false gs
    else if comment then skipBlanks flow allowed true gs
    else if g.marksOrder || g.char = ' ' || (g.char = '\t' && (flow || !allowed)) then
      skipBlanks flow allowed false gs
    else if g.char = '#' then skipBlanks flow allowed true gs
    else (allowed, g :: gs)

/-- Characters that no plain scalar begins with. -/
def isIndicator (c : Char) : Bool := "-?:,[]\x7b\x7d#&*!|>\x27\"%@\x60".toList.contains c

/-- `---` or `...`: it closes every block. -/
def cutDocumentMark (c : Cutter) (t : Token) (rest : List Glyph) :
    Option (Cutter × List Glyph) := do
  let c ← (c.unroll (-1)).dropStart?
  some ((c.allow false).push t, rest)

def cutDirective (c : Cutter) (gs : List Glyph) : Option (Cutter × List Glyph) := do
  let c ← (c.unroll (-1)).dropStart?
  let (t, rest) ← readDirective gs
  some ((c.allow false).push t, rest)

def cutFlowStart (c : Cutter) (g : Glyph) (t : Token) (gs : List Glyph) :
    Option (Cutter × List Glyph) := do
  let c ← c.saveStart? g
  some (({ c with start := none, outer := c.start :: c.outer, keyAllowed := true }).push t, gs)

def cutFlowEnd (c : Cutter) (t : Token) (gs : List Glyph) : Option (Cutter × List Glyph) := do
  let c ← c.dropStart?
  let c := match c.outer with
    | [] => c
    | k :: ks => { c with start := k, outer := ks }
  some ((c.allow false).push t, gs)

def cutFlowEntry (c : Cutter) (gs : List Glyph) : Option (Cutter × List Glyph) := do
  let c ← c.dropStart?
  some ((c.allow true).push .flowEntry, gs)

def cutBlockEntry (c : Cutter) (g : Glyph) (gs : List Glyph) : Option (Cutter × List Glyph) := do
  if !c.inFlow && !c.keyAllowed then none
  else
    let c ← (c.roll g.column c.count .blockSequenceStart).dropStart?
    some ((c.allow true).push .blockEntry, gs)

def cutKey (c : Cutter) (g : Glyph) (gs : List Glyph) : Option (Cutter × List Glyph) := do
  if !c.inFlow && !c.keyAllowed then none
  else
    let c ← (c.roll g.column c.count .blockMappingStart).dropStart?
    some ((c.allow !c.inFlow).push .key, gs)

/-- A `:`.  When a key may have begun, it has: the tokens that say so are put before
it. -/
def cutValue (c : Cutter) (g : Glyph) (gs : List Glyph) :
    Option (Cutter × List Glyph) :=
  match c.start with
  | some k =>
    let c := (c.insertAt k.token .key).roll k.column k.token .blockMappingStart
    some (({ c with start := none, keyAllowed := false }).push .value, gs)
  | none =>
    if !c.inFlow && !c.keyAllowed then none
    else
      let c := c.roll g.column c.count .blockMappingStart
      some ((c.allow !c.inFlow).push .value, gs)

def cutName (c : Cutter) (g : Glyph) (t : List Char → Token) (gs : List Glyph) :
    Option (Cutter × List Glyph) := do
  let c ← c.saveStart? g
  let (name, rest) ← readName gs
  some ((c.allow false).push (t name), rest)

def cutTag (c : Cutter) (g : Glyph) (gs : List Glyph) : Option (Cutter × List Glyph) := do
  let c ← c.saveStart? g
  let (t, rest) ← readTag c.inFlow (g :: gs)
  some ((c.allow false).push t, rest)

def cutBlockScalar (c : Cutter) (style : Style) (gs : List Glyph) :
    Option (Cutter × List Glyph) := do
  let c ← c.dropStart?
  let (text, rest) ← readBlockScalar (style == .literal) c.indent gs
  some ((c.allow true).push (.scalar style text), rest)

def cutSingle (c : Cutter) (g : Glyph) (gs : List Glyph) : Option (Cutter × List Glyph) := do
  let c ← c.saveStart? g
  let (text, rest) ← readSingle [] Gap.none gs
  some ((c.allow false).push (.scalar .single text), rest)

def cutDouble (c : Cutter) (g : Glyph) (gs : List Glyph) : Option (Cutter × List Glyph) := do
  let c ← c.saveStart? g
  let (text, rest) ← readDouble [] Gap.none none gs
  some ((c.allow false).push (.scalar .double text), rest)

/-- A plain scalar that breaks follow leaves a key allowed. -/
def cutPlain (c : Cutter) (g : Glyph) (gs : List Glyph) : Option (Cutter × List Glyph) := do
  let c ← c.saveStart? g
  let r ← readPlain c.inFlow (c.indent + 1).toNat [] Gap.none (g :: gs)
  some ((c.allow r.breaks).push (.scalar .plain r.text), r.rest)

/-- The next token, which begins at `g`. -/
def cutToken (c : Cutter) (g : Glyph) (gs : List Glyph) : Option (Cutter × List Glyph) :=
  let word := endsWord gs
  if g.column = 0 && g.char = '%' then cutDirective c gs
  else if marksDocument (g :: gs) then
    cutDocumentMark c (if g.char = '-' then .documentStart else .documentEnd) (gs.drop 2)
  else if g.char = '[' then cutFlowStart c g .flowSequenceStart gs
  else if g.char = '\x7b' then cutFlowStart c g .flowMappingStart gs
  else if g.char = ']' then cutFlowEnd c .flowSequenceEnd gs
  else if g.char = '\x7d' then cutFlowEnd c .flowMappingEnd gs
  else if g.char = ',' then cutFlowEntry c gs
  else if g.char = '-' && word then cutBlockEntry c g gs
  else if g.char = '?' && (c.inFlow || word) then cutKey c g gs
  else if g.char = ':' && (c.inFlow || word) then cutValue c g gs
  else if g.char = '*' then cutName c g .alias gs
  else if g.char = '&' then cutName c g .anchor gs
  else if g.char = '!' then cutTag c g gs
  else if g.char = '|' && !c.inFlow then cutBlockScalar c .literal gs
  else if g.char = '>' && !c.inFlow then cutBlockScalar c .folded gs
  else if g.char = '\'' then cutSingle c g gs
  else if g.char = '"' then cutDouble c g gs
  else if (!g.isBlank && !isIndicator g.char) || (g.char = '-' && !gs.head?.any Glyph.isBlank) ||
      (!c.inFlow && (g.char = '?' || g.char = ':') && !word) then
    cutPlain c g gs
  else none

/-- The tokens of the glyphs, after those that `c` holds.  Each token takes a glyph at
least, so one more step than there are glyphs is enough. -/
def cutFrom : Nat → Cutter → List Glyph → Option (List Token)
  | 0, _, _ => none
  | n + 1, c, gs =>
    match skipBlanks c.inFlow c.keyAllowed false gs with
    | (_, []) => c.finish?
    | (allowed, g :: gs) => do
      let c ← (c.allow allowed).dropStale? g
      let (c, rest) ← cutToken (c.unroll g.column) g gs
      cutFrom n c rest

/-- The tokens of a stream. -/
def tokens? (text : List Char) : Option (List Token) := do
  let gs ← glyphs? text
  cutFrom (gs.length + 1) Cutter.initial gs

end Yaml
end Hosting
