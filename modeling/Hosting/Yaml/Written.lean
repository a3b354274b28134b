import Hosting.Yaml.Glyph
import Hosting.Yaml.Scalar
import Hosting.Yaml.Token

/-!
Texts and blocks as YAML is written: a text in the plainest style that reads back as that
text, a collection as a block.
-/

namespace Hosting
namespace Yaml

/-! ## What a text admits -/

/-- The characters that need no escape. -/
def isWritable (c : Char) : Bool :=
  let n := c.toNat
  n == 0xA || (0x20 ≤ n && n ≤ 0x7E) || (0xA0 ≤ n && n ≤ 0xD7FF) ||
    (0xE000 ≤ n && n ≤ 0xFFFD && n != 0xFEFF) || 0x10000 ≤ n

/-- Some character of the first kind stands right before one of the second. -/
def hasPair (p q : Char → Bool) : List Char → Bool
  | a :: b :: cs => (p a && q b) || hasPair p q (b :: cs)
  | _ => false

def isSpaceChar (c : Char) : Bool := c == ' '

/-- A blank, a break or the end comes next. -/
def endsWordChars : List Char → Bool
  | [] => true
  | c :: _ => isBlankChar c || isBreakChar c

/-- A colon that ends a word, or a comment mark after a blank. -/
def hasInnerMark (afterBlank : Bool) : List Char → Bool
  | [] => false
  | c :: cs =>
    (c == ':' && endsWordChars cs) || (c == '#' && afterBlank) ||
      hasInnerMark (isBlankChar c || isBreakChar c) cs

/-- The text begins as a document mark does. -/
def beginsAsMark : List Char → Bool
  | a :: b :: c :: _ => a == b && b == c && (a == '-' || a == '.')
  | _ => false

/-- Characters that mean something at the start of a value. -/
def isStartMark (c : Char) : Bool := "#,[]\x7b\x7d&*!|>\x27\"%@\x60".toList.contains c

/-- The text could be taken for something else than text. -/
def hasMark : List Char → Bool
  | [] => false
  | c :: cs =>
    beginsAsMark (c :: cs) || isStartMark c ||
      ((c == '?' || c == ':' || c == '-') && endsWordChars cs) ||
      hasInnerMark (isBlankChar c || isBreakChar c) cs

/-- The text holds nothing to escape, and no blanks at the end of a line. -/
def isClean (cs : List Char) : Bool := cs.all isWritable && !hasPair isSpaceChar isBreakChar cs

def startsOrEndsWith (p : Char → Bool) (cs : List Char) : Bool :=
  cs.head?.any p || cs.getLast?.any p

def admitsPlain (cs : List Char) : Bool :=
  isClean cs && !cs.any isBreakChar && !startsOrEndsWith isSpaceChar cs && !hasMark cs

def admitsSingle (cs : List Char) : Bool := isClean cs && !hasPair isBreakChar isSpaceChar cs

def admitsLiteral (cs : List Char) : Bool := isClean cs && !cs.getLast?.any isSpaceChar

/-- Written plainly the text would be read as another kind of value. -/
def isAmbiguous (cs : List Char) : Bool :=
  isZeroPadded cs || match plainValue? cs with
    | some (.string _) => false
    | _ => true

/-- How a text is written: in lines when it has several, plainly when that reads back
as the text, else between the quotes that it admits. -/
def styleOf (cs : List Char) : Style :=
  if cs.contains '\n' then (if admitsLiteral cs then .literal else .double)
  else if !isAmbiguous cs && admitsPlain cs then .plain
  else if admitsSingle cs then .single
  else .double

/-! ## Writing -/

def spaces (n : Nat) : List Char := List.replicate n ' '

/-- The text between single quotes.  After breaks a line starts with the indentation. -/
def singleChars (indent : Nat) (afterBreak : Bool) : List Char → List Char
  | [] => if afterBreak then spaces indent else []
  | c :: cs =>
    if isBreakChar c then c :: singleChars indent true cs
    else
      (if afterBreak then spaces indent else []) ++
        (if c = '\'' then ['\'', '\''] else [c]) ++ singleChars indent false cs

/-- The letter after the backslash for a character that has one. -/
def escapeLetter? (c : Char) : Option Char :=
  match c with
  | '\x00' => some '0'
  | '\x07' => some 'a'
  | '\x08' => some 'b'
  | '\t' => some 't'
  | '\n' => some 'n'
  | '\x0b' => some 'v'
  | '\x0c' => some 'f'
  | '\r' => some 'r'
  | '\x1b' => some 'e'
  | '"' => some '"'
  | '\\' => some '\\'
  | '\u0085' => some 'N'
  | '\u2028' => some 'L'
  | '\u2029' => some 'P'
  | _ => none

def upperDigits (width n : Nat) : List Char := (Text.toDigits 16 width n).map Char.toUpper

/-- A character between double quotes. -/
def doubleChar (c : Char) : List Char :=
  match escapeLetter? c with
  | some l => ['\\', l]
  | none =>
    if isWritable c then [c]
    else if c.toNat ≤ 0xFF then '\\' :: 'x' :: upperDigits 2 c.toNat
    else if c.toNat ≤ 0xFFFF then '\\' :: 'u' :: upperDigits 4 c.toNat
    else '\\' :: 'U' :: upperDigits 8 c.toNat

/-- The lines of a literal text, each that is not empty behind the indentation. -/
def literalChars (indent : Nat) (afterBreak : Bool) : List Char → List Char
  | [] => []
  | c :: cs =>
    if isBreakChar c then c :: literalChars indent true cs
    else (if afterBreak then spaces indent else []) ++ c :: literalChars indent false cs

/-- The marks of a literal text: that its indentation is two where its first line does
not show it, and what becomes of its last breaks unless it ends with exactly one. -/
def literalMarks (cs : List Char) : List Char :=
  let indented := cs.head?.any fun c => isSpaceChar c || isBreakChar c
  let chomp := match cs.reverse with
    | a :: b :: _ => if !isBreakChar a then ['-'] else if isBreakChar b then ['+'] else []
    | [a] => if isBreakChar a then ['+'] else ['-']
    | [] => ['-']
  (if indented then ['2'] else []) ++ chomp

/-- A text as a value, with the break that ends it; lines after the first start behind
`indent` spaces. -/
def writeText (indent : Nat) (cs : List Char) : List Char :=
  match styleOf cs with
  | .plain => cs ++ ['\n']
  | .single => '\'' :: singleChars indent false cs ++ ['\'', '\n']
  | .literal =>
    '|' :: literalMarks cs ++ '\n' :: literalChars indent true cs ++
      (if cs.getLast?.any isBreakChar then [] else ['\n'])
  | _ => '"' :: cs.flatMap doubleChar ++ ['"', '\n']

/-- A value to be written in block form: a word that stands as it is, a text, or a
collection that is not empty. -/
inductive Block where
  | word (cs : List Char)
  | text (cs : List Char)
  | sequence (first : Block) (items : List Block)
  | mapping (key : List Char) (value : Block) (rest : List (List Char × Block))

namespace Block

mutual

/-- A value after the colon of a key at column `indent`, to the end of its last line. -/
def afterKey (indent : Nat) : Block → List Char
  | .word cs => ' ' :: cs ++ ['\n']
  | .text cs => ' ' :: writeText (indent + 2) cs
  | .sequence b bs =>
    '\n' :: (spaces indent ++ '-' :: ' ' :: (b.here (indent + 2) ++ items indent bs))
  | .mapping k v rest =>
    '\n' :: (spaces (indent + 2) ++ k ++ ':' ::
      (v.afterKey (indent + 2) ++ pairs (indent + 2) rest))

/-- A value that begins at column `indent`. -/
def here (indent : Nat) : Block → List Char
  | .word cs => cs ++ ['\n']
  | .text cs => writeText indent cs
  | .sequence b bs => '-' :: ' ' :: (b.here (indent + 2) ++ items indent bs)
  | .mapping k v rest => k ++ ':' :: (v.afterKey indent ++ pairs indent rest)

def items (indent : Nat) : List Block → List Char
  | [] => []
  | b :: bs => spaces indent ++ '-' :: ' ' :: (b.here (indent + 2) ++ items indent bs)

def pairs (indent : Nat) : List (List Char × Block) → List Char
  | [] => []
  | p :: ps => spaces indent ++ p.1 ++ ':' :: (p.2.afterKey indent ++ pairs indent ps)

end

/-- The document of a value. -/
def write (b : Block) : String := String.ofList (b.here 0)

end Block
end Yaml
end Hosting
