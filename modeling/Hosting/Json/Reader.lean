import Hosting.Json.Number

/-!
JSON read from text: the text is cut into tokens, and the tokens are put together with a
stack of the arrays and objects that are still open.
-/

namespace Hosting
namespace Json

/-! ## Tokens -/

inductive Token where
  | openArray | closeArray | openObject | closeObject | comma | colon
  | text (s : String)
  | value (v : Json)

/-- Where a scan stands: between tokens, within a word or within a string, with the
characters read so far in reverse. -/
inductive Scan where
  | between
  | word (cs : List Char)
  | text (cs : List Char)
  | escape (cs : List Char)
  | hex (cs : List Char) (left value : Nat) (high : Option Nat)
  | high (cs : List Char) (value : Nat)
  | highEscape (cs : List Char) (value : Nat)

/-- The value that a word spells. -/
def wordValue? (cs : List Char) : Option Json :=
  if cs = ['n', 'u', 'l', 'l'] then some .null
  else if cs = ['t', 'r', 'u', 'e'] then some (.bool true)
  else if cs = ['f', 'a', 'l', 's', 'e'] then some (.bool false)
  else number? cs

def punctuation? (c : Char) : Option Token :=
  match c with
  | '[' => some .openArray
  | ']' => some .closeArray
  | '{' => some .openObject
  | '}' => some .closeObject
  | ',' => some .comma
  | ':' => some .colon
  | _ => none

def isSpace (c : Char) : Bool := c == ' ' || c == '\n' || c == '\t' || c == '\r'

def isWordChar (c : Char) : Bool := c.isAlphanum || c == '+' || c == '-' || c == '.'

def escaped? (c : Char) : Option Char :=
  match c with
  | '"' => some '"'
  | '\\' => some '\\'
  | '/' => some '/'
  | 'b' => some '\x08'
  | 'f' => some '\x0c'
  | 'n' => some '\n'
  | 'r' => some '\r'
  | 't' => some '\t'
  | _ => none

/-- A code unit completes: a character of its own, the first half of a pair, or the
second half of the pair begun by `high`. -/
def unitRead (cs : List Char) (n : Nat) : Option Nat → Option Scan
  | none =>
    if 0xD800 ≤ n && n ≤ 0xDBFF then some (.high cs n)
    else if 0xDC00 ≤ n && n ≤ 0xDFFF then none
    else some (.text (Char.ofNat n :: cs))
  | some h =>
    if 0xDC00 ≤ n && n ≤ 0xDFFF then
      some (.text (Char.ofNat (0x10000 + (h - 0xD800) * 0x400 + (n - 0xDC00)) :: cs))
    else none

/-- One character between tokens. -/
def scanBetween (c : Char) : Option (Scan × List Token) :=
  if isSpace c then some (.between, [])
  else if c = '"' then some (.text [], [])
  else match punctuation? c with
    | some t => some (.between, [t])
    | none => if isWordChar c then some (.word [c], []) else none

/-- One character of the text: where the scan then stands, and the tokens that end
with or before it. -/
def scanChar (s : Scan) (c : Char) : Option (Scan × List Token) :=
  match s with
  | .between => scanBetween c
  | .word cs =>
    if isWordChar c then some (.word (c :: cs), [])
    else do
      let v ← wordValue? cs.reverse
      let (s, ts) ← scanBetween c
      some (s, .value v :: ts)
  | .text cs =>
    if c = '"' then some (.between, [.text (String.ofList cs.reverse)])
    else if c = '\\' then some (.escape cs, [])
    else if c.toNat < 0x20 then none
    else some (.text (c :: cs), [])
  | .escape cs =>
    if c = 'u' then some (.hex cs 4 0 none, [])
    else (escaped? c).map fun x => (.text (x :: cs), [])
  | .hex cs left n high => do
    let d ← Text.digit? c
    if left ≤ 1 then (unitRead cs (n * 16 + d) high).map (·, [])
    else some (.hex cs (left - 1) (n * 16 + d) high, [])
  | .high cs n => if c = '\\' then some (.highEscape cs n, []) else none
  | .highEscape cs n => if c = 'u' then some (.hex cs 4 0 (some n), []) else none

/-- The tokens of the text from where the scan stands, after those in `ts`, which are
in reverse. -/
def tokensFrom? : Scan → List Token → List Char → Option (List Token)
  | .between, ts, [] => some ts.reverse
  | .word cs, ts, [] => (wordValue? cs.reverse).map fun v => (.value v :: ts).reverse
  | _, _, [] => none
  | s, ts, c :: cs => do
    let (s, new) ← scanChar s c
    tokensFrom? s (new.reverse ++ ts) cs

/-! ## Values -/

/-- A collection that is being read: its parts so far in reverse, and what may come
next in it. -/
inductive Open where
  | array (items : List Json) (afterItem : Bool)
  | object (members : List (String × Json))
  | objectName (members : List (String × Json)) (name : String)
  | objectColon (members : List (String × Json)) (name : String)
  | objectAfter (members : List (String × Json))
  | arrayComma (items : List Json)
  | objectComma (members : List (String × Json))

/-- What has been read: open collections, innermost first, or the whole value. -/
inductive Progress where
  | inside (stack : List Open)
  | complete (v : Json)

/-- A value is complete: it joins the innermost collection. -/
def join? (v : Json) : List Open → Option Progress
  | [] => some (.complete v)
  | .array items false :: rest => some (.inside (.array (v :: items) true :: rest))
  | .arrayComma items :: rest => some (.inside (.array (v :: items) true :: rest))
  | .objectColon members name :: rest =>
    some (.inside (.objectAfter ((name, v) :: members) :: rest))
  | _ => none

/-- Collections may lie this deep. -/
def maxDepth : Nat := 127

def mayOpen : List Open → Bool
  | [] => true
  | .array _ false :: _ => true
  | .arrayComma _ :: _ => true
  | .objectColon _ _ :: _ => true
  | _ => false

/-- One token; collections deeper than `limit` are refused. -/
def readToken (limit : Nat) (p : Progress) (t : Token) : Option Progress :=
  match p with
  | .complete _ => none
  | .inside stack =>
    match t with
    | .value v => join? v stack
    | .text s =>
      match stack with
      | .object ms :: rest => some (.inside (.objectName ms s :: rest))
      | .objectComma ms :: rest => some (.inside (.objectName ms s :: rest))
      | _ => join? (.string s) stack
    | .openArray =>
      if mayOpen stack && stack.length < limit then some (.inside (.array [] false :: stack))
      else none
    | .openObject =>
      if mayOpen stack && stack.length < limit then some (.inside (.object [] :: stack)) else none
    | .closeArray =>
      match stack with
      | .array items _ :: rest => join? (.array items.reverse) rest
      | _ => none
    | .closeObject =>
      match stack with
      | .object ms :: rest => join? (ofMembers ms.reverse) rest
      | .objectAfter ms :: rest => join? (ofMembers ms.reverse) rest
      | _ => none
    | .comma =>
      match stack with
      | .array items true :: rest => some (.inside (.arrayComma items :: rest))
      | .objectAfter ms :: rest => some (.inside (.objectComma ms :: rest))
      | _ => none
    | .colon =>
      match stack with
      | .objectName ms s :: rest => some (.inside (.objectColon ms s :: rest))
      | _ => none

def readTokens (limit : Nat) : Progress → List Token → Option Progress
  | p, [] => some p
  | p, t :: ts => do readTokens limit (← readToken limit p t) ts

/-- The value that a text spells. -/
def read? (s : String) : Option Json := do
  let ts ← tokensFrom? .between [] s.toList
  match ← readTokens maxDepth (.inside []) ts with
  | .complete v => some v
  | .inside _ => none

end Json
end Hosting
