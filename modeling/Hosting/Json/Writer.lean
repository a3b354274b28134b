import Hosting.Json.Number

/-!
JSON as compact text: no blanks, members in the order of their names.
-/

namespace Hosting
namespace Json

/-- A character of a string as it is written: quotes, backslashes and control
characters are escaped. -/
def writtenChar (c : Char) : List Char :=
  match c with
  | '"' => ['\\', '"']
  | '\\' => ['\\', '\\']
  | '\x08' => ['\\', 'b']
  | '\x0c' => ['\\', 'f']
  | '\n' => ['\\', 'n']
  | '\r' => ['\\', 'r']
  | '\t' => ['\\', 't']
  | c => if c.toNat < 0x20 then '\\' :: 'u' :: Text.toDigits 16 4 c.toNat else [c]

def writtenString (s : String) : List Char := '"' :: s.toList.flatMap writtenChar ++ ['"']

mutual

/-- The value without any space, after which comes `rest`. -/
def written : Json → List Char → List Char
  | .null, rest => "null".toList ++ rest
  | .bool b, rest => (if b then "true" else "false").toList ++ rest
  | .int n, rest => (Text.integer n).toList ++ rest
  | .float x, rest => (floatText x).toList ++ rest
  | .string s, rest => writtenString s ++ rest
  | .array [], rest => '[' :: ']' :: rest
  | .array (v :: vs), rest => '[' :: written v (writtenItems vs (']' :: rest))
  | .object [], rest => '\x7b' :: '\x7d' :: rest
  | .object (m :: ms), rest =>
    '\x7b' :: (writtenString m.1 ++ ':' :: written m.2 (writtenMembers ms ('\x7d' :: rest)))

def writtenItems : List Json → List Char → List Char
  | [], rest => rest
  | v :: vs, rest => ',' :: written v (writtenItems vs rest)

def writtenMembers : List (String × Json) → List Char → List Char
  | [], rest => rest
  | m :: ms, rest => ',' :: (writtenString m.1 ++ ':' :: written m.2 (writtenMembers ms rest))

end

/-- The value as text, without any space. -/
def write (v : Json) : String := String.ofList (written v [])

end Json
end Hosting
