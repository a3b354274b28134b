import Hosting.Text.Hidden
import Hosting.Text.Numeral

/-!
Texts in quotes, with escapes for what cannot be seen.
-/

namespace Hosting
namespace Text

/-- A character as it stands between quotes: the quote and the backslash after a
backslash, four control characters by letter, hidden characters by number. -/
def quotedChar (c : Char) : List Char :=
  if c = '"' then ['\\', '"']
  else if c = '\\' then ['\\', '\\']
  else if c = '\n' then ['\\', 'n']
  else if c = '\r' then ['\\', 'r']
  else if c = '\t' then ['\\', 't']
  else if c = '\x00' then ['\\', '0']
  else if isHidden c then ['\\', 'u', '\x7b'] ++ toDigits 16 1 c.toNat ++ ['\x7d']
  else [c]

/-- The text between double quotes, with everything that would not show escaped. -/
def quoted (s : String) : String :=
  String.ofList ('"' :: s.toList.flatMap quotedChar ++ ['"'])

end Text
end Hosting
