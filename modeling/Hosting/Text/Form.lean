import Hosting.Text.Numeral
import Hosting.Text.Utf8

/-!
The form encoding of values in a query.
-/

namespace Hosting
namespace Text

/-- The octets that a form value shows as they are. -/
def isFormSafe (b : UInt8) : Bool :=
  (0x30 ≤ b && b ≤ 0x39) || (0x41 ≤ b && b ≤ 0x5A) || (0x61 ≤ b && b ≤ 0x7A) ||
    b == 0x2A || b == 0x2D || b == 0x2E || b == 0x5F

def formOctet (b : UInt8) : List Char :=
  if isFormSafe b then [Char.ofNat b.toNat]
  else if b = 0x20 then ['+']
  else '%' :: (toDigits 16 2 b.toNat).map Char.toUpper

/-- A value as a query shows it: blanks as `+`, all but letters, digits and `*-._` as
`%` and the octet in hexadecimal. -/
def formEncoded (s : String) : String :=
  String.ofList ((Utf8.encode s.toList).flatMap formOctet)

end Text
end Hosting
