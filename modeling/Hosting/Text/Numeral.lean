/-!
Numerals of bases up to sixteen, read and written.
-/

namespace Hosting
namespace Text

/-- The value of a digit in any base up to sixteen. -/
def digit? (c : Char) : Option Nat :=
  if '0' ≤ c && c ≤ '9' then some (c.toNat - 48)
  else if 'a' ≤ c && c ≤ 'f' then some (c.toNat - 87)
  else if 'A' ≤ c && c ≤ 'F' then some (c.toNat - 55)
  else none

def isDigit (c : Char) : Bool := '0' ≤ c && c ≤ '9'

/-- The number that the digits continue from `n`. -/
def digitsFrom? (base : Nat) : Nat → List Char → Option Nat
  | n, [] => some n
  | n, c :: cs => do
    let d ← digit? c
    if d < base then digitsFrom? base (n * base + d) cs else none

/-- A number in base `base`, written with at least one digit and nothing else. -/
def digits? (base : Nat) : List Char → Option Nat
  | [] => none
  | c :: cs => digitsFrom? base 0 (c :: cs)

/-- A decimal number, after one optional `+`, that is at most `max`. -/
def natural? (max : Nat) (cs : List Char) : Option Nat := do
  let n ← digits? 10 (match cs with
    | '+' :: r => r
    | _ => cs)
  if n ≤ max then some n else none

/-- The digits of `n` in base `base`, at least `width` of them. -/
def toDigits (base : Nat) (width : Nat) (n : Nat) : List Char :=
  let ds := Nat.toDigits base n
  List.replicate (width - ds.length) '0' ++ ds

/-- The number in decimal, padded with zeros to `width` digits. -/
def padded (width n : Nat) : String := String.ofList (toDigits 10 width n)

def decimal (n : Nat) : String := padded 1 n

def integer (n : Int) : String :=
  if n < 0 then "-" ++ decimal n.natAbs else decimal n.natAbs

end Text
end Hosting
