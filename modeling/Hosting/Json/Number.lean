import Hosting.Json
import Hosting.Text.Numeral

/-!
Numbers as they stand in JSON text.
-/

namespace Hosting
namespace Json

/-- The largest magnitude that is kept as an integer. -/
def largest : Nat := Nat.pow 2 64 - 1

def times (a b : Binary64) : Nat :=
  Binary64.nearest (a.fraction.1 * b.fraction.1) (a.fraction.2 * b.fraction.2)

def dividedBy (a b : Binary64) : Nat :=
  Binary64.nearest (a.fraction.1 * b.fraction.2) (a.fraction.2 * b.fraction.1)

def powerOfTen (k : Nat) : Binary64 := .ofMagnitude false (Binary64.nearest (Nat.pow 10 k) 1)

/-- The digits as a number, then scaled: the digits, the power of ten and the
result are each rounded.  There is none beyond the largest finite number. -/
def scaled? (m : Nat) (e : Int) : Option Nat :=
  let x : Binary64 := .ofMagnitude false (Binary64.nearest m 1)
  if m = 0 then some 0
  else if 308 < e then none
  else if 0 ≤ e then
    let y := times x (powerOfTen e.toNat)
    if y < Binary64.infinity then some y else none
  else if -308 ≤ e then some (dividedBy x (powerOfTen (-e).toNat))
  else if -616 ≤ e then
    let y : Binary64 := .ofMagnitude false (dividedBy x (powerOfTen 308))
    some (dividedBy y (powerOfTen (-e - 308).toNat))
  else some 0

/-- Take digits while the number they make stays below `largest`; the number, how
many were taken, and how many were left. -/
def takeDigits (n taken : Nat) : List Char → Nat × Nat × Nat
  | [] => (n, taken, 0)
  | c :: cs =>
    let n' := n * 10 + (c.toNat - 48)
    if n' ≤ largest then takeDigits n' (taken + 1) cs else (n, taken, cs.length + 1)

/-- The exponent after `e` or `E`, with its optional sign. -/
def exponent? (cs : List Char) : Option Int :=
  match cs with
  | '+' :: r => (Text.digits? 10 r).map Int.ofNat
  | '-' :: r => (Text.digits? 10 r).map fun n => -(Int.ofNat n)
  | r => (Text.digits? 10 r).map Int.ofNat

/-- A floating-point number of the given whole digits, places and exponent.  Digits
beyond those that `largest` admits only count. -/
def float? (negative : Bool) (whole places : List Char) (e : Int) : Option Json :=
  let (n, _, left) := takeDigits 0 0 whole
  let (m, e) :=
    if left = 0 then
      let (m, taken, _) := takeDigits n 0 places
      (m, e - taken)
    else (n, e + left)
  (scaled? m e).map fun x => .float (.ofMagnitude negative x)

def isWhole : List Char → Bool
  | [] => false
  | ['0'] => true
  | c :: cs => c != '0' && (c :: cs).all Text.isDigit

/-- The number that a word spells: an integer when it has neither places nor an
exponent and fits, a floating-point number otherwise. -/
def number? (word : List Char) : Option Json :=
  let negative := word.head? == some '-'
  let body := if negative then word.drop 1 else word
  let whole := body.takeWhile Text.isDigit
  if !isWhole whole then none
  else match body.dropWhile Text.isDigit with
    | [] =>
      match Text.digits? 10 whole with
      | none => none
      | some n =>
        if negative then
          if 1 ≤ n && n ≤ Nat.pow 2 63 then some (.int (-n)) else float? true whole [] 0
        else if n ≤ largest then some (.int n) else float? false whole [] 0
    | c :: r =>
      let places := if c = '.' then r.takeWhile Text.isDigit else []
      let rest := if c = '.' then r.dropWhile Text.isDigit else c :: r
      if c = '.' && places.isEmpty then none
      else match rest with
        | [] => float? negative whole places 0
        | x :: r =>
          if x = 'e' || x = 'E' then exponent? r >>= float? negative whole places else none

/-- The shortest digits, with places or a leading zero while the point is near
them and an exponent otherwise; a whole number ends in `.0`. -/
def floatText (x : Binary64) : String :=
  let (m, e) := x.shortest
  let ds := (Nat.toDigits 10 m)
  let point : Int := ds.length + e
  let text :=
    if x.isZero then ['0', '.', '0']
    else if 0 ≤ e && point ≤ 16 then ds ++ List.replicate e.toNat '0' ++ ['.', '0']
    else if 0 < point && point ≤ 16 then ds.take point.toNat ++ '.' :: ds.drop point.toNat
    else if -5 < point && point ≤ 0 then '0' :: '.' :: (List.replicate (-point).toNat '0' ++ ds)
    else
      ds.take 1 ++ (if ds.length = 1 then [] else '.' :: ds.drop 1) ++
        'e' :: (Text.integer (point - 1)).toList
  String.ofList (if x.isNegative then '-' :: text else text)

end Json
end Hosting
