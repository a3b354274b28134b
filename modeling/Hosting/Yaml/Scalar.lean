import Hosting.Json
import Hosting.Text.Blank
import Hosting.Text.Numeral

/-!
What a plain scalar says.
-/

namespace Hosting
namespace Yaml

def isNullWord (cs : List Char) : Bool :=
  ["null", "Null", "NULL", "~"].any (·.toList == cs)

def bool? (cs : List Char) : Option Bool :=
  if ["true", "True", "TRUE"].any (·.toList == cs) then some true
  else if ["false", "False", "FALSE"].any (·.toList == cs) then some false
  else none

def startsWithSign : List Char → Bool
  | c :: _ => c == '+' || c == '-'
  | [] => false

/-- Digits that a leading zero makes a text, after an optional sign. -/
def isZeroPadded (cs : List Char) : Bool :=
  match if startsWithSign cs then cs.drop 1 else cs with
  | '0' :: d :: ds => (d :: ds).all Text.isDigit
  | _ => false

/-- The digits after a base mark `0x`, `0o` or `0b`, and the base. -/
def based? : List Char → Option (Nat × List Char)
  | '0' :: 'x' :: r => some (16, r)
  | '0' :: 'o' :: r => some (8, r)
  | '0' :: 'b' :: r => some (2, r)
  | _ => none

/-- An integer: an optional sign, then digits in one of four bases.  The mark of a
base may follow a sign, but no sign follows the mark. -/
def integer? (cs : List Char) : Option Int :=
  if isZeroPadded cs then none
  else match cs with
    | '-' :: r =>
      match based? r with
      | some (b, ds) => (Text.digits? b ds).map fun n => -(n : Int)
      | none => (Text.digits? 10 r).map fun n => -(n : Int)
    | _ =>
      let r := match cs with
        | '+' :: r => r
        | _ => cs
      match based? r with
      | some (b, ds) => (Text.digits? b ds).map Int.ofNat
      | none => (Text.digits? 10 r).map Int.ofNat

/-- What integers become: those of 64 bits are kept, those of 128 are refused, and
still longer ones are none. -/
inductive IntegerRange where
  | kept | refused | none

def integerRange (n : Int) : IntegerRange :=
  if -Int.pow 2 63 ≤ n && n < Int.pow 2 64 then .kept
  else if -Int.pow 2 127 ≤ n && n < Int.pow 2 128 then .refused
  else .none

/-- Digits, a point and digits, an exponent; digits stand on one side of the point. -/
def decimal? (cs : List Char) : Option Binary64 :=
  let negative := cs.head? == some '-'
  let body := if startsWithSign cs then cs.drop 1 else cs
  let whole := body.takeWhile Text.isDigit
  let rest := body.dropWhile Text.isDigit
  let places := match rest with
    | '.' :: r => r.takeWhile Text.isDigit
    | _ => []
  let rest := match rest with
    | '.' :: r => r.dropWhile Text.isDigit
    | _ => rest
  let exponent : Option Int := match rest with
    | [] => some 0
    | e :: r =>
      if e = 'e' || e = 'E' then
        match r with
        | '-' :: ds => (Text.digits? 10 ds).map fun n => -(n : Int)
        | '+' :: ds => (Text.digits? 10 ds).map Int.ofNat
        | ds => (Text.digits? 10 ds).map Int.ofNat
      else none
  if (whole ++ places).isEmpty then none
  else do
    let e ← exponent
    let m ← Text.digits? 10 (whole ++ places)
    some (Binary64.ofDecimal negative m (e - places.length))

def isInfinityWord (cs : List Char) : Bool := [".inf", ".Inf", ".INF"].any (·.toList == cs)

/-- A number with a point or an exponent, as a value.  The words for infinity and for
what is not a number have no value of their own and give null; digits beyond the
largest number are no number. -/
def float? (cs : List Char) : Option Json :=
  let unsigned := match cs with
    | '+' :: r => if startsWithSign r then none else some r
    | _ => some cs
  match unsigned with
  | none => none
  | some r =>
    if isInfinityWord r || (cs.head? == some '-' && isInfinityWord (cs.drop 1)) ||
        [".nan", ".NaN", ".NAN"].any (·.toList == cs) then some .null
    else match decimal? r with
      | some x => if x.isFinite then some (.float x) else none
      | none => none

/-- The value of a plain scalar; an integer of more than 64 bits has none. -/
def plainValue? (cs : List Char) : Option Json :=
  if cs.isEmpty || isNullWord cs then some .null
  else match bool? cs with
    | some b => some (.bool b)
    | none =>
      let otherwise : Json :=
        if isZeroPadded cs then .string (String.ofList cs)
        else (float? cs).getD (.string (String.ofList cs))
      match integer? cs with
      | none => some otherwise
      | some n =>
        match integerRange n with
        | .kept => some (.int n)
        | .refused => none
        | .none => some otherwise

end Yaml
end Hosting
