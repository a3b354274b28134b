import Hosting.Instant
import Hosting.Text.Blank
import Hosting.Text.Numeral

/-!
Instants as text, after RFC 3339.  Writing has three widths; reading is more generous than
writing and takes any offset.
-/

namespace Hosting
namespace Instant

/-! ## Writing -/

def yearText (y : Int) : String :=
  if 0 ≤ y && y ≤ 9999 then Text.padded 4 y.natAbs
  else (if y < 0 then "-" else "+") ++ Text.padded 4 y.natAbs

/-- The date and time of day in UTC, to the second, before `fraction`. -/
def textWith (t : Instant) (fraction : String) : String :=
  let d := t.date
  let s := t.secondOfDay.toNat
  let leap := if t.isLeap then 1 else 0
  yearText d.year ++ "-" ++ Text.padded 2 d.month ++ "-" ++ Text.padded 2 d.day ++ "T" ++
    Text.padded 2 (s / 3600) ++ ":" ++ Text.padded 2 (s / 60 % 60) ++ ":" ++
    Text.padded 2 (s % 60 + leap) ++ fraction ++ "Z"

/-- Nanoseconds within the second. -/
def fraction (t : Instant) : Nat := t.nano % nanosPerSecond

def secondsText (t : Instant) : String := t.textWith ""

def microsText (t : Instant) : String := t.textWith ("." ++ Text.padded 6 (t.fraction / 1000))

/-- With the fewest of no, three, six and nine places that are exact. -/
def exactText (t : Instant) : String :=
  let f := t.fraction
  t.textWith <|
    if f = 0 then ""
    else if f % 1000000 = 0 then "." ++ Text.padded 3 (f / 1000000)
    else if f % 1000 = 0 then "." ++ Text.padded 6 (f / 1000)
    else "." ++ Text.padded 9 f

/-! ## Reading

The fields of a date and time may be separated by blanks, and all but the year may
have one digit. -/

/-- A number of at most `width` digits, and the text after it. -/
def number? (width : Nat) (cs : List Char) : Option (Nat × List Char) :=
  let ds := (cs.take width).takeWhile Text.isDigit
  (Text.digits? 10 ds).map fun n => (n, cs.drop ds.length)

/-- A year: up to four digits, or a sign and any number of them. -/
def year? (cs : List Char) : Option (Int × List Char) :=
  match Text.trimStart cs with
  | '-' :: r => (number? r.length r).map fun p => (-(p.1 : Int), p.2)
  | '+' :: r => (number? r.length r).map fun p => ((p.1 : Int), p.2)
  | r => (number? 4 r).map fun p => ((p.1 : Int), p.2)

def field? (cs : List Char) : Option (Nat × List Char) := number? 2 (Text.trimStart cs)

def mark? (c : Char) (cs : List Char) : Option (List Char) :=
  match Text.trimStart cs with
  | x :: r => if x = c then some r else none
  | [] => none

/-- The nanoseconds after a point; digits past the ninth are dropped. -/
def fraction? (cs : List Char) : Option (Nat × List Char) :=
  match cs with
  | '.' :: r =>
    let ds := r.takeWhile Text.isDigit
    let used := ds.take 9
    (Text.digits? 10 used).map fun n => (n * Nat.pow 10 (9 - used.length), r.drop ds.length)
  | _ => some (0, cs)

def digitPair? : List Char → Option (Nat × List Char)
  | a :: b :: r => if Text.isDigit a && Text.isDigit b then
      (Text.digits? 10 [a, b]).map fun n => (n, r) else none
  | _ => none

def isColonOrBlank (c : Char) : Bool := c == ':' || Text.isBlank c

/-- Seconds east of UTC: `Z`, `UTC` in any case, or a sign, hours and minutes. -/
def offset? (cs : List Char) : Option (Int × List Char) :=
  match cs with
  | 'Z' :: r => some (0, r)
  | 'z' :: r => some (0, r)
  | sign :: r =>
    if ((cs.take 3).map Text.lower) = ['u', 't', 'c'] then some (0, cs.drop 3)
    else if sign = '+' || sign = '-' || sign = '\u2212' then do
      let (h, r) ← digitPair? r
      let (m, r) ← digitPair? (r.dropWhile isColonOrBlank)
      if m < 60 && h < 24 then
        let n : Int := h * 3600 + m * 60
        some (if sign = '+' then n else -n, r)
      else none
    else none
  | [] => none

/-- The years that an instant can be read in. -/
def inYears (y : Int) : Bool := -262143 ≤ y && y ≤ 262142

/-- The instant of a date, a time of day and an offset.  A sixtieth second is the
leap second after the one before it. -/
def ofFields? (d : Date) (hour minute second nano : Nat) (offset : Int) : Option Instant :=
  if d.isValid && hour < 24 && minute < 60 && second ≤ 60 && inYears d.year then
    let leap : Nat := if second = 60 then 1 else 0
    let t : Instant :=
      ⟨d.toDays * 86400 + (hour * 3600 + minute * 60 + (second - leap)) - offset,
        nano + leap * nanosPerSecond⟩
    -- The offset may lead out of the years that the date itself is in.
    if inYears t.date.year then some t else none
  else none

def read? (s : String) : Option Instant := do
  let (year, r) ← year? s.toList
  let r ← mark? '-' r
  let (month, r) ← field? r
  let r ← mark? '-' r
  let (day, r) ← field? r
  match r with
  | c :: r =>
    if c = 't' || c = 'T' || c = ' ' then do
      let (hour, r) ← field? r
      let r ← mark? ':' r
      let (minute, r) ← field? r
      let r ← mark? ':' r
      let (second, r) ← field? r
      let (nano, r) ← fraction? r
      let (offset, r) ← offset? (Text.trimStart r)
      if (Text.trimStart r).isEmpty then
        ofFields? ⟨year, month, day⟩ hour minute second nano offset
      else none
    else none
  | [] => none

end Instant
end Hosting
