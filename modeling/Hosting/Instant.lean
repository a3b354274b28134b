/-!
Points in time and the calendar.  Days are counted in both directions from 1970, years are
those of the Gregorian calendar without an end, and a leap second is a second that is
longer than others.
-/

namespace Hosting

/-- A day of the Gregorian calendar, extended to all years. -/
structure Date where
  year : Int
  month : Nat
  day : Nat
  deriving DecidableEq, Repr

namespace Date

def isLeapYear (y : Int) : Bool := y % 4 == 0 && (y % 100 != 0 || y % 400 == 0)

def monthLength (y : Int) (m : Nat) : Nat :=
  if m = 2 then (if isLeapYear y then 29 else 28)
  else if m = 4 || m = 6 || m = 9 || m = 11 then 30
  else 31

def isValid (d : Date) : Bool :=
  1 ≤ d.month && d.month ≤ 12 && 1 ≤ d.day && d.day ≤ monthLength d.year d.month

/-- Days since 1970-01-01.  Years are counted from March, so that the leap day
ends one. -/
def toDays (d : Date) : Int :=
  let y := if d.month ≤ 2 then d.year - 1 else d.year
  let era := y / 400
  let yearOfEra := y % 400
  let m : Int := (d.month + 9) % 12
  let dayOfYear := (153 * m + 2) / 5 + d.day - 1
  let dayOfEra := yearOfEra * 365 + yearOfEra / 4 - yearOfEra / 100 + dayOfYear
  era * 146097 + dayOfEra - 719468

def ofDays (n : Int) : Date :=
  let z := n + 719468
  let era := z / 146097
  let dayOfEra := z % 146097
  let yearOfEra := (dayOfEra - dayOfEra / 1460 + dayOfEra / 36524 - dayOfEra / 146096) / 365
  let dayOfYear := dayOfEra - (365 * yearOfEra + yearOfEra / 4 - yearOfEra / 100)
  let m := (5 * dayOfYear + 2) / 153
  let month := if m < 10 then m + 3 else m - 9
  let y := yearOfEra + era * 400
  ⟨if month ≤ 2 then y + 1 else y, month.toNat, (dayOfYear - (153 * m + 2) / 5 + 1).toNat⟩

end Date

/-- A length of time, in nanoseconds.  A number alone stands for so many seconds. -/
structure Duration where
  nanos : Nat
  deriving DecidableEq, Repr

namespace Duration

def ofSeconds (n : Nat) : Duration := ⟨n * 1000000000⟩

instance (n : Nat) : OfNat Duration n := ⟨ofSeconds n⟩

instance : Coe Nat Duration := ⟨ofSeconds⟩

end Duration

/-- A point in time: whole seconds since 1970-01-01 UTC and nanoseconds.  From
`10 ^ 9` nanoseconds on it lies in a leap second that follows `second`. -/
structure Instant where
  second : Int
  nano : Nat
  deriving DecidableEq, Repr

namespace Instant

def nanosPerSecond : Nat := 1000000000

/-- An instant that is not in a leap second. -/
def IsPlain (t : Instant) : Prop := t.nano < nanosPerSecond

def isLeap (t : Instant) : Bool := nanosPerSecond ≤ t.nano

def date (t : Instant) : Date := Date.ofDays (t.second / 86400)

def secondOfDay (t : Instant) : Int := t.second % 86400

/-- Nanoseconds from `u` to `t`.  A leap second counts when one of the two lies
in it and the other is at a different time of day on its far side. -/
def since (t u : Instant) : Int :=
  let extra : Int :=
    if u.secondOfDay < t.secondOfDay then (if u.isLeap then 1 else 0)
    else if t.secondOfDay < u.secondOfDay then (if t.isLeap then -1 else 0)
    else 0
  (t.second - u.second + extra) * 1000000000 + ((t.nano : Int) - u.nano)

/-- Move by whole seconds; moving at all leaves a leap second. -/
def addSeconds (t : Instant) (n : Int) : Instant :=
  if t.isLeap then
    if n = 0 then t
    else ⟨if n < 0 then t.second + 1 + n else t.second + n, t.nano - nanosPerSecond⟩
  else ⟨t.second + n, t.nano⟩

/-- The instant without its fraction of a second. -/
def truncated (t : Instant) : Instant := ⟨t.second, if t.isLeap then nanosPerSecond else 0⟩

/-- The instant as its text in whole seconds tells it; none outside the years that
text has four digits for. -/
def wholeSecond? (t : Instant) : Option Instant :=
  let y := t.date.year
  if 0 ≤ y && y ≤ 9999 then some t.truncated else none

end Instant
end Hosting
