/-!
Floating-point numbers of 64 bits, told apart by their bits, and the exact arithmetic by
which a decimal is rounded to one and written as the shortest decimal that reads back.
-/

namespace Hosting

/-- A number of the 64-bit binary interchange format, by its bits. -/
structure Binary64 where
  bits : UInt64
  deriving DecidableEq, Repr

namespace Binary64

/-- The bits of positive infinity, the least that are no finite magnitude. -/
def infinity : Nat := 0x7FF0000000000000

def isNegative (x : Binary64) : Bool := 0x8000000000000000 ≤ x.bits

def magnitude (x : Binary64) : Nat := x.bits.toNat % 0x8000000000000000

def isFinite (x : Binary64) : Bool := x.magnitude < infinity

def isZero (x : Binary64) : Bool := x.magnitude == 0

def ofMagnitude (negative : Bool) (m : Nat) : Binary64 :=
  ⟨(if negative then 0x8000000000000000 + m else m).toUInt64⟩

/-- Numeric equality: the two zeros are equal, and nothing equals what is not a
number. -/
def agrees (x y : Binary64) : Bool :=
  (x.isZero && y.isZero) || (x.bits == y.bits && x.magnitude ≤ infinity)

/-- A finite magnitude is `mantissa * 2 ^ exponent`. -/
def mantissa (x : Binary64) : Nat :=
  let e := x.magnitude / 0x10000000000000
  let f := x.magnitude % 0x10000000000000
  if e = 0 then f else 0x10000000000000 + f

def exponent (x : Binary64) : Int :=
  let e := x.magnitude / 0x10000000000000
  if e = 0 then -1074 else (e : Int) - 1075

/-- The quotient rounded to the nearest natural number, a tie to the even one. -/
def roundDiv (n d : Nat) : Nat :=
  let q := n / d
  let r := n % d
  if 2 * r > d || (2 * r == d && q % 2 == 1) then q + 1 else q

/-- The largest `e` with `2 ^ e * d ≤ n`, for positive `n` and `d`. -/
def ratioLog (n d : Nat) : Int :=
  let e : Int := (Nat.log2 n : Int) - (Nat.log2 d : Int)
  let below := if 0 ≤ e then n < d <<< e.toNat else n <<< (-e).toNat < d
  if below then e - 1 else e

/-- The magnitude nearest to `n / d`, of two equally near the even one; infinity
from half a step above the largest finite one. -/
def nearest (n d : Nat) : Nat :=
  if n = 0 then 0
  else
    let q : Int := max (ratioLog n d - 52) (-1074)
    let m := if 0 ≤ q then roundDiv n (d <<< q.toNat) else roundDiv (n <<< (-q).toNat) d
    min infinity (m + (q + 1074).toNat * 0x10000000000000)

/-- The number nearest to `m * 10 ^ e`.  Beyond the format's range on either side
the power of ten is not formed. -/
def ofDecimal (negative : Bool) (m : Nat) (e : Int) : Binary64 :=
  let size : Int := (Nat.toDigits 10 m).length + e
  ofMagnitude negative <|
    if m = 0 || size < -330 then 0
    else if size > 310 then infinity
    else if 0 ≤ e then nearest (m * Nat.pow 10 e.toNat) 1
    else nearest m (Nat.pow 10 (-e).toNat)

/-- The magnitude as a fraction. -/
def fraction (x : Binary64) : Nat × Nat :=
  if 0 ≤ x.exponent then (x.mantissa <<< x.exponent.toNat, 1)
  else (x.mantissa, 1 <<< (-x.exponent).toNat)

/-- The decimal of `places` digits next to `n / d` that reads back as `target`,
with its exponent: the one below before the one above, unless that is nearer. -/
def shortAt? (target n d : Nat) (scale : Int) (places : Nat) : Option (Nat × Int) :=
  let e : Int := scale - places
  let (n', d') := if 0 ≤ e then (n, d * Nat.pow 10 e.toNat) else (n * Nat.pow 10 (-e).toNat, d)
  let low := n' / d'
  let value (m : Nat) : Nat := (ofDecimal false m e).magnitude
  let lowFits := value low == target
  let highFits := value (low + 1) == target
  if lowFits && highFits then
    some (if 2 * (n' % d') ≤ d' then (low, e) else (low + 1, e))
  else if lowFits then some (low, e)
  else if highFits then some (low + 1, e)
  else none

/-- Digits and exponent of the shortest decimal that reads back as the number. -/
def shortest (x : Binary64) : Nat × Int :=
  if x.isZero then (0, 0)
  else
    let (n, d) := x.fraction
    let scale : Int := (Nat.toDigits 10 (n / d)).length
    let scale : Int := if n < d then -((Nat.toDigits 10 (d / n)).length : Int) + 1 else scale
    ((List.range 18).findSome? fun k => shortAt? x.magnitude n d scale (k + 1)).getD (0, 0)

end Binary64
end Hosting
