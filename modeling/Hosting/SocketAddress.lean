import Hosting.Text.Blank
import Hosting.Text.Numeral

/-!
Socket addresses: a host and the number of a service on it.  A host is a dotted quad, or
eight groups of sixteen bits in brackets, with the number of a scope.  Reading takes every
written form, writing gives the shortest one.
-/

namespace Hosting

/-- The host part of a socket address. -/
inductive Host where
  | quad (a b c d : UInt8)
  | groups (gs : Vector UInt16 8) (scope : UInt32)
  deriving DecidableEq

structure SocketAddress where
  host : Host
  service : UInt16
  deriving DecidableEq

namespace SocketAddress

/-! ## Reading -/

/-- A number in base `base` of at most `width` digits, and the text after it. -/
def number? (base width : Nat) (cs : List Char) : Option (Nat × List Char) :=
  let ds := cs.takeWhile fun c => (Text.digits? base [c]).isSome
  if ds.length ≤ width then (Text.digits? base ds).map fun n => (n, cs.drop ds.length) else none

/-- A number from 0 to 255 in decimal, without zeros in front. -/
def octet? (cs : List Char) : Option (UInt8 × List Char) := do
  let (n, r) ← number? 10 3 cs
  if n < 256 && (cs.length - r.length = 1 || cs.head? != some '0') then some (n.toUInt8, r)
  else none

/-- The text after the leading character `c`. -/
def after? (c : Char) : List Char → Option (List Char)
  | [] => none
  | x :: xs => if x = c then some xs else none

def quad? (cs : List Char) : Option ((UInt8 × UInt8 × UInt8 × UInt8) × List Char) := do
  let (a, r) ← octet? cs
  let (b, r) ← after? '.' r >>= octet?
  let (c, r) ← after? '.' r >>= octet?
  let (d, r) ← after? '.' r >>= octet?
  some ((a, b, c, d), r)

def group? (cs : List Char) : Option (UInt16 × List Char) :=
  (number? 16 4 cs).map fun p => (p.1.toUInt16, p.2)

def pair (high low : UInt8) : UInt16 := (high.toNat * 256 + low.toNat).toUInt16

/-- Groups in a row, `:` between each two. -/
structure Row where
  groups : List UInt16
  /-- The last two were written as a dotted quad. -/
  endsInQuad : Bool
  rest : List Char

/-- As many groups as there are, at most `limit`; `leading` when none is before them. -/
def row : (limit : Nat) → (leading : Bool) → List Char → Row
  | 0, _, cs => ⟨[], false, cs⟩
  | n + 1, leading, cs =>
    match if leading then some cs else after? ':' cs with
    | none => ⟨[], false, cs⟩
    | some r =>
      match if n = 0 then none else quad? r with
      | some ((a, b, c, d), r) => ⟨[pair a b, pair c d], true, r⟩
      | none =>
        match group? r with
        | none => ⟨[], false, cs⟩
        | some (g, r) => { row n false r with groups := g :: (row n false r).groups }

/-- The groups with zeros for those left out between `front` and `back`. -/
def spread (front back : List UInt16) : Vector UInt16 8 :=
  .ofFn fun i =>
    (front ++ List.replicate (8 - front.length - back.length) 0 ++ back).getD i.val 0

/-- Eight groups; `::` stands once for one or more groups of zero. -/
def groups? (cs : List Char) : Option (Vector UInt16 8 × List Char) :=
  let front := row 8 true cs
  if front.groups.length = 8 then some (spread front.groups [], front.rest)
  else if front.endsInQuad then none
  else do
    let r ← after? ':' front.rest >>= after? ':'
    let back := row (7 - front.groups.length) true r
    some (spread front.groups back.groups, back.rest)

/-- A number of at most `max`, after the character `mark`. -/
def marked? (mark : Char) (max : Nat) (cs : List Char) : Option (Nat × List Char) := do
  let r ← after? mark cs
  let (n, r) ← number? 10 r.length r
  if n ≤ max then some (n, r) else none

def service? (cs : List Char) : Option (UInt16 × List Char) :=
  (marked? ':' 65535 cs).map fun p => (p.1.toUInt16, p.2)

def quadAddress? (cs : List Char) : Option (SocketAddress × List Char) := do
  let ((a, b, c, d), r) ← quad? cs
  let (service, r) ← service? r
  some (⟨.quad a b c d, service⟩, r)

def groupsAddress? (cs : List Char) : Option (SocketAddress × List Char) := do
  let r ← after? '[' cs
  let (gs, r) ← groups? r
  let (scope, r) := (marked? '%' (Nat.pow 2 32 - 1) r).getD (0, r)
  let r ← after? ']' r
  let (service, r) ← service? r
  some (⟨.groups gs scope.toUInt32, service⟩, r)

def read? (cs : List Char) : Option SocketAddress :=
  match (quadAddress? cs).or (groupsAddress? cs) with
  | some (a, []) => some a
  | _ => none

/-! ## Writing -/

def quadText (a b c d : UInt8) : String :=
  Text.join "." ([a, b, c, d].map fun o => Text.decimal o.toNat)

def groupText (g : UInt16) : String := String.ofList (Text.toDigits 16 1 g.toNat)

def rowText (gs : List UInt16) : String := Text.join ":" (gs.map groupText)

/-- How many groups of zero stand at the front. -/
def zeros (gs : List UInt16) : Nat := (gs.takeWhile (· == 0)).length

/-- Start and length of the longest row of zeros, the first one of several. -/
def longestZeros (gs : List UInt16) : Nat × Nat :=
  (List.range gs.length).foldl (fun best i =>
    let n := zeros (gs.drop i)
    if best.2 < n then (i, n) else best) (0, 0)

/-- The groups in hexadecimal, the longest row of two or more zeros left out.  Those
that carry a quad after `ffff` show it as one. -/
def groupsText (gs : List UInt16) : String :=
  match gs with
  | [0, 0, 0, 0, 0, 0xffff, h, l] =>
    "::ffff:" ++ quadText (h.toNat / 256).toUInt8 h.toUInt8 (l.toNat / 256).toUInt8 l.toUInt8
  | _ =>
    let (start, n) := longestZeros gs
    if 1 < n then rowText (gs.take start) ++ "::" ++ rowText (gs.drop (start + n))
    else rowText gs

def hostText : Host → String
  | .quad a b c d => quadText a b c d
  | .groups gs scope =>
    "[" ++ groupsText gs.toList ++
      (if scope = 0 then "" else "%" ++ Text.decimal scope.toNat) ++ "]"

def text (a : SocketAddress) : String := hostText a.host ++ ":" ++ Text.decimal a.service.toNat

end SocketAddress
end Hosting
