import Hosting.Json
import Hosting.Text.Blank

/-!
Reading records off JSON values.  A record is an object, or, where `slots?` is used,
an array of its fields in order.  A field that is missing takes its default where it
has one; `null` is the same as missing for an optional field and refused elsewhere.
-/

namespace Hosting
namespace Json

/-- What is given for each named field: by name, or by position, when at least
`least` and at most all are given. -/
def slots? (names : List String) (least : Nat) : Json → Option (List (Option Json))
  | .object ms => some (names.map fun n => Table.find n ms)
  | .array vs =>
    if least ≤ vs.length && vs.length ≤ names.length then
      some (vs.map some ++ List.replicate (names.length - vs.length) none)
    else none
  | _ => none

/-- What is given for each named field of an object. -/
def members? (names : List String) : Json → Option (List (Option Json))
  | .object ms => some (names.map fun n => Table.find n ms)
  | _ => none

def required (decode : Json → Option α) : Option Json → Option α
  | none => none
  | some v => decode v

def withDefault (d : α) (decode : Json → Option α) : Option Json → Option α
  | none => some d
  | some v => decode v

def optional (decode : Json → Option α) : Option Json → Option (Option α)
  | none => some none
  | some .null => some none
  | some v => (decode v).map some

def asString : Json → Option String
  | .string s => some s
  | _ => none

def asBool : Json → Option Bool
  | .bool b => some b
  | _ => none

/-- An integer of the given range. -/
def asInt (low high : Int) : Json → Option Int
  | .int n => if low ≤ n && n ≤ high then some n else none
  | _ => none

def asInt32 : Json → Option Int := asInt (-2147483648) 2147483647

def asInt64 : Json → Option Int := asInt (-9223372036854775808) 9223372036854775807

/-- A choice spelled by its text, as a string or as the name of a single null member. -/
def asChoice (spell : α → String) (choices : List α) : Json → Option α
  | .string s => choices.find? (spell · == s)
  | .object [(s, .null)] => choices.find? (spell · == s)
  | _ => none

def asList (decode : Json → Option α) : Json → Option (List α)
  | .array vs => vs.mapM decode
  | _ => none

/-- An object all of whose members are of one kind. -/
def asTable (decode : Json → Option α) : Json → Option (Table String α)
  | .object ms => do
    let es ← ms.mapM fun m => (decode m.2).map fun v => (m.1, v)
    some (Table.ofList es)
  | _ => none

end Json
end Hosting
