/-!
Blanks, and cutting texts at them or at a separator.
-/

namespace Hosting
namespace Text

/-- The blank characters: those of Unicode's White_Space property. -/
def isBlank (c : Char) : Bool :=
  let n := c.toNat
  (0x9 ≤ n && n ≤ 0xD) || n == 0x20 || n == 0x85 || n == 0xA0 || n == 0x1680 ||
    (0x2000 ≤ n && n ≤ 0x200A) || n == 0x2028 || n == 0x2029 || n == 0x202F || n == 0x205F ||
    n == 0x3000

def trimStart (cs : List Char) : List Char := cs.dropWhile isBlank

def trimEnd (cs : List Char) : List Char := (cs.reverse.dropWhile isBlank).reverse

def trim (cs : List Char) : List Char := trimEnd (trimStart cs)

/-- The text without the blanks around it. -/
def trimmed (s : String) : String := String.ofList (trim s.toList)

/-- ASCII letters in lower case, every other character as it is. -/
def lower (c : Char) : Char :=
  if 'A' ≤ c && c ≤ 'Z' then Char.ofNat (c.toNat + 32) else c

/-- Equality up to the case of ASCII letters. -/
def sameLetters (a b : String) : Bool := a.toList.map lower == b.toList.map lower

/-- The text after a leading `p`. -/
def dropLeading? : List Char → List Char → Option (List Char)
  | [], cs => some cs
  | _ :: _, [] => none
  | p :: ps, c :: cs => if p = c then dropLeading? ps cs else none

/-- The text before a final `p`. -/
def dropTrailing? (p cs : List Char) : Option (List Char) :=
  (dropLeading? p.reverse cs.reverse).map List.reverse

/-- The pieces between the separators `c`; one piece when there is none. -/
def splitAt (c : Char) : List Char → List (List Char)
  | [] => [[]]
  | x :: xs =>
    if x = c then [] :: splitAt c xs
    else match splitAt c xs with
      | [] => [[x]]
      | p :: ps => (x :: p) :: ps

/-- The texts before and after the first `c`. -/
def cutAt? (c : Char) : List Char → Option (List Char × List Char)
  | [] => none
  | x :: xs => if x = c then some ([], xs) else (cutAt? c xs).map fun p => (x :: p.1, p.2)

/-- The texts joined, `sep` between each two. -/
def join (sep : String) : List String → String
  | [] => ""
  | [s] => s
  | s :: ss => s ++ sep ++ join sep ss

theorem dropLeading?_eq_some_iff {p cs r : List Char} :
    dropLeading? p cs = some r ↔ cs = p ++ r := by
  induction p generalizing cs with
  | nil => simp [dropLeading?, eq_comm]
  | cons x xs ih =>
    cases cs with
    | nil => simp [dropLeading?]
    | cons c cs =>
      unfold dropLeading?
      split
      · next h => simp [ih, h]
      · next h => simp [Ne.symm h]

theorem dropTrailing?_eq_some_iff {p cs r : List Char} :
    dropTrailing? p cs = some r ↔ cs = r ++ p := by
  unfold dropTrailing?
  rw [Option.map_eq_some_iff]
  constructor
  · rintro ⟨x, hx, rfl⟩
    rw [← List.reverse_reverse cs, dropLeading?_eq_some_iff.mp hx, List.reverse_append,
      List.reverse_reverse]
  · rintro rfl
    exact ⟨r.reverse, dropLeading?_eq_some_iff.mpr List.reverse_append, List.reverse_reverse r⟩

end Text
end Hosting
