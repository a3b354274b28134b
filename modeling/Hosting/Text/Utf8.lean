/-!
Characters as octets.  Reading tells how many octets are at fault and where, or puts a mark
in the place of each stretch that belongs to no character.
-/

namespace Hosting

/-- A sequence of octets. -/
abbrev Bytes := List UInt8

namespace Utf8

/-- How a sequence of octets fails to be text: from `index` on, `length` octets
start no character, or the sequence ends within one. -/
inductive Fault where
  | invalid (length index : Nat)
  | incomplete (index : Nat)
  deriving DecidableEq, Repr

def Fault.message : Fault → String
  | .invalid n i => s!"invalid utf-8 sequence of {n} bytes from index {i}"
  | .incomplete i => s!"incomplete utf-8 byte sequence from index {i}"

/-- What the octets begin with: a character and the octets after it, octets that
belong to none and the octets after those, or a character cut off by the end. -/
inductive Head where
  | char (c : Char) (rest : Bytes)
  | bad (length : Nat) (rest : Bytes)
  | cut
  deriving DecidableEq

def isContinuation (b : UInt8) : Bool := 0x80 ≤ b && b ≤ 0xBF

/-- The range of the second octet that the first one admits. -/
def second (b : UInt8) : UInt8 × UInt8 :=
  if b == 0xE0 then (0xA0, 0xBF)
  else if b == 0xED then (0x80, 0x9F)
  else if b == 0xF0 then (0x90, 0xBF)
  else if b == 0xF4 then (0x80, 0x8F)
  else (0x80, 0xBF)

def low (b : UInt8) : Nat := b.toNat % 64

/-- The first character of a non-empty sequence. -/
def head (b : UInt8) (rest : Bytes) : Head :=
  if b < 0x80 then .char (Char.ofNat b.toNat) rest
  else if 0xC2 ≤ b && b ≤ 0xDF then
    match rest with
    | [] => .cut
    | b₁ :: rest₁ =>
      if isContinuation b₁ then .char (Char.ofNat (b.toNat % 32 * 64 + low b₁)) rest₁
      else .bad 1 rest
  else if 0xE0 ≤ b && b ≤ 0xEF then
    match rest with
    | [] => .cut
    | b₁ :: rest₁ =>
      if (second b).1 ≤ b₁ && b₁ ≤ (second b).2 then
        match rest₁ with
        | [] => .cut
        | b₂ :: rest₂ =>
          if isContinuation b₂ then
            .char (Char.ofNat ((b.toNat % 16 * 64 + low b₁) * 64 + low b₂)) rest₂
          else .bad 2 rest₁
      else .bad 1 rest
  else if 0xF0 ≤ b && b ≤ 0xF4 then
    match rest with
    | [] => .cut
    | b₁ :: rest₁ =>
      if (second b).1 ≤ b₁ && b₁ ≤ (second b).2 then
        match rest₁ with
        | [] => .cut
        | b₂ :: rest₂ =>
          if isContinuation b₂ then
            match rest₂ with
            | [] => .cut
            | b₃ :: rest₃ =>
              if isContinuation b₃ then
                .char (Char.ofNat
                  (((b.toNat % 8 * 64 + low b₁) * 64 + low b₂) * 64 + low b₃)) rest₃
              else .bad 3 rest₂
          else .bad 2 rest₁
      else .bad 1 rest
  else .bad 1 rest

theorem length_of_head_char {b : UInt8} {rest r : Bytes} {c : Char} (h : head b rest = .char c r) :
    r.length ≤ rest.length := by
  unfold head at h
  repeat' split at h
  all_goals first
    | contradiction
    | (injection h with _ h; subst h; simp [*]; try omega)

theorem length_of_head_bad {b : UInt8} {rest r : Bytes} {n : Nat} (h : head b rest = .bad n r) :
    r.length ≤ rest.length := by
  unfold head at h
  repeat' split at h
  all_goals first
    | contradiction
    | (injection h with _ h; subst h; simp [*]; try omega)

/-- The text of the octets from `index` on, or the first fault. -/
def decodeFrom (index : Nat) (bs : Bytes) : Except Fault (List Char) :=
  match bs with
  | [] => .ok []
  | b :: rest =>
    match h : head b rest with
    | .char c r => do
      let cs ← decodeFrom (index + (1 + rest.length - r.length)) r
      .ok (c :: cs)
    | .bad n _ => .error (.invalid n index)
    | .cut => .error (.incomplete index)
termination_by bs.length
decreasing_by have := length_of_head_char h; simp; omega

def decode (bs : Bytes) : Except Fault (List Char) := decodeFrom 0 bs

/-- The text of the octets, U+FFFD for each stretch that belongs to no character. -/
def decodeLossy (bs : Bytes) : List Char :=
  match bs with
  | [] => []
  | b :: rest =>
    match h : head b rest with
    | .char c r =>
      have := length_of_head_char h
      c :: decodeLossy r
    | .bad _ r =>
      have := length_of_head_bad h
      '\uFFFD' :: decodeLossy r
    | .cut => ['\uFFFD']
termination_by bs.length
decreasing_by all_goals simp; omega

def encodeChar (c : Char) : Bytes :=
  let n := c.toNat
  if n < 0x80 then [n.toUInt8]
  else if n < 0x800 then [(0xC0 + n / 64).toUInt8, (0x80 + n % 64).toUInt8]
  else if n < 0x10000 then
    [(0xE0 + n / 4096).toUInt8, (0x80 + n / 64 % 64).toUInt8, (0x80 + n % 64).toUInt8]
  else
    [(0xF0 + n / 262144).toUInt8, (0x80 + n / 4096 % 64).toUInt8, (0x80 + n / 64 % 64).toUInt8,
      (0x80 + n % 64).toUInt8]

def encode (cs : List Char) : Bytes := cs.flatMap encodeChar

end Utf8
end Hosting
