import Hosting.Text.Utf8

/-!
# Octets and text

Octets are read as a text exactly when they are what the text is written as
(`decode_eq_ok_iff`).
-/

namespace Hosting
namespace Utf8

variable {b : UInt8} {bs rest r : Bytes} {c : Char} {cs : List Char} {n : Nat}

/-! ## Octets -/

theorem toUInt8_toNat (h : n = b.toNat) : n.toUInt8 = b := by
  rw [h]
  simp

theorem toNat_toUInt8 (h : n < 256) : n.toUInt8.toNat = n := by
  show n % 256 = n
  omega

theorem between_iff {lo hi b : UInt8} :
    (lo ≤ b && b ≤ hi) = true ↔ lo.toNat ≤ b.toNat ∧ b.toNat ≤ hi.toNat := by
  rw [Bool.and_eq_true, decide_eq_true_eq, decide_eq_true_eq, UInt8.le_iff_toNat_le,
    UInt8.le_iff_toNat_le]

theorem isContinuation_iff : isContinuation b = true ↔ 0x80 ≤ b.toNat ∧ b.toNat ≤ 0xBF :=
  between_iff

/-- The second octet is in the range that the first one admits. -/
def Follows (b b₁ : UInt8) : Prop :=
  0x80 ≤ b₁.toNat ∧ b₁.toNat ≤ 0xBF ∧ (b.toNat = 0xE0 → 0xA0 ≤ b₁.toNat) ∧
    (b.toNat = 0xED → b₁.toNat ≤ 0x9F) ∧ (b.toNat = 0xF0 → 0x90 ≤ b₁.toNat) ∧
    (b.toNat = 0xF4 → b₁.toNat ≤ 0x8F)

theorem second_cases (b : UInt8) :
    (b.toNat = 0xE0 ∧ second b = (0xA0, 0xBF)) ∨ (b.toNat = 0xED ∧ second b = (0x80, 0x9F)) ∨
      (b.toNat = 0xF0 ∧ second b = (0x90, 0xBF)) ∨ (b.toNat = 0xF4 ∧ second b = (0x80, 0x8F)) ∨
      (b.toNat ≠ 0xE0 ∧ b.toNat ≠ 0xED ∧ b.toNat ≠ 0xF0 ∧ b.toNat ≠ 0xF4 ∧
        second b = (0x80, 0xBF)) := by
  have hoctet (k : UInt8) : (b == k) = true ↔ b.toNat = k.toNat := by
    rw [beq_iff_eq, UInt8.toNat_inj]
  unfold second
  simp only [hoctet]
  by_cases h1 : b.toNat = (0xE0 : UInt8).toNat
  · exact Or.inl ⟨h1, if_pos h1⟩
  by_cases h2 : b.toNat = (0xED : UInt8).toNat
  · exact Or.inr (Or.inl ⟨h2, by rw [if_neg h1, if_pos h2]⟩)
  by_cases h3 : b.toNat = (0xF0 : UInt8).toNat
  · exact Or.inr (Or.inr (Or.inl ⟨h3, by rw [if_neg h1, if_neg h2, if_pos h3]⟩))
  by_cases h4 : b.toNat = (0xF4 : UInt8).toNat
  · exact Or.inr (Or.inr (Or.inr (Or.inl ⟨h4, by
      rw [if_neg h1, if_neg h2, if_neg h3, if_pos h4]⟩)))
  exact Or.inr (Or.inr (Or.inr (Or.inr ⟨h1, h2, h3, h4, by
    rw [if_neg h1, if_neg h2, if_neg h3, if_neg h4]⟩)))

theorem follows_iff {b b₁ : UInt8} :
    ((second b).1 ≤ b₁ && b₁ ≤ (second b).2) = true ↔ Follows b b₁ := by
  rw [between_iff, Follows]
  rcases second_cases b with ⟨hb, hs⟩ | ⟨hb, hs⟩ | ⟨hb, hs⟩ | ⟨hb, hs⟩ | ⟨h1, h2, h3, h4, hs⟩ <;>
  · rw [hs]
    simp
    omega

/-! ## Characters -/

theorem valid_toNat (c : Char) : c.toNat < 0xD800 ∨ 0xDFFF < c.toNat ∧ c.toNat < 0x110000 := c.valid

theorem toNat_ofNat (h : n < 0xD800 ∨ 0xDFFF < n ∧ n < 0x110000) : (Char.ofNat n).toNat = n := by
  have hvalid : n.isValidChar := h
  rw [Char.ofNat, dif_pos hvalid]
  rfl

/-- The octets of a character, by the number of them. -/
inductive Written (c : Char) : Bytes → Prop where
  | one {b : UInt8} (hb : b.toNat < 0x80) (hc : c.toNat = b.toNat) : Written c [b]
  | two {b b₁ : UInt8} (hb : 0xC2 ≤ b.toNat ∧ b.toNat ≤ 0xDF)
      (hb₁ : 0x80 ≤ b₁.toNat ∧ b₁.toNat ≤ 0xBF)
      (hc : c.toNat = (b.toNat - 0xC0) * 64 + (b₁.toNat - 0x80)) : Written c [b, b₁]
  | three {b b₁ b₂ : UInt8} (hb : 0xE0 ≤ b.toNat ∧ b.toNat ≤ 0xEF) (hb₁ : Follows b b₁)
      (hb₂ : 0x80 ≤ b₂.toNat ∧ b₂.toNat ≤ 0xBF)
      (hc : c.toNat = ((b.toNat - 0xE0) * 64 + (b₁.toNat - 0x80)) * 64 + (b₂.toNat - 0x80)) :
    Written c [b, b₁, b₂]
  | four {b b₁ b₂ b₃ : UInt8} (hb : 0xF0 ≤ b.toNat ∧ b.toNat ≤ 0xF4) (hb₁ : Follows b b₁)
      (hb₂ : 0x80 ≤ b₂.toNat ∧ b₂.toNat ≤ 0xBF) (hb₃ : 0x80 ≤ b₃.toNat ∧ b₃.toNat ≤ 0xBF)
      (hc : c.toNat = (((b.toNat - 0xF0) * 64 + (b₁.toNat - 0x80)) * 64 + (b₂.toNat - 0x80)) * 64 +
        (b₃.toNat - 0x80)) : Written c [b, b₁, b₂, b₃]

theorem encodeChar_of_written (h : Written c bs) : encodeChar c = bs := by
  unfold encodeChar
  dsimp only
  cases h with
  | one hb hc => rw [if_pos (by omega), toUInt8_toNat hc]
  | @two b b₁ hb hb₁ hc =>
    have h0 : (0xC0 + c.toNat / 64).toUInt8 = b := toUInt8_toNat (by omega)
    have h1 : (0x80 + c.toNat % 64).toUInt8 = b₁ := toUInt8_toNat (by omega)
    rw [if_neg (by omega), if_pos (by omega), h0, h1]
  | @three b b₁ b₂ hb hb₁ hb₂ hc =>
    unfold Follows at hb₁
    have h0 : (0xE0 + c.toNat / 4096).toUInt8 = b := toUInt8_toNat (by omega)
    have h1 : (0x80 + c.toNat / 64 % 64).toUInt8 = b₁ := toUInt8_toNat (by omega)
    have h2 : (0x80 + c.toNat % 64).toUInt8 = b₂ := toUInt8_toNat (by omega)
    rw [if_neg (by omega), if_neg (by omega), if_pos (by omega), h0, h1, h2]
  | @four b b₁ b₂ b₃ hb hb₁ hb₂ hb₃ hc =>
    unfold Follows at hb₁
    have h0 : (0xF0 + c.toNat / 262144).toUInt8 = b := toUInt8_toNat (by omega)
    have h1 : (0x80 + c.toNat / 4096 % 64).toUInt8 = b₁ := toUInt8_toNat (by omega)
    have h2 : (0x80 + c.toNat / 64 % 64).toUInt8 = b₂ := toUInt8_toNat (by omega)
    have h3 : (0x80 + c.toNat % 64).toUInt8 = b₃ := toUInt8_toNat (by omega)
    rw [if_neg (by omega), if_neg (by omega), if_neg (by omega), h0, h1, h2, h3]

theorem written_encodeChar (c : Char) : Written c (encodeChar c) := by
  have hvalid := valid_toNat c
  unfold encodeChar
  dsimp only
  generalize hn : c.toNat = n at hvalid
  by_cases h1 : n < 0x80
  · rw [if_pos h1]
    have hb : n.toUInt8.toNat = n := toNat_toUInt8 (by omega)
    exact .one (by omega) (by omega)
  rw [if_neg h1]
  by_cases h2 : n < 0x800
  · rw [if_pos h2]
    have hb : (0xC0 + n / 64).toUInt8.toNat = 0xC0 + n / 64 := toNat_toUInt8 (by omega)
    have hb₁ : (0x80 + n % 64).toUInt8.toNat = 0x80 + n % 64 := toNat_toUInt8 (by omega)
    exact .two (by omega) (by omega) (by omega)
  rw [if_neg h2]
  by_cases h3 : n < 0x10000
  · rw [if_pos h3]
    have hb : (0xE0 + n / 4096).toUInt8.toNat = 0xE0 + n / 4096 := toNat_toUInt8 (by omega)
    have hb₁ : (0x80 + n / 64 % 64).toUInt8.toNat = 0x80 + n / 64 % 64 := toNat_toUInt8 (by omega)
    have hb₂ : (0x80 + n % 64).toUInt8.toNat = 0x80 + n % 64 := toNat_toUInt8 (by omega)
    exact .three (by omega) (by unfold Follows; omega) (by omega) (by omega)
  rw [if_neg h3]
  have hb : (0xF0 + n / 262144).toUInt8.toNat = 0xF0 + n / 262144 := toNat_toUInt8 (by omega)
  have hb₁ : (0x80 + n / 4096 % 64).toUInt8.toNat = 0x80 + n / 4096 % 64 :=
    toNat_toUInt8 (by omega)
  have hb₂ : (0x80 + n / 64 % 64).toUInt8.toNat = 0x80 + n / 64 % 64 := toNat_toUInt8 (by omega)
  have hb₃ : (0x80 + n % 64).toUInt8.toNat = 0x80 + n % 64 := toNat_toUInt8 (by omega)
  exact .four (by omega) (by unfold Follows; omega) (by omega) (by omega) (by omega)

/-! ## Reading a character -/

theorem not_lt_of_toNat {k : UInt8} (h : k.toNat ≤ b.toNat) : ¬b < k := fun hlt =>
  Nat.not_lt_of_le h (UInt8.lt_iff_toNat_lt.mp hlt)

theorem not_between {lo hi : UInt8} (h : hi.toNat < b.toNat) : ¬(lo ≤ b && b ≤ hi) = true :=
  fun hb => Nat.not_lt_of_le (between_iff.mp hb).2 h

theorem toNat_two {b₁ : UInt8} (hb : 0xC2 ≤ b.toNat ∧ b.toNat ≤ 0xDF)
    (hb₁ : 0x80 ≤ b₁.toNat ∧ b₁.toNat ≤ 0xBF) :
    (Char.ofNat (b.toNat % 32 * 64 + low b₁)).toNat =
      (b.toNat - 0xC0) * 64 + (b₁.toNat - 0x80) := by
  unfold low
  rw [toNat_ofNat (by omega)]
  omega

theorem toNat_three {b₁ b₂ : UInt8} (hb : 0xE0 ≤ b.toNat ∧ b.toNat ≤ 0xEF) (hb₁ : Follows b b₁)
    (hb₂ : 0x80 ≤ b₂.toNat ∧ b₂.toNat ≤ 0xBF) :
    (Char.ofNat ((b.toNat % 16 * 64 + low b₁) * 64 + low b₂)).toNat =
      ((b.toNat - 0xE0) * 64 + (b₁.toNat - 0x80)) * 64 + (b₂.toNat - 0x80) := by
  unfold Follows at hb₁
  unfold low
  rw [toNat_ofNat (by omega)]
  omega

theorem toNat_four {b₁ b₂ b₃ : UInt8} (hb : 0xF0 ≤ b.toNat ∧ b.toNat ≤ 0xF4) (hb₁ : Follows b b₁)
    (hb₂ : 0x80 ≤ b₂.toNat ∧ b₂.toNat ≤ 0xBF) (hb₃ : 0x80 ≤ b₃.toNat ∧ b₃.toNat ≤ 0xBF) :
    (Char.ofNat (((b.toNat % 8 * 64 + low b₁) * 64 + low b₂) * 64 + low b₃)).toNat =
      (((b.toNat - 0xF0) * 64 + (b₁.toNat - 0x80)) * 64 + (b₂.toNat - 0x80)) * 64 +
        (b₃.toNat - 0x80) := by
  unfold Follows at hb₁
  unfold low
  rw [toNat_ofNat (by omega)]
  omega

theorem head_of_written (h : Written c bs) (r : Bytes) :
    ∃ b rest, bs ++ r = b :: rest ∧ head b rest = .char c r := by
  cases h with
  | @one b hb hc =>
    refine ⟨b, r, rfl, ?_⟩
    have h0 : b < 0x80 := UInt8.lt_iff_toNat_lt.mpr hb
    unfold head
    rw [if_pos h0, ← hc, Char.ofNat_toNat]
  | @two b b₁ hb hb₁ hc =>
    refine ⟨b, b₁ :: r, rfl, ?_⟩
    have h0 : ¬b < 0x80 := not_lt_of_toNat (Nat.le_trans (by decide) hb.1)
    have h1 : (0xC2 ≤ b && b ≤ 0xDF) = true := between_iff.mpr hb
    have hb₁' : isContinuation b₁ = true := isContinuation_iff.mpr hb₁
    have hchar := Char.toNat_inj.mp ((toNat_two hb hb₁).trans hc.symm)
    unfold head
    rw [if_neg h0, if_pos h1]
    dsimp only
    rw [if_pos hb₁', hchar]
  | @three b b₁ b₂ hb hb₁ hb₂ hc =>
    refine ⟨b, b₁ :: b₂ :: r, rfl, ?_⟩
    have h0 : ¬b < 0x80 := not_lt_of_toNat (Nat.le_trans (by decide) hb.1)
    have h1 : ¬(0xC2 ≤ b && b ≤ 0xDF) = true := not_between (Nat.lt_of_lt_of_le (by decide) hb.1)
    have h2 : (0xE0 ≤ b && b ≤ 0xEF) = true := between_iff.mpr hb
    have hb₁' := follows_iff.mpr hb₁
    have hb₂' : isContinuation b₂ = true := isContinuation_iff.mpr hb₂
    have hchar := Char.toNat_inj.mp ((toNat_three hb hb₁ hb₂).trans hc.symm)
    unfold head
    rw [if_neg h0, if_neg h1, if_pos h2]
    dsimp only
    rw [if_pos hb₁', if_pos hb₂', hchar]
  | @four b b₁ b₂ b₃ hb hb₁ hb₂ hb₃ hc =>
    refine ⟨b, b₁ :: b₂ :: b₃ :: r, rfl, ?_⟩
    have h0 : ¬b < 0x80 := not_lt_of_toNat (Nat.le_trans (by decide) hb.1)
    have h1 : ¬(0xC2 ≤ b && b ≤ 0xDF) = true := not_between (Nat.lt_of_lt_of_le (by decide) hb.1)
    have h2 : ¬(0xE0 ≤ b && b ≤ 0xEF) = true := not_between (Nat.lt_of_lt_of_le (by decide) hb.1)
    have h3 : (0xF0 ≤ b && b ≤ 0xF4) = true := between_iff.mpr hb
    have hb₁' := follows_iff.mpr hb₁
    have hb₂' : isContinuation b₂ = true := isContinuation_iff.mpr hb₂
    have hb₃' : isContinuation b₃ = true := isContinuation_iff.mpr hb₃
    have hchar := Char.toNat_inj.mp ((toNat_four hb hb₁ hb₂ hb₃).trans hc.symm)
    unfold head
    rw [if_neg h0, if_neg h1, if_neg h2, if_pos h3]
    dsimp only
    rw [if_pos hb₁', if_pos hb₂', if_pos hb₃', hchar]

theorem written_of_head (h : head b rest = .char c r) :
    ∃ bs, Written c bs ∧ b :: rest = bs ++ r := by
  revert h
  -- only four of the ways to read an octet give a character
  fun_cases head b rest with
  | case1 rest h0 =>
    intro h
    cases h
    have hb : b.toNat < 0x80 := UInt8.lt_iff_toNat_lt.mp h0
    exact ⟨[b], .one hb (toNat_ofNat (by omega)), rfl⟩
  | case3 _ h1 b₁ rest hb₁ =>
    intro h
    cases h
    have hb := between_iff.mp h1
    have hb₁ := isContinuation_iff.mp hb₁
    exact ⟨[b, b₁], .two hb hb₁ (toNat_two hb hb₁), rfl⟩
  | case7 _ _ h2 b₁ hb₁ b₂ rest hb₂ =>
    intro h
    cases h
    have hb := between_iff.mp h2
    have hb₁ := follows_iff.mp hb₁
    have hb₂ := isContinuation_iff.mp hb₂
    exact ⟨[b, b₁, b₂], .three hb hb₁ hb₂ (toNat_three hb hb₁ hb₂), rfl⟩
  | case13 _ _ _ h3 b₁ hb₁ b₂ hb₂ b₃ rest hb₃ =>
    intro h
    cases h
    have hb := between_iff.mp h3
    have hb₁ := follows_iff.mp hb₁
    have hb₂ := isContinuation_iff.mp hb₂
    have hb₃ := isContinuation_iff.mp hb₃
    exact ⟨[b, b₁, b₂, b₃], .four hb hb₁ hb₂ hb₃ (toNat_four hb hb₁ hb₂ hb₃), rfl⟩
  | _ =>
    intro h
    cases h

theorem encodeChar_of_head (h : head b rest = .char c r) : encodeChar c ++ r = b :: rest := by
  obtain ⟨bs, hbs, hsplit⟩ := written_of_head h
  rw [hsplit, encodeChar_of_written hbs]

/-! ## Reading a text -/

theorem encode_of_decodeFrom {index : Nat} (h : decodeFrom index bs = .ok cs) :
    encode cs = bs := by
  fun_induction decodeFrom index bs generalizing cs with
  | case1 index =>
    cases h
    rfl
  | case2 index b rest c r hhead ih =>
    cases hrest : decodeFrom (index + (1 + rest.length - r.length)) r with
    | error f =>
      rw [hrest] at h
      cases h
    | ok cs' =>
      rw [hrest] at h
      cases h
      rw [← encodeChar_of_head hhead, ← ih hrest]
      rfl
  | case3 | case4 => cases h

theorem decodeFrom_encode (index : Nat) (cs : List Char) :
    decodeFrom index (encode cs) = .ok cs := by
  induction cs generalizing index with
  | nil =>
    rw [encode, List.flatMap_nil, decodeFrom]
  | cons c cs ih =>
    obtain ⟨b, rest, hsplit, hhead⟩ := head_of_written (written_encodeChar c) (encode cs)
    have hencode : encode (c :: cs) = b :: rest := hsplit
    rw [hencode, decodeFrom]
    split
    · next c' r' hhead' =>
      rw [hhead, Head.char.injEq] at hhead'
      rw [← hhead'.1, ← hhead'.2, ih]
      rfl
    · next hbad =>
      rw [hhead] at hbad
      cases hbad
    · next hcut =>
      rw [hhead] at hcut
      cases hcut

/-- Octets are read as the one text that is written so. -/
theorem decode_eq_ok_iff : decode bs = .ok cs ↔ encode cs = bs := by
  constructor
  · exact encode_of_decodeFrom
  · rintro rfl
    exact decodeFrom_encode 0 cs

end Utf8
end Hosting
