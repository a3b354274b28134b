import Hosting.Text.Blank
import Hosting.Text.Numeral
import Mathlib.Algebra.Group.Nat.Defs
import Mathlib.Data.List.TakeWhile

/-!
# Numerals are read back

What is written of a number in some base, with or without zeros in front, is read as this number
(`digits?_toDigits`).  A decimal number that may not be too large is read from exactly its numerals
(`natural?_eq_some_iff`), of which the written one is the one without blanks, zeros and sign.
-/

namespace Hosting
namespace Text

/-! ## Any base -/

theorem digitsFrom?_append (b n : Nat) (cs ds : List Char) :
    digitsFrom? b n (cs ++ ds) = (digitsFrom? b n cs).bind fun m => digitsFrom? b m ds := by
  induction cs generalizing n with
  | nil => rfl
  | cons c cs ih =>
    rw [List.cons_append, digitsFrom?, digitsFrom?]
    cases digit? c with
    | none => rfl
    | some d =>
      simp only [Option.bind_eq_bind, Option.bind_some]
      split
      · exact ih (n * b + d)
      · rfl

theorem digitsFrom?_zeros {b : Nat} (hb : 1 < b) (m : Nat) (ds : List Char) :
    digitsFrom? b 0 (List.replicate m '0' ++ ds) = digitsFrom? b 0 ds := by
  induction m with
  | zero => rfl
  | succ m ih =>
    have hzero : digit? '0' = some 0 := rfl
    have hpos : 0 < b := by omega
    rw [List.replicate_succ, List.cons_append, digitsFrom?, hzero]
    simpa [hpos] using ih

theorem toDigits_ne_nil (b width n : Nat) : toDigits b width n ≠ [] := by
  simp [toDigits]

theorem exists_digitChar_of_mem_toDigits {b width n : Nat} {c : Char} (hb : 1 < b)
    (h : c ∈ toDigits b width n) : ∃ d < b, c = Nat.digitChar d := by
  rcases List.mem_append.mp h with h | h
  · exact ⟨0, by omega, (List.mem_replicate.mp h).2⟩
  · induction n using Nat.strongRecOn with
    | ind n ih =>
      by_cases hn : n < b
      · rw [Nat.toDigits_of_lt_base hn, List.mem_singleton] at h
        exact ⟨n, hn, h⟩
      · rw [Nat.toDigits_of_base_le hb (by omega), List.mem_append, List.mem_singleton] at h
        rcases h with h | h
        · exact ih (n / b) (Nat.div_lt_self (by omega) hb) (List.mem_append_right _ h) h
        · exact ⟨n % b, Nat.mod_lt n (by omega), h⟩

section

variable {b : Nat} (hb : 1 < b) (hb' : b ≤ 16)

include hb'

theorem digit?_digitChar {d : Nat} (h : d < b) : digit? (Nat.digitChar d) = some d := by
  have hdigit : ∀ e < 16, digit? (Nat.digitChar e) = some e := by decide
  exact hdigit d (by omega)

theorem digitsFrom?_digitChar (n : Nat) {d : Nat} (h : d < b) :
    digitsFrom? b n [Nat.digitChar d] = some (n * b + d) := by
  rw [digitsFrom?, digit?_digitChar hb' h]
  simp only [Option.bind_eq_bind, Option.bind_some, if_pos h]
  rfl

include hb

theorem digitsFrom?_toDigits (n : Nat) : digitsFrom? b 0 (Nat.toDigits b n) = some n := by
  induction n using Nat.strongRecOn with
  | ind n ih =>
    by_cases h : n < b
    · rw [Nat.toDigits_of_lt_base h, digitsFrom?_digitChar hb' 0 h, Nat.zero_mul, Nat.zero_add]
    · have hless : n / b < n := Nat.div_lt_self (by omega) hb
      rw [Nat.toDigits_of_base_le hb (by omega), digitsFrom?_append, ih (n / b) hless,
        Option.bind_some, digitsFrom?_digitChar hb' _ (Nat.mod_lt n (by omega)), Nat.div_add_mod']

theorem isSome_digit_of_mem_toDigits {width n : Nat} {c : Char} (h : c ∈ toDigits b width n) :
    (digits? b [c]).isSome = true := by
  obtain ⟨d, hd, rfl⟩ := exists_digitChar_of_mem_toDigits hb h
  show (digitsFrom? b 0 [Nat.digitChar d]).isSome = true
  rw [digitsFrom?_digitChar hb' 0 hd]
  rfl

theorem digits?_toDigits_of_base (width n : Nat) : digits? b (toDigits b width n) = some n := by
  have hread : digitsFrom? b 0 (toDigits b width n) = some n := by
    unfold toDigits
    rw [digitsFrom?_zeros hb, digitsFrom?_toDigits hb hb']
  cases hds : toDigits b width n with
  | nil => exact absurd hds (toDigits_ne_nil b width n)
  | cons c cs =>
    rw [hds] at hread
    exact hread

end

/-- The case of its letters does not matter to a numeral. -/
theorem digitsFrom?_map_toUpper {b : Nat} {ds : List Char}
    (h : ∀ c ∈ ds, ∃ d < 16, c = Nat.digitChar d) (n : Nat) :
    digitsFrom? b n (ds.map Char.toUpper) = digitsFrom? b n ds := by
  induction ds generalizing n with
  | nil => rfl
  | cons c ds ih =>
    obtain ⟨d, hd, rfl⟩ := h c List.mem_cons_self
    have hupper : ∀ e < 16, digit? (Nat.digitChar e).toUpper = digit? (Nat.digitChar e) := by decide
    rw [List.map_cons, digitsFrom?, digitsFrom?, hupper d hd]
    simp only [ih fun x hx => h x (List.mem_cons_of_mem _ hx)]

/-! ## Base ten -/

theorem isDigit_iff {c : Char} : isDigit c = true ↔ 48 ≤ c.toNat ∧ c.toNat ≤ 57 := by
  unfold isDigit
  rw [Bool.and_eq_true, decide_eq_true_eq, decide_eq_true_eq]
  rfl

theorem isBlank_of_isDigit {c : Char} (h : isDigit c = true) : isBlank c = false := by
  have hrange := isDigit_iff.mp h
  simp [isBlank]
  omega

theorem digit?_of_isDigit {c : Char} (h : isDigit c = true) : digit? c = some (c.toNat - 48) := by
  unfold digit?
  unfold isDigit at h
  rw [Bool.and_eq_true, decide_eq_true_eq, decide_eq_true_eq] at h
  simp [h]

theorem digitsFrom?_of_isDigit {ds : List Char} (h : ∀ c ∈ ds, isDigit c = true) (n : Nat) :
    digitsFrom? 10 n ds = some (Nat.ofDigitChars 10 ds n) := by
  induction ds generalizing n with
  | nil => rfl
  | cons c ds ih =>
    have hc := h c List.mem_cons_self
    have hrange := isDigit_iff.mp hc
    have hsmall : c.toNat - 48 < 10 := by omega
    unfold digitsFrom?
    simp only [digit?_of_isDigit hc, Option.bind_eq_bind, Option.bind_some, if_pos hsmall]
    rw [ih (fun x hx => h x (List.mem_cons_of_mem c hx)), Nat.ofDigitChars_cons, Nat.mul_comm]
    rfl

theorem isDigit_of_mem_toDigits {width n : Nat} {c : Char} (h : c ∈ toDigits 10 width n) :
    isDigit c = true := by
  rcases List.mem_append.mp h with h | h
  · rw [(List.mem_replicate.mp h).2]
    rfl
  · exact Nat.isDigit_of_mem_toDigits (by omega) (by omega) h

/-- Padded or not, a numeral is read as its number. -/
theorem digits?_toDigits (width n : Nat) : digits? 10 (toDigits 10 width n) = some n :=
  digits?_toDigits_of_base (by decide) (by decide) width n

theorem length_toDigits {width n : Nat} (hw : 0 < width) (h : n < 10 ^ width) :
    (toDigits 10 width n).length = width := by
  have hle := (Nat.length_toDigits_le_iff (by omega) hw).mpr h
  unfold toDigits
  rw [List.length_append, List.length_replicate]
  omega

theorem takeWhile_toDigits (width n : Nat) (r : List Char) :
    (toDigits 10 width n ++ r).takeWhile isDigit = toDigits 10 width n ++ r.takeWhile isDigit :=
  List.takeWhile_append_of_pos fun _ => isDigit_of_mem_toDigits

theorem trimStart_cons {c : Char} (h : isBlank c = false) (cs : List Char) :
    trimStart (c :: cs) = c :: cs := by
  simp [trimStart, h]

theorem exists_toDigits_eq_cons (width n : Nat) :
    ∃ c cs, toDigits 10 width n = c :: cs ∧ isDigit c = true := by
  cases hds : toDigits 10 width n with
  | nil => exact absurd hds (toDigits_ne_nil 10 width n)
  | cons c cs =>
    have hc : c ∈ toDigits 10 width n := by
      rw [hds]
      exact List.mem_cons_self
    exact ⟨c, cs, rfl, isDigit_of_mem_toDigits hc⟩

theorem trimStart_toDigits (width n : Nat) (r : List Char) :
    trimStart (toDigits 10 width n ++ r) = toDigits 10 width n ++ r := by
  obtain ⟨c, cs, hds, hc⟩ := exists_toDigits_eq_cons width n
  rw [hds]
  exact trimStart_cons (isBlank_of_isDigit hc) (cs ++ r)

theorem digitsFrom?_lt {ds : List Char} {n m : Nat} (h : digitsFrom? 10 n ds = some m) :
    m < (n + 1) * 10 ^ ds.length := by
  induction ds generalizing n with
  | nil =>
    cases h
    simp
  | cons c ds ih =>
    obtain ⟨d, -, h⟩ := Option.bind_eq_some_iff.mp h
    split at h
    · next hd =>
      have hlt := ih h
      rw [List.length_cons, Nat.pow_succ, Nat.mul_comm _ 10, ← Nat.mul_assoc]
      refine Nat.lt_of_lt_of_le hlt (Nat.mul_le_mul_right _ ?_)
      omega
    · cases h

theorem digits?_lt {ds : List Char} {n : Nat} (h : digits? 10 ds = some n) :
    n < 10 ^ ds.length := by
  cases ds with
  | nil => cases h
  | cons c ds =>
    have hlt := digitsFrom?_lt h
    rwa [Nat.zero_add, Nat.one_mul] at hlt


theorem isDigit_of_digit? {c : Char} {d : Nat} (h : digit? c = some d) (hd : d < 10) :
    isDigit c = true := by
  have hlower : ('a' ≤ c) = (97 ≤ c.toNat) := rfl
  have hupper : ('A' ≤ c) = (65 ≤ c.toNat) := rfl
  unfold digit? at h
  split at h
  · next hc => exact hc
  · split at h
    · next hc =>
      simp only [hlower, Bool.and_eq_true, decide_eq_true_eq] at hc
      have := Option.some.inj h
      omega
    · split at h
      · next hc =>
        simp only [hupper, Bool.and_eq_true, decide_eq_true_eq] at hc
        have := Option.some.inj h
        omega
      · cases h

theorem isDigit_of_digitsFrom? {ds : List Char} {n m : Nat} (h : digitsFrom? 10 n ds = some m) :
    ∀ c ∈ ds, isDigit c = true := by
  induction ds generalizing n with
  | nil =>
    intro c hc
    cases hc
  | cons c ds ih =>
    obtain ⟨d, hd, h⟩ := Option.bind_eq_some_iff.mp h
    split at h
    · next hsmall =>
      intro x hx
      rcases List.mem_cons.mp hx with rfl | hx
      · exact isDigit_of_digit? hd hsmall
      · exact ih h x hx
    · cases h

theorem digits?_eq_some_iff {ds : List Char} {n : Nat} : digits? 10 ds = some n ↔
    ds ≠ [] ∧ (∀ c ∈ ds, isDigit c = true) ∧ Nat.ofDigitChars 10 ds 0 = n := by
  cases ds with
  | nil => simp [digits?]
  | cons c ds =>
    show digitsFrom? 10 0 (c :: ds) = some n ↔ _
    constructor
    · intro h
      have hdigits := isDigit_of_digitsFrom? h
      rw [digitsFrom?_of_isDigit hdigits, Option.some.injEq] at h
      exact ⟨List.cons_ne_nil c ds, hdigits, h⟩
    · rintro ⟨-, hdigits, rfl⟩
      exact digitsFrom?_of_isDigit hdigits 0

/-! ## Numbers with a bound -/

/-- The text has nothing but digits, after one optional `+`, and they make the number `n`. -/
def IsNumeral (cs : List Char) (n : Nat) : Prop :=
  ∃ ds, (cs = ds ∨ cs = '+' :: ds) ∧ ds ≠ [] ∧ (∀ c ∈ ds, isDigit c = true) ∧
    Nat.ofDigitChars 10 ds 0 = n

variable {cs : List Char} {n max : Nat}

theorem natural?_plus (max : Nat) (ds : List Char) :
    natural? max ('+' :: ds) = (digits? 10 ds).filter (· ≤ max) := by
  cases h : digits? 10 ds <;> simp [natural?, h, Option.filter]

theorem natural?_of_ne_plus (h : ∀ ds, cs ≠ '+' :: ds) (max : Nat) :
    natural? max cs = (digits? 10 cs).filter (· ≤ max) := by
  unfold natural?
  split
  · next ds => exact absurd rfl (h ds)
  · cases hds : digits? 10 cs <;> simp [Option.filter]

/-- A number that must not be too large is read from its numerals, and from nothing else. -/
theorem natural?_eq_some_iff : natural? max cs = some n ↔ IsNumeral cs n ∧ n ≤ max := by
  by_cases hplus : ∃ ds, cs = '+' :: ds
  · obtain ⟨ds, rfl⟩ := hplus
    rw [natural?_plus, Option.filter_eq_some_iff, digits?_eq_some_iff, decide_eq_true_eq]
    refine and_congr_left fun _ => ⟨fun h => ⟨ds, Or.inr rfl, h⟩, ?_⟩
    rintro ⟨ds', heq | heq, h⟩
    · have hdigit : isDigit '+' = true := h.2.1 '+' (heq ▸ List.mem_cons_self)
      cases hdigit
    · rw [(List.cons.inj heq).2]
      exact h
  · rw [natural?_of_ne_plus fun ds hds => hplus ⟨ds, hds⟩, Option.filter_eq_some_iff,
      digits?_eq_some_iff, decide_eq_true_eq]
    refine and_congr_left fun _ => ⟨fun h => ⟨cs, Or.inl rfl, h⟩, ?_⟩
    rintro ⟨ds, rfl | heq, h⟩
    · exact h
    · exact absurd ⟨ds, heq⟩ hplus

theorem IsNumeral.unique {m : Nat} (hn : IsNumeral cs n) (hm : IsNumeral cs m) : n = m := by
  have hread : natural? (Nat.max n m) cs = some n :=
    natural?_eq_some_iff.mpr ⟨hn, Nat.le_max_left n m⟩
  rw [natural?_eq_some_iff.mpr ⟨hm, Nat.le_max_right n m⟩] at hread
  exact (Option.some.inj hread).symm

theorem isNumeral_decimal (n : Nat) : IsNumeral (decimal n).toList n := by
  unfold decimal padded
  rw [String.toList_ofList]
  exact ⟨_, Or.inl rfl, digits?_eq_some_iff.mp (digits?_toDigits 1 n)⟩

/-! ## Blanks around a text -/

theorem trim_eq_nil_iff : trim cs = [] ↔ ∀ c ∈ cs, isBlank c = true := by
  unfold trim trimEnd trimStart
  rw [List.reverse_eq_nil_iff, List.dropWhile_eq_nil_iff]
  simp only [List.mem_reverse]
  constructor
  · intro h c hc
    rw [← List.takeWhile_append_dropWhile (p := isBlank) (l := cs), List.mem_append] at hc
    rcases hc with hc | hc
    · exact List.mem_takeWhile_imp hc
    · exact h c hc
  · intro h c hc
    exact h c ((List.dropWhile_sublist isBlank).mem hc)

theorem dropWhile_of_head (h : ∀ c ∈ cs.head?, isBlank c = false) : cs.dropWhile isBlank = cs := by
  cases cs with
  | nil => rfl
  | cons c cs => rw [List.dropWhile_cons_of_neg (by simp [h c rfl])]

/-- There are no blanks around a text that neither begins nor ends with one. -/
theorem trim_of_ends (hfirst : ∀ c ∈ cs.head?, isBlank c = false)
    (hlast : ∀ c ∈ cs.getLast?, isBlank c = false) : trim cs = cs := by
  have hback : ∀ c ∈ cs.reverse.head?, isBlank c = false := by
    rw [List.head?_reverse]
    exact hlast
  unfold trim trimEnd trimStart
  rw [dropWhile_of_head hfirst, dropWhile_of_head hback, List.reverse_reverse]

theorem trim_decimal (n : Nat) : trim (decimal n).toList = (decimal n).toList := by
  unfold decimal padded
  rw [String.toList_ofList]
  refine trim_of_ends (fun c hc => ?_) fun c hc => ?_
  · exact isBlank_of_isDigit (isDigit_of_mem_toDigits (List.mem_of_head? hc))
  · exact isBlank_of_isDigit (isDigit_of_mem_toDigits (List.mem_of_getLast? hc))

/-- A number that is not too large is read back from its text. -/
theorem natural?_decimal (h : n ≤ max) : natural? max (trim (decimal n).toList) = some n := by
  rw [trim_decimal]
  exact natural?_eq_some_iff.mpr ⟨isNumeral_decimal n, h⟩

end Text
end Hosting
