import Hosting.Proofs.Text.Numeral
import Hosting.Proofs.Text.Utf8
import Hosting.Text.Form

/-!
# Form values are read back

A form value is octets, of which some are shown by their code (`formOctets?`).  What a text is
encoded to is read as the text (`formValue?_formEncoded`), and it holds no character that means
something in a query (`isFormChar_of_mem_formEncoded`).
-/

namespace Hosting
namespace Text

variable {c : Char} {cs : List Char} {b : UInt8}

/-- The octets that a form value stands for; none when a `%` is not followed by a code. -/
def formOctets? : List Char → Option Bytes
  | [] => some []
  | c :: cs =>
    if c = '%' then
      match cs with
      | x :: y :: rest => (digits? 16 [x, y]).bind fun n => (formOctets? rest).map (n.toUInt8 :: ·)
      | _ => none
    else (formOctets? cs).map ((if c = '+' then [0x20] else Utf8.encodeChar c) ++ ·)

/-- The text that a form value stands for. -/
def formValue? (cs : List Char) : Option String := do
  let bs ← formOctets? cs
  let text ← (Utf8.decode bs).toOption
  some (String.ofList text)

/-- A character that encoded values consist of. -/
def isFormChar (c : Char) : Bool :=
  c.toNat < 128 && (isFormSafe c.toNat.toUInt8 || c == '+' || c == '%')

theorem formOctets?_cons (h : c ≠ '%') (cs : List Char) : formOctets? (c :: cs) =
    (formOctets? cs).map ((if c = '+' then [0x20] else Utf8.encodeChar c) ++ ·) := by
  rw [formOctets?.eq_def]
  exact if_neg h

theorem formOctets?_code (x y : Char) (cs : List Char) : formOctets? ('%' :: x :: y :: cs) =
    (digits? 16 [x, y]).bind fun n => (formOctets? cs).map (n.toUInt8 :: ·) := by
  rw [formOctets?.eq_def]
  rfl

theorem toNat_lt_of_isFormChar (h : isFormChar c = true) : c.toNat < 128 :=
  of_decide_eq_true (Bool.and_eq_true_iff.mp h).1

/-! ## One octet -/

theorem isFormChar_digit (d : Nat) (h : d < 16) : isFormChar (Nat.digitChar d).toUpper = true := by
  have hall : ∀ d < 16, isFormChar (Nat.digitChar d).toUpper = true := by decide
  exact hall d h

/-- An octet that is shown as it is stands for itself. -/
theorem shown_of_isFormSafe (h : isFormSafe b = true) :
    Char.ofNat b.toNat ≠ '%' ∧ Char.ofNat b.toNat ≠ '+' ∧
      Utf8.encodeChar (Char.ofNat b.toNat) = [b] ∧ isFormChar (Char.ofNat b.toNat) = true := by
  have hall : ∀ n < 256, isFormSafe n.toUInt8 = true →
      Char.ofNat n ≠ '%' ∧ Char.ofNat n ≠ '+' ∧
        Utf8.encodeChar (Char.ofNat n) = [n.toUInt8] ∧ isFormChar (Char.ofNat n) = true := by
    decide +kernel
  have hb : b.toNat.toUInt8 = b := Utf8.toUInt8_toNat rfl
  have h' := hall b.toNat b.toNat_lt
  rw [hb] at h'
  exact h' h

theorem toDigits_octet (b : UInt8) : toDigits 16 2 b.toNat =
    [Nat.digitChar (b.toNat / 16), Nat.digitChar (b.toNat % 16)] := by
  have hall : ∀ n < 256, toDigits 16 2 n =
      [Nat.digitChar (n / 16), Nat.digitChar (n % 16)] := by decide +kernel
  exact hall b.toNat b.toNat_lt

theorem formOctets?_formOctet (b : UInt8) (cs : List Char) :
    formOctets? (formOctet b ++ cs) = (formOctets? cs).map (b :: ·) := by
  have hhigh : b.toNat / 16 < 16 := by
    have := b.toNat_lt
    omega
  have hlow : b.toNat % 16 < 16 := by omega
  unfold formOctet
  split
  · next hsafe =>
    obtain ⟨hmark, hblank, hencode, -⟩ := shown_of_isFormSafe hsafe
    rw [List.singleton_append, formOctets?_cons hmark, if_neg hblank, hencode]
    rfl
  · split
    · next hblank =>
      subst hblank
      exact formOctets?_cons (by decide) cs
    · have hcode : digits? 16 ((toDigits 16 2 b.toNat).map Char.toUpper) = some b.toNat := by
        rw [← digits?_toDigits_of_base (b := 16) (by decide) (by decide) 2 b.toNat, toDigits_octet]
        refine digitsFrom?_map_toUpper (List.forall_mem_cons.mpr ⟨⟨_, hhigh, rfl⟩, ?_⟩) 0
        exact List.forall_mem_singleton.mpr ⟨_, hlow, rfl⟩
      have hb : b.toNat.toUInt8 = b := Utf8.toUInt8_toNat rfl
      rw [toDigits_octet] at hcode ⊢
      refine (formOctets?_code _ _ cs).trans ?_
      rw [show digits? 16 [_, _] = some b.toNat from hcode, Option.bind_some, hb]

/-! ## Values -/

theorem formOctets?_flatMap (bs : Bytes) : formOctets? (bs.flatMap formOctet) = some bs := by
  induction bs with
  | nil => rfl
  | cons b bs ih =>
    rw [List.flatMap_cons, formOctets?_formOctet, ih]
    rfl

/-- A value is read back from its form. -/
theorem formValue?_formEncoded (s : String) : formValue? (formEncoded s).toList = some s := by
  unfold formValue? formEncoded
  rw [String.toList_ofList, formOctets?_flatMap]
  show (Utf8.decode (Utf8.encode s.toList)).toOption.bind _ = _
  rw [Utf8.decode_eq_ok_iff.mpr rfl]
  exact congrArg some String.ofList_toList

theorem isFormChar_of_mem_formOctet (h : c ∈ formOctet b) : isFormChar c = true := by
  unfold formOctet at h
  split at h
  · next hsafe =>
    rw [List.mem_singleton.mp h]
    exact (shown_of_isFormSafe hsafe).2.2.2
  · split at h
    · rw [List.mem_singleton.mp h]
      rfl
    · rw [toDigits_octet] at h
      simp only [List.map_cons, List.map_nil, List.mem_cons, List.not_mem_nil, or_false] at h
      rcases h with rfl | rfl | rfl
      · rfl
      · exact isFormChar_digit _ (by have := b.toNat_lt; omega)
      · exact isFormChar_digit _ (by omega)

theorem isFormChar_of_mem_formEncoded {s : String} (h : c ∈ (formEncoded s).toList) :
    isFormChar c = true := by
  rw [formEncoded, String.toList_ofList] at h
  obtain ⟨b, -, hc⟩ := List.mem_flatMap.mp h
  exact isFormChar_of_mem_formOctet hc

end Text
end Hosting
