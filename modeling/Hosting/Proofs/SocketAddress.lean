import Hosting.Proofs.Text.Numeral
import Hosting.SocketAddress
import Mathlib.Data.List.Basic

/-!
# Socket addresses are read back

The text that is written of an address is read as this address (`read?_text`): a dotted quad, or
groups of which the longest row of zeros may be left out.  Each part is read before any rest that
does not go on with it; a group before the next colon is told from a quad by the point that it
does not have.
-/

namespace Hosting

/-! ## Characters that end a numeral -/

namespace Text

variable {b : Nat} {c : Char} {r : List Char}

/-- The rest of a text does not begin with a digit of the base. -/
def NoDigit (b : Nat) (r : List Char) : Prop := ∀ c ∈ r.head?, (digits? b [c]).isSome = false

theorem noDigit_nil (b : Nat) : NoDigit b [] := fun _ hc => nomatch hc

theorem noDigit_cons (h : (digits? b [c]).isSome = false) (r : List Char) : NoDigit b (c :: r) := by
  intro d hd
  rw [← Option.some.inj hd]
  exact h

theorem isSome_digit_iff : (digits? b [c]).isSome = true ↔ ∃ d, digit? c = some d ∧ d < b := by
  show (digitsFrom? b 0 [c]).isSome = true ↔ _
  rw [digitsFrom?]
  cases digit? c with
  | none => simp
  | some d => by_cases h : d < b <;> simp [h, digitsFrom?]

/-- A digit of a base is one of every larger base. -/
theorem NoDigit.mono {b' : Nat} (h : NoDigit b' r) (hle : b ≤ b') : NoDigit b r := by
  intro c hc
  have hnone := h c hc
  rw [← Bool.not_eq_true, isSome_digit_iff] at hnone ⊢
  rintro ⟨d, hd, hlt⟩
  exact hnone ⟨d, hd, by omega⟩

theorem takeWhile_digits_append {ds : List Char} (hds : ∀ c ∈ ds, (digits? b [c]).isSome = true)
    (hr : NoDigit b r) : (ds ++ r).takeWhile (fun c => (digits? b [c]).isSome) = ds := by
  rw [List.takeWhile_append_of_pos hds]
  cases r with
  | nil => simp
  | cons c r => simp [hr c rfl]

end Text

namespace SocketAddress

open Text

variable {b width n max k : Nat} {cs r : List Char} {g : UInt16} {gs : List UInt16} {leading : Bool}

/-! ## Numbers -/

theorem number?_toDigits (hb : 1 < b) (hb' : b ≤ 16) (hwidth : (toDigits b 1 n).length ≤ width)
    (hr : NoDigit b r) : number? b width (toDigits b 1 n ++ r) = some (n, r) := by
  have hds : ∀ c ∈ toDigits b 1 n, (digits? b [c]).isSome = true :=
    fun c hc => isSome_digit_of_mem_toDigits hb hb' hc
  unfold number?
  simp only [takeWhile_digits_append hds hr, if_pos hwidth, digits?_toDigits_of_base hb hb',
    Option.map_some, List.drop_left]

theorem number?_of_noDigit (h : NoDigit b cs) : number? b width cs = none := by
  have hnone : ([] ++ cs).takeWhile (fun c => (digits? b [c]).isSome) = [] :=
    takeWhile_digits_append (fun _ hc => nomatch hc) h
  rw [List.nil_append] at hnone
  unfold number?
  dsimp only
  rw [hnone]
  rfl

/-- What comes after a number is the text without the digits in front. -/
theorem rest_of_number? (h : number? b width cs = some (n, r)) :
    r = cs.dropWhile fun c => (digits? b [c]).isSome := by
  unfold number? at h
  dsimp only at h
  split at h
  · obtain ⟨_, _, heq⟩ := Option.map_eq_some_iff.mp h
    have hcut := List.takeWhile_append_dropWhile (p := fun c => (digits? b [c]).isSome) (l := cs)
    rw [← (Prod.mk.inj heq).2]
    exact (congrArg (List.drop _) hcut.symm).trans List.drop_left
  · cases h

theorem octet?_decimal (a : UInt8) (hr : NoDigit 10 r) :
    octet? ((decimal a.toNat).toList ++ r) = some (a, r) := by
  have hshort : ∀ n < 256, (toDigits 10 1 n).length ≤ 3 ∧
      ((toDigits 10 1 n).length = 1 ∨ (toDigits 10 1 n).head? ≠ some '0') := by decide +kernel
  obtain ⟨hwidth, hzero⟩ := hshort a.toNat a.toNat_lt
  have hlt := a.toNat_lt
  unfold decimal padded octet?
  rw [String.toList_ofList, number?_toDigits (by decide) (by decide) hwidth hr]
  simp [hlt, toDigits_ne_nil]
  exact or_iff_not_imp_left.mp hzero

theorem rest_of_octet? {a : UInt8} (h : octet? cs = some (a, r)) :
    r = cs.dropWhile fun c => (digits? 10 [c]).isSome := by
  obtain ⟨⟨n, r'⟩, hnumber, h⟩ := Option.bind_eq_some_iff.mp h
  dsimp only at h
  split at h
  · rw [← (Prod.mk.inj (Option.some.inj h)).2]
    exact rest_of_number? hnumber
  · cases h

theorem marked?_decimal {mark : Char} (h : n ≤ max) (hr : NoDigit 10 r) :
    marked? mark max (mark :: ((decimal n).toList ++ r)) = some (n, r) := by
  unfold decimal padded marked?
  rw [String.toList_ofList, after?, if_pos rfl]
  simp only [Option.bind_eq_bind, Option.bind_some]
  rw [number?_toDigits (by decide) (by decide) (by simp) hr]
  simp [h]

theorem marked?_of_ne {mark c : Char} (h : c ≠ mark) : marked? mark max (c :: r) = none := by
  have hnone : after? mark (c :: r) = none := if_neg h
  rw [marked?, hnone]
  rfl

theorem service?_decimal (s : UInt16) :
    service? (':' :: (decimal s.toNat).toList) = some (s, []) := by
  have hlt : s.toNat ≤ 65535 := Nat.le_of_lt_succ s.toNat_lt
  have hread : marked? ':' 65535 (':' :: ((decimal s.toNat).toList ++ [])) =
      some (s.toNat, []) := marked?_decimal hlt (noDigit_nil 10)
  rw [List.append_nil] at hread
  rw [service?, hread]
  simp

/-! ## Quads -/

theorem quad?_quadText (a b c d : UInt8) (hr : NoDigit 10 r) :
    quad? ((quadText a b c d).toList ++ r) = some ((a, b, c, d), r) := by
  have htext : (quadText a b c d).toList ++ r = (decimal a.toNat).toList ++ '.' ::
      ((decimal b.toNat).toList ++ '.' :: ((decimal c.toNat).toList ++ '.' ::
        ((decimal d.toNat).toList ++ r))) := by
    simp [quadText, join]
  have hpoint (r : List Char) : NoDigit 10 ('.' :: r) := noDigit_cons rfl r
  have hafter (r : List Char) : after? '.' ('.' :: r) = some r := rfl
  rw [htext, quad?]
  simp only [octet?_decimal _ (hpoint _), hafter, octet?_decimal d hr, Option.bind_eq_bind,
    Option.bind_some]

/-- A text that does not have a point after its decimal digits does not begin with a quad. -/
theorem quad?_eq_none (h : (cs.dropWhile fun c => (digits? 10 [c]).isSome).head? ≠ some '.') :
    quad? cs = none := by
  unfold quad?
  cases hoctet : octet? cs with
  | none => rfl
  | some p =>
    obtain ⟨a, r⟩ := p
    have hr := rest_of_octet? hoctet
    have hnone : after? '.' r = none := by
      rw [← hr] at h
      cases r with
      | nil => rfl
      | cons c r => exact if_neg fun hc : c = '.' => h (congrArg some hc)
    simp [hnone]

theorem dropWhile_of_noDigit (h : NoDigit b r) :
    r.dropWhile (fun c => (digits? b [c]).isSome) = r := by
  cases r with
  | nil => rfl
  | cons c r => rw [List.dropWhile_cons_of_neg (by simp [h c rfl])]

/-! ## Groups -/

/-- A text that neither goes on with a group nor makes a quad of it. -/
structure EndsGroup (r : List Char) : Prop where
  digit : NoDigit 16 r
  point : r.head? ≠ some '.'

theorem endsGroup_colon (r : List Char) : EndsGroup (':' :: r) :=
  ⟨noDigit_cons rfl r, by simp⟩

theorem group?_groupText (g : UInt16) (hr : NoDigit 16 r) :
    group? ((groupText g).toList ++ r) = some (g, r) := by
  have hwidth : (toDigits 16 1 g.toNat).length ≤ 4 := by
    have hlength : (Nat.toDigits 16 g.toNat).length ≤ 4 :=
      (Nat.length_toDigits_le_iff (by decide) (by decide)).mpr g.toNat_lt
    have hpos : 0 < (Nat.toDigits 16 g.toNat).length := Nat.length_toDigits_pos
    simp only [toDigits, List.length_append, List.length_replicate]
    omega
  unfold group? groupText
  rw [String.toList_ofList, number?_toDigits (by decide) (by decide) hwidth hr]
  simp

/-- A group is no quad. -/
theorem quad?_groupText (g : UInt16) (hr : EndsGroup r) :
    quad? ((groupText g).toList ++ r) = none := by
  have hpoint : ∀ c ∈ (groupText g).toList, c ≠ '.' := by
    unfold groupText
    rw [String.toList_ofList]
    intro c hc hpoint
    have hdigit := isSome_digit_of_mem_toDigits (by decide) (by decide) hc
    rw [hpoint] at hdigit
    cases hdigit
  refine quad?_eq_none ?_
  rw [List.dropWhile_append]
  split
  · rw [dropWhile_of_noDigit (hr.digit.mono (by decide))]
    exact hr.point
  · next hne =>
    rw [List.isEmpty_iff] at hne
    rw [List.head?_append_of_ne_nil _ hne]
    intro hhead
    exact hpoint '.' ((List.dropWhile_sublist _).mem (List.mem_of_head? hhead)) rfl

/-! ## Rows of groups -/

theorem octet?_of_noDigit (h : NoDigit 10 r) : octet? r = none := by
  unfold octet?
  rw [number?_of_noDigit h]
  rfl

/-- Nothing is read where no group begins. -/
theorem row_eq_nil (n : Nat)
    (h : ∀ r, (if leading then some cs else after? ':' cs) = some r → NoDigit 16 r) :
    row n leading cs = ⟨[], false, cs⟩ := by
  cases n with
  | zero => rfl
  | succ n =>
    rw [row]
    split
    · rfl
    · next r hr =>
      have hquad : quad? r = none := by
        rw [quad?, octet?_of_noDigit ((h r hr).mono (by decide))]
        rfl
      have hgroup : group? r = none := by
        rw [group?, number?_of_noDigit (h r hr)]
        rfl
      simp [hquad, hgroup]

/-- A group goes before those that are read after it. -/
theorem row_group (n : Nat) (hr : EndsGroup r)
    (hcs : (if leading then some cs else after? ':' cs) = some ((groupText g).toList ++ r)) :
    row (n + 1) leading cs = { row n false r with groups := g :: (row n false r).groups } := by
  rw [row, hcs]
  simp [quad?_groupText g hr, group?_groupText g hr.digit]

/-- Groups with a colon before each. -/
def colonText (gs : List UInt16) : List Char := gs.flatMap fun g => ':' :: (groupText g).toList

theorem rowText_cons (g : UInt16) (gs : List UInt16) :
    (rowText (g :: gs)).toList = (groupText g).toList ++ colonText gs := by
  unfold rowText colonText
  induction gs generalizing g with
  | nil => simp [join]
  | cons g' gs ih =>
    have hjoin : join ":" ((g :: g' :: gs).map groupText) =
        groupText g ++ ":" ++ join ":" ((g' :: gs).map groupText) := rfl
    rw [hjoin, String.toList_append, ih]
    simp

theorem endsGroup_colonText (gs : List UInt16) (hr : EndsGroup r) :
    EndsGroup (colonText gs ++ r) := by
  cases gs with
  | nil => exact hr
  | cons g gs => exact endsGroup_colon _

theorem row_colonText (hlength : gs.length ≤ n) (hr : EndsGroup r)
    (hend : row (n - gs.length) false r = ⟨[], false, r⟩) :
    row n false (colonText gs ++ r) = ⟨gs, false, r⟩ := by
  induction gs generalizing n with
  | nil => exact hend
  | cons g gs ih =>
    obtain ⟨k, rfl⟩ : ∃ k, n = k + 1 := ⟨n - 1, by rw [List.length_cons] at hlength; omega⟩
    rw [List.length_cons, Nat.add_sub_add_right] at hend
    rw [List.length_cons] at hlength
    have htext : colonText (g :: gs) ++ r =
        ':' :: ((groupText g).toList ++ (colonText gs ++ r)) := by
      simp [colonText]
    rw [htext, row_group (g := g) k (endsGroup_colonText gs hr) rfl, ih (by omega) hend]

/-- A row is read from its text, if nothing that follows goes on with it. -/
theorem row_rowText (hlength : gs.length ≤ n) (hr : EndsGroup r)
    (hend : row (n - gs.length) false r = ⟨[], false, r⟩) :
    row n true ((rowText gs).toList ++ r) = ⟨gs, false, r⟩ := by
  cases gs with
  | nil =>
    refine row_eq_nil n fun r' hr' => ?_
    rw [← Option.some.inj hr']
    exact hr.digit
  | cons g gs =>
    rw [List.length_cons] at hlength hend
    obtain ⟨k, rfl⟩ : ∃ k, n = k + 1 := ⟨n - 1, by omega⟩
    rw [Nat.add_sub_add_right] at hend
    rw [rowText_cons, List.append_assoc, row_group (g := g) k (endsGroup_colonText gs hr) rfl,
      row_colonText (by omega) hr hend]

/-! ## The longest row of zeros -/

theorem eq_replicate_of_le_zeros {l : List UInt16} {n : Nat} (h : n ≤ zeros l) :
    l = List.replicate n 0 ++ l.drop n := by
  induction n generalizing l with
  | zero => rfl
  | succ n ih =>
    cases l with
    | nil => cases h
    | cons x l =>
      unfold zeros at h
      rw [List.takeWhile_cons] at h
      split at h
      · next hx =>
        rw [List.length_cons] at h
        rw [List.replicate_succ, List.cons_append, List.drop_succ_cons,
          ← ih (by exact Nat.le_of_succ_le_succ h)]
        rw [eq_of_beq hx]
      · cases h

theorem longestZeros_le (gs : List UInt16) :
    (longestZeros gs).2 ≤ zeros (gs.drop (longestZeros gs).1) := by
  have hfold (is : List Nat) (best : Nat × Nat) (h : best.2 ≤ zeros (gs.drop best.1)) :
      let last := is.foldl (fun best i =>
        let n := zeros (gs.drop i)
        if best.2 < n then (i, n) else best) best
      last.2 ≤ zeros (gs.drop last.1) := by
    induction is generalizing best with
    | nil => exact h
    | cons i is ih =>
      refine ih _ ?_
      dsimp only
      split
      · exact Nat.le_refl _
      · exact h
  exact hfold _ _ (Nat.zero_le _)

theorem spread_eq {gs : Vector UInt16 8} {front back : List UInt16}
    (h : front ++ List.replicate (8 - front.length - back.length) 0 ++ back = gs.toList) :
    spread front back = gs := by
  ext i hi
  simp [spread, h]

/-! ## Eight groups -/

theorem row_of_noColon (n : Nat) (h : r.head? ≠ some ':') : row n false r = ⟨[], false, r⟩ := by
  have hnone : after? ':' r = none := by
    cases r with
    | nil => rfl
    | cons c r => exact if_neg fun hc : c = ':' => h (congrArg some hc)
  refine row_eq_nil n fun r' hr' => ?_
  rw [if_neg Bool.false_ne_true, hnone] at hr'
  cases hr'

theorem row_colons (n : Nat) (r : List Char) :
    row n false (':' :: ':' :: r) = ⟨[], false, ':' :: ':' :: r⟩ := by
  refine row_eq_nil n fun r' hr' => ?_
  have heq : ':' :: r = r' := Option.some.inj hr'
  rw [← heq]
  exact noDigit_cons rfl r

/-- The groups that are left out between two rows are zeros. -/
theorem groups?_gap {front back : List UInt16} (hlength : front.length + back.length ≤ 6)
    (hr : EndsGroup r) (hcolon : r.head? ≠ some ':') :
    groups? ((rowText front ++ "::" ++ rowText back).toList ++ r) =
      some (spread front back, r) := by
  have htext : (rowText front ++ "::" ++ rowText back).toList ++ r =
      (rowText front).toList ++ ':' :: ':' :: ((rowText back).toList ++ r) := by
    simp
  have hfront := row_rowText (n := 8) (by omega) (endsGroup_colon _)
    (row_colons (8 - front.length) ((rowText back).toList ++ r))
  have hback := row_rowText (n := 7 - front.length) (by omega) hr
    (row_of_noColon (7 - front.length - back.length) hcolon)
  have hafter (r : List Char) : after? ':' (':' :: r) = some r := rfl
  have hshort : front.length ≠ 8 := by omega
  rw [htext, groups?, hfront]
  simp [hshort, hafter, hback]

theorem groups?_rowText (gs : Vector UInt16 8) (hr : EndsGroup r) :
    groups? ((rowText gs.toList).toList ++ r) = some (gs, r) := by
  have hfull : gs.toList.length = 8 := gs.length_toList
  have hrow : row 8 true ((rowText gs.toList).toList ++ r) = ⟨gs.toList, false, r⟩ :=
    row_rowText (by omega) hr (by rw [hfull]; rfl)
  have hspread : spread gs.toList [] = gs := spread_eq (by simp)
  rw [groups?, hrow]
  dsimp only
  rw [if_pos hfull, hspread]

/-- The two halves of a group make it up. -/
theorem pair_halves (g : UInt16) : pair (g.toNat / 256).toUInt8 g.toUInt8 = g := by
  have hlt := g.toNat_lt
  refine UInt16.toNat_inj.mp ?_
  simp [pair]
  omega

/-- Groups that carry a quad show it. -/
theorem groups?_quadText {gs : Vector UInt16 8} {h l : UInt16}
    (hgs : gs.toList = [0, 0, 0, 0, 0, 0xffff, h, l]) (hr : NoDigit 10 r) :
    groups? (("::ffff:" ++ quadText (h.toNat / 256).toUInt8 h.toUInt8 (l.toNat / 256).toUInt8
      l.toUInt8).toList ++ r) = some (gs, r) := by
  generalize hquad : quadText (h.toNat / 256).toUInt8 h.toUInt8 (l.toNat / 256).toUInt8 l.toUInt8 =
    quad
  have htext : ("::ffff:" ++ quad).toList ++ r =
      ':' :: ':' :: ((groupText 0xffff).toList ++ ':' :: (quad.toList ++ r)) := by
    have hmark : (groupText 0xffff).toList = ['f', 'f', 'f', 'f'] := by decide
    simp [hmark]
  have hread : quad? (quad.toList ++ r) =
      some (((h.toNat / 256).toUInt8, h.toUInt8, (l.toNat / 256).toUInt8, l.toUInt8), r) := by
    rw [← hquad]
    exact quad?_quadText _ _ _ _ hr
  have hafter (r : List Char) : after? ':' (':' :: r) = some r := rfl
  have hcarried : row 6 false (':' :: (quad.toList ++ r)) = ⟨[h, l], true, r⟩ := by
    rw [row, if_neg Bool.false_ne_true, hafter]
    simp [hread, pair_halves]
  have hfront :
      row 8 true (':' :: ':' :: ((groupText 0xffff).toList ++ ':' :: (quad.toList ++ r))) =
        ⟨[], false, ':' :: ':' :: ((groupText 0xffff).toList ++ ':' :: (quad.toList ++ r))⟩ := by
    refine row_eq_nil 8 fun r' hr' => ?_
    rw [← Option.some.inj hr']
    exact noDigit_cons rfl _
  have hback : row 7 true ((groupText 0xffff).toList ++ ':' :: (quad.toList ++ r)) =
      ⟨[0xffff, h, l], true, r⟩ := by
    rw [row_group (g := 0xffff) 6 (endsGroup_colon _) rfl, hcarried]
  have hspread : spread [] [0xffff, h, l] = gs := spread_eq (by rw [hgs]; rfl)
  rw [htext, groups?, hfront]
  simp [hafter, hback, hspread]

theorem groups?_groupsText (gs : Vector UInt16 8) (hr : EndsGroup r) (hcolon : r.head? ≠ some ':') :
    groups? ((groupsText gs.toList).toList ++ r) = some (gs, r) := by
  unfold groupsText
  split
  · next h l hgs => exact groups?_quadText hgs (hr.digit.mono (by decide))
  · have hzeros := eq_replicate_of_le_zeros (longestZeros_le gs.toList)
    generalize longestZeros gs.toList = longest at hzeros
    obtain ⟨start, n⟩ := longest
    dsimp only at hzeros ⊢
    split
    · next hn =>
      rw [List.drop_drop] at hzeros
      have hlength : (gs.toList.drop start).length = n + (gs.toList.drop (start + n)).length := by
        conv => lhs; rw [hzeros]
        simp
      have hfull : gs.toList.length = 8 := gs.length_toList
      simp only [List.length_drop, hfull] at hlength
      rw [groups?_gap (by simp only [List.length_take, List.length_drop, hfull]; omega) hr hcolon]
      refine congrArg (fun v => some (v, r)) (spread_eq ?_)
      have hgap : 8 - (gs.toList.take start).length - (gs.toList.drop (start + n)).length = n := by
        simp only [List.length_take, List.length_drop, hfull]
        omega
      rw [hgap, List.append_assoc, ← hzeros, List.take_append_drop]
    · exact groups?_rowText gs hr

/-! ## Whole addresses -/

theorem quadAddress?_text (a b c d : UInt8) (s : UInt16) :
    quadAddress? (text ⟨.quad a b c d, s⟩).toList = some (⟨.quad a b c d, s⟩, []) := by
  have htext : (text ⟨.quad a b c d, s⟩).toList =
      (quadText a b c d).toList ++ ':' :: (decimal s.toNat).toList := by
    simp [text, hostText]
  rw [htext, quadAddress?, quad?_quadText a b c d (noDigit_cons rfl _)]
  simp [service?_decimal]

/-- The number of a scope, which is not written when it is zero. -/
theorem scope?_text (scope : UInt32) (hr : NoDigit 10 r) (hmark : r.head? ≠ some '%') :
    (marked? '%' (Nat.pow 2 32 - 1)
      ((if scope = 0 then "" else "%" ++ decimal scope.toNat).toList ++ r)).getD
        (0, (if scope = 0 then "" else "%" ++ decimal scope.toNat).toList ++ r) =
      (scope.toNat, r) := by
  split
  · next hzero =>
    rw [hzero, String.toList_empty, List.nil_append]
    cases r with
    | nil => rfl
    | cons c r =>
      rw [marked?_of_ne fun hc => hmark (congrArg some hc)]
      rfl
  · have htext : ("%" ++ decimal scope.toNat).toList ++ r =
        '%' :: ((decimal scope.toNat).toList ++ r) := by
      simp
    have hlt : scope.toNat ≤ Nat.pow 2 32 - 1 := Nat.le_sub_one_of_lt scope.toNat_lt
    rw [htext, marked?_decimal hlt hr]
    rfl

theorem groupsAddress?_text (gs : Vector UInt16 8) (scope : UInt32) (s : UInt16) :
    groupsAddress? (text ⟨.groups gs scope, s⟩).toList = some (⟨.groups gs scope, s⟩, []) := by
  generalize hscope : (if scope = 0 then "" else "%" ++ decimal scope.toNat).toList ++
    ']' :: ':' :: (decimal s.toNat).toList = r
  have htext : (text ⟨.groups gs scope, s⟩).toList =
      '[' :: ((groupsText gs.toList).toList ++ r) := by
    rw [← hscope]
    simp [text, hostText]
  have hread := scope?_text (r := ']' :: ':' :: (decimal s.toNat).toList) scope (noDigit_cons rfl _)
    (by simp)
  rw [hscope] at hread
  have hfirst : r.head? = some '%' ∨ r.head? = some ']' := by
    rw [← hscope]
    split
    · exact Or.inr rfl
    · exact Or.inl (by simp)
  have hends : EndsGroup r := by
    cases r with
    | nil => exact ⟨noDigit_nil 16, by simp⟩
    | cons c r =>
      simp only [List.head?_cons, Option.some.injEq] at hfirst
      rcases hfirst with rfl | rfl <;> exact ⟨noDigit_cons rfl r, by simp⟩
  have hcolon : r.head? ≠ some ':' := by
    rcases hfirst with h | h <;> simp [h]
  have hafter (c : Char) (r : List Char) : after? c (c :: r) = some r := if_pos rfl
  rw [htext, groupsAddress?]
  simp only [hafter, groups?_groupsText gs hends hcolon, hread, service?_decimal,
    Option.bind_eq_bind, Option.bind_some]
  simp

theorem quadAddress?_bracket (r : List Char) : quadAddress? ('[' :: r) = none := by
  rw [quadAddress?, quad?, octet?_of_noDigit (noDigit_cons rfl r)]
  rfl

/-- What is written of an address is read as it. -/
theorem read?_text (a : SocketAddress) : read? (text a).toList = some a := by
  obtain ⟨host, s⟩ := a
  cases host with
  | quad a b c d =>
    rw [read?, quadAddress?_text]
    rfl
  | groups gs scope =>
    have hbracket : ∃ r, (text ⟨.groups gs scope, s⟩).toList = '[' :: r :=
      ⟨_, by simp [text, hostText]; rfl⟩
    obtain ⟨r, hr⟩ := hbracket
    have hgroups := groupsAddress?_text gs scope s
    rw [hr] at hgroups ⊢
    rw [read?, quadAddress?_bracket, hgroups]
    rfl

theorem isBlank_head_text (a : SocketAddress) : ∀ c ∈ (text a).toList.head?, isBlank c = false := by
  obtain ⟨host, s⟩ := a
  cases host with
  | quad a b c d =>
    obtain ⟨x, xs, hds, hx⟩ := exists_toDigits_eq_cons 1 a.toNat
    have htext : (text ⟨.quad a b c d, s⟩).toList.head? = some x := by
      simp [text, hostText, quadText, join, decimal, padded, hds]
    rw [htext]
    intro y hy
    rw [← Option.some.inj hy]
    exact isBlank_of_isDigit hx
  | groups gs scope =>
    have htext : (text ⟨.groups gs scope, s⟩).toList.head? = some '[' := by
      simp [text, hostText]
    rw [htext]
    intro y hy
    rw [← Option.some.inj hy]
    rfl

/-- There are no blanks around an address. -/
theorem trim_text (a : SocketAddress) : trim (text a).toList = (text a).toList := by
  refine trim_of_ends (isBlank_head_text a) fun c hc => ?_
  have htext : (text a).toList =
      ((hostText a.host).toList ++ [':']) ++ toDigits 10 1 a.service.toNat := by
    simp [text, decimal, padded]
  rw [htext, List.getLast?_append_of_ne_nil _ (toDigits_ne_nil 10 1 _)] at hc
  exact isBlank_of_isDigit (isDigit_of_mem_toDigits (List.mem_of_getLast? hc))

end SocketAddress
end Hosting
