import Hosting.Instant.Text
import Hosting.Proofs.Instant.Calendar
import Hosting.Proofs.Text.Numeral

/-!
# Instants told by texts

An instant that has been read can be told by a text (`valid_of_read?`), and from the text it is
read back: as it was when it was written exactly (`read?_exactText`), without its fraction when
it was written in whole seconds (`read?_secondsText`).
-/

namespace Hosting

namespace Instant

open Text

/-! ## Parts of a text -/

theorem number?_toDigits {width n : Nat} (hw : 0 < width) (h : n < 10 ^ width) (r : List Char) :
    number? width (toDigits 10 width n ++ r) = some (n, r) := by
  have hlength := length_toDigits hw h
  have hall := takeWhile_toDigits width n []
  rw [List.append_nil, List.takeWhile_nil, List.append_nil] at hall
  unfold number?
  dsimp only
  rw [List.take_left' hlength, hall, digits?_toDigits, Option.map_some, List.drop_left]

theorem number?_of_rest {cs : List Char} {width n : Nat} {c : Char} {r : List Char}
    (hcs : cs = toDigits 10 width n ++ c :: r) (hc : isDigit c = false) :
    number? cs.length cs = some (n, c :: r) := by
  subst hcs
  have hend : (c :: r).takeWhile isDigit = [] := by
    simp [hc]
  unfold number?
  dsimp only
  rw [List.take_length, takeWhile_toDigits, hend, List.append_nil, digits?_toDigits,
    Option.map_some, List.drop_left]

/-- A year of the usual range is written without a sign, in four digits. -/
theorem year?_toDigits {n : Nat} (h : n < 10 ^ 4) (r : List Char) :
    year? (toDigits 10 4 n ++ '-' :: r) = some ((n : Int), '-' :: r) := by
  have hread : number? 4 (toDigits 10 4 n ++ '-' :: r) = some (n, '-' :: r) :=
    number?_toDigits (by omega) h _
  obtain ⟨c, cs, hds, hc⟩ := exists_toDigits_eq_cons 4 n
  unfold year?
  rw [trimStart_toDigits]
  rw [hds] at hread ⊢
  split
  · next heq =>
    cases heq
    cases hc
  · next heq =>
    cases heq
    cases hc
  · rw [hread]
    rfl

theorem year?_yearText (y : Int) (r : List Char) :
    year? ((yearText y).toList ++ '-' :: r) = some (y, '-' :: r) := by
  unfold yearText padded
  by_cases husual : 0 ≤ y ∧ y ≤ 9999
  · have hyear : ((y.natAbs : Nat) : Int) = y := by omega
    rw [if_pos (by simp [husual]), String.toList_ofList, year?_toDigits (by omega), hyear]
  rw [if_neg (by simpa using husual), String.toList_append, String.toList_ofList, List.append_assoc]
  have hread : number? _ (toDigits 10 4 y.natAbs ++ '-' :: r) = some (y.natAbs, '-' :: r) :=
    number?_of_rest rfl rfl
  generalize toDigits 10 4 y.natAbs ++ '-' :: r = cs at hread
  by_cases hneg : y < 0
  · have hyear : -((y.natAbs : Nat) : Int) = y := by omega
    rw [if_pos hneg]
    show (number? cs.length cs).map (fun p => (-(p.1 : Int), p.2)) = _
    rw [hread, Option.map_some, hyear]
  · have hyear : ((y.natAbs : Nat) : Int) = y := by omega
    rw [if_neg hneg]
    show (number? cs.length cs).map (fun p => ((p.1 : Int), p.2)) = _
    rw [hread, Option.map_some, hyear]

theorem field?_toDigits {n : Nat} (h : n < 100) (r : List Char) :
    field? (toDigits 10 2 n ++ r) = some (n, r) := by
  unfold field?
  rw [trimStart_toDigits]
  exact number?_toDigits (by omega) h r

theorem mark?_cons {c : Char} (h : isBlank c = false) (r : List Char) :
    mark? c (c :: r) = some r := by
  unfold mark?
  rw [trimStart_cons h]
  exact if_pos rfl

/-- A fraction of three, six or nine places. -/
theorem fraction?_toDigits {width n : Nat} (hw : 0 < width) (hw9 : width ≤ 9) (h : n < 10 ^ width) :
    fraction? ('.' :: (toDigits 10 width n ++ ['Z'])) = some (n * 10 ^ (9 - width), ['Z']) := by
  have hlength := length_toDigits hw h
  have hall : (toDigits 10 width n ++ ['Z']).takeWhile isDigit = toDigits 10 width n := by
    rw [takeWhile_toDigits]
    exact List.append_nil _
  have hused : (toDigits 10 width n).take 9 = toDigits 10 width n :=
    List.take_of_length_le (by omega)
  rw [fraction?]
  rw [hall, hused, digits?_toDigits, Option.map_some, List.drop_left, hlength]
  rfl

/-! ## Whole texts -/

/-- An instant that a text can tell: it is in the years of the calendar, and a leap second is
the last second of a minute. -/
structure Valid (t : Instant) : Prop where
  year : inYears t.date.year = true
  nano : t.nano < 2 * nanosPerSecond
  leap : t.isLeap = true → t.second % 60 = 59

theorem toList_textWith (t : Instant) (fraction : String) :
    (t.textWith fraction).toList = (yearText t.date.year).toList ++ '-' ::
      (toDigits 10 2 t.date.month ++ '-' :: (toDigits 10 2 t.date.day ++ 'T' ::
        (toDigits 10 2 (t.secondOfDay.toNat / 3600) ++ ':' ::
          (toDigits 10 2 (t.secondOfDay.toNat / 60 % 60) ++ ':' ::
            (toDigits 10 2 (t.secondOfDay.toNat % 60 + if t.isLeap then 1 else 0) ++
              (fraction.toList ++ ['Z'])))))) := by
  simp [textWith, padded, String.toList_append]

/-- The second of the minute, as it is written, tells a leap second. -/
theorem Valid.second_eq {t : Instant} (ht : t.Valid) {s leap : Nat}
    (hs : (s : Int) = t.second % 86400) (hleap : leap = if t.isLeap then 1 else 0) :
    s % 60 + leap ≤ 60 ∧ (if s % 60 + leap = 60 then 1 else 0) = leap ∧
      t.fraction + leap * nanosPerSecond = t.nano := by
  have hnano := ht.nano
  unfold fraction
  unfold nanosPerSecond at hnano ⊢
  cases hl : t.isLeap with
  | true =>
    have hlast : s % 60 = 59 := by
      have hminute := ht.leap hl
      omega
    have hlong : 1000000000 ≤ t.nano := of_decide_eq_true hl
    rw [hl, if_pos rfl] at hleap
    rw [hleap, hlast, if_pos rfl]
    omega
  | false =>
    have hshort : ¬1000000000 ≤ t.nano := of_decide_eq_false hl
    rw [hl, if_neg Bool.false_ne_true] at hleap
    rw [hleap, if_neg (by omega)]
    omega

/-- The date and time of day of an instant lead back to it. -/
theorem ofFields?_date {t : Instant} (ht : t.Valid) :
    ofFields? t.date (t.secondOfDay.toNat / 3600) (t.secondOfDay.toNat / 60 % 60)
      (t.secondOfDay.toNat % 60 + if t.isLeap then 1 else 0) t.fraction 0 = some t := by
  have hday : t.date.toDays = t.second / 86400 := Date.toDays_ofDays _
  have hvalid : t.date.isValid = true := Date.isValid_ofDays _
  have hsecond : (t.secondOfDay.toNat : Int) = t.second % 86400 :=
    Int.toNat_of_nonneg (by unfold secondOfDay; omega)
  generalize t.secondOfDay.toNat = s at hsecond
  generalize hleap : (if t.isLeap then 1 else 0) = leap
  obtain ⟨hle, hlast, hnano⟩ := ht.second_eq hsecond hleap.symm
  have hhour : s / 3600 < 24 := by omega
  have hminute : s / 60 % 60 < 60 := by omega
  have hback : (⟨t.date.toDays * 86400 + ((s / 3600 : Nat) * 3600 + (s / 60 % 60 : Nat) * 60 +
      ((s % 60 + leap : Nat) - leap)) - 0, t.fraction + leap * nanosPerSecond⟩ : Instant) = t := by
    rw [hnano, hday]
    refine congrArg (Instant.mk · t.nano) ?_
    omega
  unfold ofFields?
  rw [if_pos (by simp [hvalid, ht.year, hle, hhour, hminute])]
  dsimp only
  rw [hlast, hback, if_pos ht.year]

theorem read?_textWith {t : Instant} (ht : t.Valid) {fraction : String}
    (hf : fraction? (fraction.toList ++ ['Z']) = some (t.fraction, ['Z'])) :
    read? (t.textWith fraction) = some t := by
  have hmonth : t.date.month < 100 :=
    Nat.lt_of_le_of_lt (Date.month_le (Date.isValid_ofDays _)) (by omega)
  have hday : t.date.day < 100 :=
    Nat.lt_of_le_of_lt (Date.day_le (Date.isValid_ofDays _)) (by omega)
  have hs : t.secondOfDay.toNat < 86400 := by
    unfold secondOfDay
    omega
  have hhour : t.secondOfDay.toNat / 3600 < 100 := by omega
  have hminute : t.secondOfDay.toNat / 60 % 60 < 100 := by omega
  have hsecond : (t.secondOfDay.toNat % 60 + if t.isLeap then 1 else 0) < 100 := by
    split <;> omega
  have hdash (r : List Char) : mark? '-' ('-' :: r) = some r := mark?_cons rfl r
  have hcolon (r : List Char) : mark? ':' (':' :: r) = some r := mark?_cons rfl r
  have hend : offset? (trimStart ['Z']) = some (0, []) := rfl
  unfold read?
  simp only [toList_textWith, year?_yearText, hdash, hcolon, field?_toDigits hmonth,
    field?_toDigits hday, field?_toDigits hhour, field?_toDigits hminute, field?_toDigits hsecond,
    hf, hend, Option.bind_eq_bind, Option.bind_some]
  exact ofFields?_date ht

/-- What is written exactly is read back. -/
theorem read?_exactText {t : Instant} (ht : t.Valid) : read? t.exactText = some t := by
  have hlt : t.fraction < 1000000000 := Nat.mod_lt _ (by decide)
  have hpoint {width n : Nat} (hw : 0 < width) (hw9 : width ≤ 9) (hn : n < 10 ^ width)
      (hvalue : n * 10 ^ (9 - width) = t.fraction) :
      fraction? (("." ++ padded width n).toList ++ ['Z']) = some (t.fraction, ['Z']) := by
    have htext : ("." ++ padded width n).toList ++ ['Z'] =
        '.' :: (toDigits 10 width n ++ ['Z']) := by
      simp [padded, String.toList_append]
    rw [htext, fraction?_toDigits hw hw9 hn, hvalue]
  unfold exactText
  refine read?_textWith ht ?_
  split
  · next hzero =>
    rw [hzero]
    rfl
  split
  · next hmillis => exact hpoint (by omega) (by omega) (by omega) (by omega)
  split
  · next hmicros => exact hpoint (by omega) (by omega) (by omega) (by omega)
  · exact hpoint (by omega) (by omega) hlt (by omega)

theorem isLeap_truncated (t : Instant) : t.truncated.isLeap = t.isLeap := by
  show decide (nanosPerSecond ≤ if t.isLeap = true then nanosPerSecond else 0) = t.isLeap
  cases t.isLeap <;> rfl

theorem Valid.truncated {t : Instant} (ht : t.Valid) : t.truncated.Valid where
  year := ht.year
  nano := by
    unfold Instant.truncated nanosPerSecond
    dsimp only
    split <;> omega
  leap h := ht.leap (isLeap_truncated t ▸ h)

theorem secondsText_truncated (t : Instant) : t.truncated.secondsText = t.secondsText := by
  unfold secondsText textWith
  rw [isLeap_truncated]
  rfl

/-- Of what is written in whole seconds the fraction is lost. -/
theorem read?_secondsText {t : Instant} (ht : t.Valid) :
    read? t.secondsText = some t.truncated := by
  have hwhole : t.truncated.fraction = 0 := by
    unfold Instant.truncated fraction nanosPerSecond
    dsimp only
    split <;> omega
  rw [← secondsText_truncated]
  refine read?_textWith ht.truncated ?_
  rw [hwhole]
  rfl

/-! ## What is read -/

theorem fraction?_lt {cs r : List Char} {n : Nat} (h : fraction? cs = some (n, r)) :
    n < 1000000000 := by
  unfold fraction? at h
  split at h
  · next r' =>
    dsimp only at h
    obtain ⟨k, hk, h⟩ := Option.map_eq_some_iff.mp h
    cases h
    have hlt := digits?_lt hk
    have hused := List.length_take_le 9 (r'.takeWhile isDigit)
    generalize ((r'.takeWhile isDigit).take 9).length = used at hlt hused
    show k * 10 ^ (9 - used) < 10 ^ 9
    rw [show (10 : Nat) ^ 9 = 10 ^ used * 10 ^ (9 - used) by
      rw [← Nat.pow_add, Nat.add_sub_cancel' hused]]
    exact Nat.mul_lt_mul_of_pos_right hlt (Nat.pow_pos (by omega))
  · cases h
    omega

/-- Offsets are whole minutes. -/
theorem offset?_mod {cs r : List Char} {n : Int} (h : offset? cs = some (n, r)) : n % 60 = 0 := by
  unfold offset? at h
  split at h
  · cases h
    rfl
  · cases h
    rfl
  · split at h
    · cases h
      rfl
    split at h
    · obtain ⟨⟨hours, r₁⟩, -, h⟩ := Option.bind_eq_some_iff.mp h
      obtain ⟨⟨minutes, r₂⟩, -, h⟩ := Option.bind_eq_some_iff.mp h
      dsimp only at h
      split at h
      · cases h
        split <;> omega
      · cases h
    · cases h
  · cases h

theorem valid_of_ofFields? {d : Date} {hour minute second nano : Nat} {offset : Int} {t : Instant}
    (h : ofFields? d hour minute second nano offset = some t) (hnano : nano < 1000000000)
    (hoffset : offset % 60 = 0) : t.Valid := by
  unfold ofFields? at h
  rw [Option.ite_none_right_eq_some] at h
  obtain ⟨hfields, h⟩ := h
  dsimp only at h
  rw [Option.ite_none_right_eq_some] at h
  obtain ⟨hyear, h⟩ := h
  cases h
  refine ⟨hyear, ?_, fun hleap => ?_⟩
  · unfold nanosPerSecond
    dsimp only
    split <;> omega
  · have hlong : 1000000000 ≤ nano + (if second = 60 then 1 else 0) * 1000000000 :=
      of_decide_eq_true hleap
    dsimp only
    by_cases hlast : second = 60
    · rw [if_pos hlast, hlast]
      omega
    · rw [if_neg hlast] at hlong
      omega

theorem valid_of_read? {s : String} {t : Instant} (h : read? s = some t) : t.Valid := by
  unfold read? at h
  simp only [Option.bind_eq_bind, Option.bind_eq_some_iff] at h
  obtain ⟨⟨year, r₁⟩, -, r₂, -, ⟨month, r₃⟩, -, r₄, -, ⟨day, r₅⟩, -, h⟩ := h
  dsimp only at h
  split at h
  · split at h
    · simp only [Option.bind_eq_some_iff] at h
      obtain ⟨⟨hour, s₁⟩, -, s₂, -, ⟨minute, s₃⟩, -, s₄, -, ⟨second, s₅⟩, -, ⟨nano, s₆⟩, hnano,
        ⟨offset, s₇⟩, hoffset, h⟩ := h
      rw [Option.ite_none_right_eq_some] at h
      exact valid_of_ofFields? h.2 (fraction?_lt hnano) (offset?_mod hoffset)
    · cases h
  · cases h

end Instant
end Hosting
