import Hosting.Instant

/-!
# The calendar

The date of a day is a valid one (`isValid_ofDays`), and the days up to it are counted back to
that day (`toDays_ofDays`).  The arithmetic of both goes through the days of an era of 400
years, which `Splits` divides as the calendar does.
-/

namespace Hosting
namespace Date

variable {n c q k d m : Int}

/-- The day `n` of an era of 400 years is the day `d` of a year, which is the year `k` of a
group of four, the group `q` of a century, and the century `c`. -/
structure Splits (n c q k d : Int) : Prop where
  day : n = 36524 * c + 1461 * q + 365 * k + d
  century : 0 ≤ c ∧ c ≤ 3
  group : 0 ≤ q ∧ q ≤ 24
  year : 0 ≤ k ∧ k ≤ 3
  dayOfYear : 0 ≤ d ∧ d ≤ 365
  leap : d = 365 → k = 3 ∧ (q < 24 ∨ c = 3)

theorem exists_splits (h0 : 0 ≤ n) (hn : n < 146097) :
    ∃ c q k d, Splits n c q k d := by
  by_cases hlast : n = 146096
  · exact ⟨3, 24, 3, 365, by omega, by omega, by omega, by omega, by omega, by omega⟩
  have hc : 0 ≤ n / 36524 ∧ n / 36524 ≤ 3 := by omega
  have hr : 0 ≤ n % 36524 ∧ n % 36524 < 36524 := by omega
  have hq : 0 ≤ n % 36524 / 1461 ∧ n % 36524 / 1461 ≤ 24 := by omega
  have hs : 0 ≤ n % 36524 % 1461 ∧ n % 36524 % 1461 < 1461 := by omega
  have hday : n = 36524 * (n / 36524) + 1461 * (n % 36524 / 1461) + n % 36524 % 1461 := by omega
  by_cases hleap : n % 36524 % 1461 = 1460
  · refine ⟨n / 36524, n % 36524 / 1461, 3, 365, ?_, hc, hq, ?_, ?_, ?_⟩ <;> omega
  · refine ⟨n / 36524, n % 36524 / 1461, n % 36524 % 1461 / 365, n % 36524 % 1461 % 365,
      ?_, hc, hq, ?_, ?_, ?_⟩ <;> omega

theorem Splits.yearOfEra (h : Splits n c q k d) :
    (n - n / 1460 + n / 36524 - n / 146096) / 365 = 100 * c + 4 * q + k := by
  obtain ⟨hday, hc, hq, hk, hd, hleap⟩ := h
  by_cases hlast : n = 146096
  · omega
  · have hcentury : n / 36524 = c := by omega
    have hera : n / 146096 = 0 := by omega
    have hgroups : n / 1460 = 25 * c + q ∨ n / 1460 = 25 * c + q + 1 := by omega
    rcases hgroups with h | h <;> omega

theorem Splits.fours (h : Splits n c q k d) :
    (100 * c + 4 * q + k) / 4 = 25 * c + q := by
  have hk := h.year
  omega

theorem Splits.centuries (h : Splits n c q k d) :
    (100 * c + 4 * q + k) / 100 = c := by
  have hk := h.year
  have hq := h.group
  omega

theorem Splits.day_eq (h : Splits n c q k d) :
    n - (365 * (100 * c + 4 * q + k) + (100 * c + 4 * q + k) / 4 - (100 * c + 4 * q + k) / 100) =
      d := by
  rw [h.fours, h.centuries, h.day]
  omega

theorem ofDays_eq (h : Splits ((n + 719468) % 146097) c q k d)
    (hm : m = (5 * d + 2) / 153) : ofDays n =
      ⟨100 * c + 4 * q + k + (n + 719468) / 146097 * 400 + (if m < 10 then 0 else 1),
        (if m < 10 then m + 3 else m - 9).toNat, (d - (153 * m + 2) / 5 + 1).toNat⟩ := by
  have hm0 : 0 ≤ m ∧ m ≤ 11 := by
    have hd := h.dayOfYear
    omega
  unfold ofDays
  simp only [h.yearOfEra, h.day_eq, ← hm]
  refine congrArg (Date.mk · _ _) ?_
  generalize 100 * c + 4 * q + k + (n + 719468) / 146097 * 400 = y
  by_cases hm' : m < 10
  · rw [if_pos hm', if_pos hm', if_neg (by omega), Int.add_zero]
  · rw [if_neg hm', if_neg hm', if_pos (by omega)]

theorem toDays_eq (h : Splits n c q k d) (hm : m = (5 * d + 2) / 153) (z : Int) :
    toDays ⟨100 * c + 4 * q + k + z * 400 + (if m < 10 then 0 else 1),
      (if m < 10 then m + 3 else m - 9).toNat, (d - (153 * m + 2) / 5 + 1).toNat⟩ =
        z * 146097 + n - 719468 := by
  have hday := h.day
  have hd := h.dayOfYear
  have hm0 : 0 ≤ m ∧ m ≤ 11 := by omega
  have hstart : (153 * m + 2) / 5 ≤ d := by omega
  have hdayOfMonth : ((d - (153 * m + 2) / 5 + 1).toNat : Int) = d - (153 * m + 2) / 5 + 1 :=
    Int.toNat_of_nonneg (by omega)
  have hyear : 0 ≤ 100 * c + 4 * q + k ∧ 100 * c + 4 * q + k < 400 := by
    obtain ⟨-, hc, hq, hk, -, -⟩ := h
    omega
  have hera : (100 * c + 4 * q + k + z * 400) / 400 = z := by omega
  have hyearOfEra : (100 * c + 4 * q + k + z * 400) % 400 = 100 * c + 4 * q + k := by omega
  have hfours := h.fours
  have hcenturies := h.centuries
  unfold toDays
  by_cases hm' : m < 10
  · have hmonth : ((m + 3).toNat : Int) = m + 3 := Int.toNat_of_nonneg (by omega)
    have hturn : (m + 3 + 9) % 12 = m := by omega
    have hspring : ¬(m + 3).toNat ≤ 2 := by omega
    simp only [if_pos hm', if_neg hspring, Int.add_zero, hera, hyearOfEra, hfours, hcenturies,
      hmonth, hturn, hdayOfMonth]
    omega
  · have hmonth : ((m - 9).toNat : Int) = m - 9 := Int.toNat_of_nonneg (by omega)
    have hturn : (m - 9 + 9) % 12 = m := by omega
    have hwinter : (m - 9).toNat ≤ 2 := by omega
    simp only [if_neg hm', if_pos hwinter, Int.add_sub_cancel, hera, hyearOfEra, hfours,
      hcenturies, hmonth, hturn, hdayOfMonth]
    omega

theorem toDays_ofDays (n : Int) : (ofDays n).toDays = n := by
  obtain ⟨c, q, k, d, h⟩ := exists_splits (n := (n + 719468) % 146097) (by omega) (by omega)
  rw [ofDays_eq h rfl, toDays_eq h rfl]
  omega

theorem Splits.isLeapYear (h : Splits n c q k d) (hd : d = 365) (z : Int) :
    isLeapYear (100 * c + 4 * q + k + z * 400 + 1) = true := by
  obtain ⟨-, -, hq, -, -, hleap⟩ := h
  obtain ⟨rfl, hleap⟩ := hleap hd
  unfold Date.isLeapYear
  simp only [Bool.and_eq_true, Bool.or_eq_true, beq_iff_eq, bne_iff_ne]
  omega

theorem isValid_ofDays (n : Int) : (ofDays n).isValid = true := by
  obtain ⟨c, q, k, d, h⟩ := exists_splits (n := (n + 719468) % 146097) (by omega) (by omega)
  have hleap := h.isLeapYear (z := (n + 719468) / 146097)
  have hd := h.dayOfYear
  rw [ofDays_eq h rfl]
  generalize (n + 719468) / 146097 = z at *
  generalize hm : (5 * d + 2) / 153 = m
  by_cases hlast : m = 11
  · -- February is the last month, and only it depends on the year.
    subst hlast
    cases hlength : isLeapYear (100 * c + 4 * q + k + z * 400 + 1) with
    | true =>
      simp [isValid, monthLength, hlength]
      omega
    | false =>
      have hshort : d ≠ 365 := fun hd => Bool.false_ne_true (hlength.symm.trans (hleap hd))
      simp [isValid, monthLength, hlength]
      omega
  · have hmonth : m = 0 ∨ m = 1 ∨ m = 2 ∨ m = 3 ∨ m = 4 ∨ m = 5 ∨ m = 6 ∨ m = 7 ∨ m = 8 ∨
        m = 9 ∨ m = 10 := by omega
    rcases hmonth with rfl | rfl | rfl | rfl | rfl | rfl | rfl | rfl | rfl | rfl | rfl
    all_goals
      simp [isValid, monthLength]
      omega

theorem month_le {d : Date} (h : d.isValid = true) : d.month ≤ 12 := by
  simp only [isValid, Bool.and_eq_true, decide_eq_true_eq] at h
  exact h.1.1.2

theorem day_le {d : Date} (h : d.isValid = true) : d.day ≤ 31 := by
  simp only [isValid, Bool.and_eq_true, decide_eq_true_eq] at h
  have hlength : monthLength d.year d.month ≤ 31 := by
    unfold monthLength
    split <;> split <;> omega
  omega

end Date
end Hosting
