import Mathlib.Algebra.Group.Nat.Defs
import PageBlocks.Number.Decimal
import PageBlocks.Time.Stamp

/-!
# The width of stamps

Every field of a written stamp is padded to its width, and none is wider (`length_padded`), since
the calendar ends with the year 9999. The date of a day is bounded through the year of the day: the
estimate for it is at most one off (`lt_daysBefore_yearOf`), so that the days behind the last whole
month are few.
-/

set_option autoImplicit false

namespace PageBlocks

namespace Number.Decimal

theorem length_digits_le {width n : Nat} (h : n < 10 ^ (width + 1)) :
    (digits n).length ≤ width + 1 := by
  induction width generalizing n with
  | zero =>
    have hSmall : n < 10 := by simpa using h
    rw [digits, if_pos hSmall]
    exact Nat.le_refl _
  | succ width ih =>
    rw [digits]
    split
    · exact Nat.succ_le_succ (Nat.zero_le _)
    · have hTenth : n / 10 < 10 ^ (width + 1) := by
        rw [Nat.pow_succ] at h
        omega
      rw [List.length_append]
      exact Nat.succ_le_succ (ih hTenth)

/-- A number that fits is written in the given width. -/
theorem length_padded {width n : Nat} (h : n < 10 ^ (width + 1)) :
    (padded (width + 1) n).length = width + 1 := by
  have hLength := length_digits_le h
  simp only [padded, List.length_append, List.length_replicate]
  omega

end Number.Decimal

namespace Time

namespace Calendar

theorem yearOf_le {n : Nat} (h : n < 3652059) : yearOf n ≤ 9999 := by
  unfold yearOf
  simp only []
  have hEstimate : n * 400 / 146097 + 1 ≤ 10000 := by omega
  generalize hYear : n * 400 / 146097 + 1 = year at *
  split
  · omega
  · split
    · rename_i h₁ h₂
      rcases Nat.lt_or_ge year 9999 with hLt | hGe
      · omega
      · simp only [daysBefore] at h₁ h₂
        omega
    · rename_i h₁ h₂
      rcases Nat.lt_or_ge year 10000 with hLt | hGe
      · omega
      · simp only [daysBefore] at h₁
        omega

theorem lt_daysBefore_yearOf (n : Nat) : n < daysBefore (yearOf n + 1) := by
  unfold yearOf
  simp only []
  generalize hYear : n * 400 / 146097 + 1 = year
  split
  · rename_i h
    rcases year with _ | year
    · omega
    · exact h
  · split
    · simp only [daysBefore]
      omega
    · rename_i h
      exact Nat.lt_of_not_le h

theorem daysBefore_succ_le (year : Nat) : daysBefore (year + 1) ≤ daysBefore year + 366 := by
  simp only [daysBefore]
  omega

/-- The days that are left over are fewer than the next month has, unless all months fit. -/
theorem splitMonths_bounds (lengths : List Nat) (hLengths : ∀ length ∈ lengths, length ≤ 31)
    (n : Nat) :
    (splitMonths lengths n).1 ≤ lengths.length
      ∧ (splitMonths lengths n).2 ≤ 31 + (n - total lengths) := by
  induction lengths generalizing n with
  | nil => exact ⟨Nat.le_refl _, by simp only [splitMonths, total]; omega⟩
  | cons length rest ih =>
    rw [splitMonths]
    split
    · rename_i hFits
      have hLength := hLengths length List.mem_cons_self
      exact ⟨Nat.zero_le _, by simp only; omega⟩
    · obtain ⟨hMonths, hDays⟩ := ih (fun l hMem => hLengths l (List.mem_cons_of_mem _ hMem))
        (n - length)
      refine ⟨Nat.succ_le_succ hMonths, ?_⟩
      simp only [total]
      omega

theorem ofDayNumber_bounds {n : Nat} (h : n < 3652059) :
    (ofDayNumber n).year ≤ 9999 ∧ (ofDayNumber n).month ≤ 13 ∧ (ofDayNumber n).day ≤ 99 := by
  have hLengths : ∀ length ∈ monthLengths (yearOf n), length ≤ 31 := by
    intro length hMem
    simp only [monthLengths, List.mem_cons, List.not_mem_nil, or_false] at hMem
    split at hMem <;> omega
  have hTotal : 365 ≤ total (monthLengths (yearOf n)) := by
    simp only [monthLengths, total]
    split <;> omega
  obtain ⟨hMonths, hDays⟩ := splitMonths_bounds _ hLengths (n - daysBefore (yearOf n))
  have hYear := lt_daysBefore_yearOf n
  have hNext := daysBefore_succ_le (yearOf n)
  have hCount : (monthLengths (yearOf n)).length = 12 := rfl
  refine ⟨yearOf_le h, ?_, ?_⟩
  · simp only [ofDayNumber]
    omega
  · simp only [ofDayNumber]
    omega

end Calendar

namespace Stamp

open PageBlocks.Number

/-- The stamp of an instant of the calendar has the width of a stamp. -/
theorem length_write {t : Instant} (h : t.inCalendar = true) : (write t).length = width := by
  simp only [Instant.inCalendar, Instant.first, Instant.pastLast, Instant.epochDay,
    Instant.perDay, Bool.and_eq_true] at h
  have hPast := of_decide_eq_true h.2
  have hDay : (t.micros + Instant.epochDay * Instant.perDay).toNat / Instant.perDay < 3652059 := by
    simp only [Instant.epochDay, Instant.perDay]
    omega
  obtain ⟨hYear, hMonth, hDate⟩ := Calendar.ofDayNumber_bounds hDay
  have hYear' := @Decimal.length_padded 3 _ (Nat.lt_of_le_of_lt hYear (by decide))
  have hMonth' := @Decimal.length_padded 1 _ (Nat.lt_of_le_of_lt hMonth (by decide))
  have hDate' := @Decimal.length_padded 1 _ (Nat.lt_of_le_of_lt hDate (by decide))
  generalize hTime : (t.micros + Instant.epochDay * Instant.perDay).toNat = n at *
  have hHour := @Decimal.length_padded 1 (n % Instant.perDay / 3600000000)
    (by simp only [Instant.perDay]; omega)
  have hMinute := @Decimal.length_padded 1 (n % Instant.perDay / 60000000 % 60)
    (by simp only [Instant.perDay]; omega)
  have hSecond := @Decimal.length_padded 1 (n % Instant.perDay / Instant.perSecond % 60)
    (by simp only [Instant.perDay]; omega)
  have hMicro := @Decimal.length_padded 5 (n % Instant.perDay % Instant.perSecond)
    (by simp only [Instant.perSecond]; omega)
  simp only [write, Instant.toMoment, ofMoment, hTime, List.length_append, List.length_cons,
    hYear', hMonth', hDate', hHour, hMinute, hSecond, hMicro]
  rfl

end Stamp

end Time

end PageBlocks
