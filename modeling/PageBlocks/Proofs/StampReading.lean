import PageBlocks.Proofs.Stamps

/-!
# Reading stamps back

Every day of the calendar has a date, and the date leads back to the day (`dayNumber_ofDayNumber`);
with the time of day this makes an instant out of its moment again. The written form of a moment is
read field by field, each field with the digits that were written (`number?_padded`), so that a
written stamp is read as the instant that it was written for (`read?_write`).
-/

set_option autoImplicit false

namespace PageBlocks.Time

open PageBlocks.Number

/-! ## Days and dates -/

namespace Calendar

theorem daysBefore_yearOf_le (n : Nat) : daysBefore (yearOf n) ≤ n := by
  unfold yearOf
  simp only []
  generalize hYear : n * 400 / 146097 + 1 = year
  split
  · simp only [daysBefore]
    omega
  · split
    · assumption
    · rename_i h _
      exact Nat.le_of_not_lt h

theorem one_le_yearOf (n : Nat) : 1 ≤ yearOf n := by
  unfold yearOf
  simp only []
  generalize hYear : n * 400 / 146097 + 1 = year
  split
  · rename_i h
    simp only [daysBefore] at h
    omega
  · split <;> omega

/-- The twelve months of a year fill it up. -/
theorem daysBefore_add_total {year : Nat} (h : 1 ≤ year) :
    daysBefore year + total (monthLengths year) = daysBefore (year + 1) := by
  obtain ⟨y, rfl⟩ : ∃ y, year = y + 1 := ⟨year - 1, by omega⟩
  have hFour : (y + 1) / 4 = y / 4 + if (y + 1) % 4 = 0 then 1 else 0 := by split <;> omega
  have hHundred : (y + 1) / 100 = y / 100 + if (y + 1) % 100 = 0 then 1 else 0 := by
    split <;> omega
  have hAll : (y + 1) / 400 = y / 400 + if (y + 1) % 400 = 0 then 1 else 0 := by
    split <;> omega
  have hUpper : (y + 1) % 400 = 0 → (y + 1) % 100 = 0 := by omega
  have hLower : (y + 1) % 100 = 0 → (y + 1) % 4 = 0 := by omega
  have hPast : y / 100 ≤ y / 4 := by omega
  simp only [monthLengths, total, daysBefore, Nat.add_sub_cancel, isLeap, hFour, hHundred, hAll]
  clear hFour hHundred hAll
  by_cases hMore : (y + 1) % 400 = 0
  · simp only [hMore, hUpper hMore, hLower (hUpper hMore), decide_true, ne_eq, not_true_eq_false,
      decide_false, Bool.or_true, Bool.and_self, ↓reduceIte]
    omega
  · by_cases hSome : (y + 1) % 100 = 0
    · simp only [hLower hSome, decide_true, hSome, ne_eq, not_true_eq_false, decide_false, hMore,
        Bool.or_self, Bool.and_false, Bool.false_eq_true, ↓reduceIte]
      omega
    · by_cases hFew : (y + 1) % 4 = 0
      · simp only [hFew, decide_true, ne_eq, hSome, not_false_eq_true, hMore, decide_false,
          Bool.or_false, Bool.and_self, ↓reduceIte]
        omega
      · simp only [hFew, decide_false, ne_eq, hSome, not_false_eq_true, decide_true, hMore,
          Bool.or_false, Bool.and_true, Bool.false_eq_true, ↓reduceIte]
        omega

/-- The days of fewer than all months end within the next month. -/
theorem splitMonths_lt (lengths : List Nat) {n : Nat} (h : n < total lengths) :
    (splitMonths lengths n).1 < lengths.length
      ∧ (splitMonths lengths n).2 < lengths.getD (splitMonths lengths n).1 0 := by
  induction lengths generalizing n with
  | nil => exact absurd h (Nat.not_lt_zero n)
  | cons length rest ih =>
    rw [splitMonths]
    by_cases hFits : n < length
    · rw [if_pos hFits]
      exact ⟨Nat.succ_pos _, hFits⟩
    · rw [if_neg hFits]
      rw [total] at h
      obtain ⟨hMonths, hDays⟩ := ih (n := n - length) (by omega)
      exact ⟨Nat.succ_lt_succ hMonths, hDays⟩

theorem ofDayNumber_eq (n : Nat) :
    ofDayNumber n = ⟨yearOf n,
      (splitMonths (monthLengths (yearOf n)) (n - daysBefore (yearOf n))).1 + 1,
      (splitMonths (monthLengths (yearOf n)) (n - daysBefore (yearOf n))).2 + 1⟩ := rfl

/-- The date of a day leads back to the day. -/
theorem dayNumber_ofDayNumber (n : Nat) : dayNumber (ofDayNumber n) = n := by
  have hSplit := total_take_splitMonths (monthLengths (yearOf n)) (n - daysBefore (yearOf n))
  have hYear := daysBefore_yearOf_le n
  simp only [dayNumber, ofDayNumber, daysBeforeMonth, Nat.add_sub_cancel]
  omega

/-- The days of the years 1 to 9999 have dates of the calendar. -/
theorem isValid_ofDayNumber {n : Nat} (h : n < 3652059) : isValid (ofDayNumber n) = true := by
  have hYear := yearOf_le h
  have hFirst := one_le_yearOf n
  have hFill := daysBefore_add_total hFirst
  have hNext := lt_daysBefore_yearOf n
  have hPast := daysBefore_yearOf_le n
  obtain ⟨hMonths, hDays⟩ := splitMonths_lt (monthLengths (yearOf n))
    (n := n - daysBefore (yearOf n)) (by omega)
  have hTwelve : (monthLengths (yearOf n)).length = 12 := rfl
  rw [ofDayNumber_eq]
  simp only [isValid, monthLength, Nat.add_sub_cancel, Bool.and_eq_true, decide_eq_true_eq]
  exact ⟨⟨⟨⟨⟨hFirst, hYear⟩, by omega⟩, by omega⟩, by omega⟩, hDays⟩

end Calendar

/-! ## Instants and moments -/

namespace Instant

/-- The days since the start of the calendar, for the instants of the calendar. -/
theorem day_lt {t : Instant} (h : t.inCalendar = true) :
    (t.micros + epochDay * perDay).toNat / perDay < 3652059 := by
  simp only [inCalendar, first, pastLast, epochDay, perDay, Bool.and_eq_true] at h
  have hPast := of_decide_eq_true h.2
  simp only [epochDay, perDay]
  omega

/-- The fields of an instant of the calendar are on the calendar and on the clock. -/
theorem isValid_toMoment {t : Instant} (h : t.inCalendar = true) : t.toMoment.isValid = true := by
  have hDate := Calendar.isValid_ofDayNumber (day_lt h)
  unfold Moment.isValid toMoment
  dsimp only
  generalize (t.micros + epochDay * perDay).toNat = n at hDate
  have hTime : n % perDay < perDay := Nat.mod_lt n (by decide)
  simp only [hDate, Bool.true_and, Bool.and_eq_true, decide_eq_true_eq]
  simp only [perDay, perSecond] at hTime ⊢
  omega

/-- The fields of an instant lead back to it. -/
theorem toInstant_toMoment {t : Instant} (h : t.inCalendar = true) :
    t.toMoment.toInstant = t := by
  simp only [inCalendar, first, Bool.and_eq_true] at h
  have hFirst := of_decide_eq_true h.1
  simp only [Moment.toInstant, toMoment, Moment.timeOfDay, Calendar.dayNumber_ofDayNumber]
  obtain ⟨micros⟩ := t
  simp only [epochDay, perDay, perSecond, Instant.mk.injEq] at hFirst ⊢
  omega

end Instant

/-! ## Fields of digits -/

section Digits

open PageBlocks.Number.Decimal

theorem all_isDigit_digits (n : Nat) : (digits n).all isDigit = true :=
  List.all_eq_true.mpr fun _ hMem => isDigit_of_mem_digits hMem

theorem ofDigits_zeros_append (k : Nat) (cs : List Char) :
    ofDigits (List.replicate k '0' ++ cs) = ofDigits cs := by
  induction k with
  | zero => rfl
  | succ k ih => exact ih

theorem all_isDigit_padded (width n : Nat) : (padded width n).all isDigit = true := by
  have hZeros : (List.replicate (width - (digits n).length) '0').all isDigit = true := by
    rw [List.all_replicate]
    split <;> rfl
  rw [padded, List.all_append, hZeros, all_isDigit_digits]
  rfl

/-- A number that was written with zeros in front of it is read back. -/
theorem ofDigits_padded (width n : Nat) : ofDigits (padded width n) = n := by
  rw [padded, ofDigits_zeros_append, ofDigits_digits]

end Digits

namespace Stamp

open PageBlocks.Number.Decimal

theorem peek_cons (c : Char) (cs : List Char) : peek (c :: cs) = c := rfl

/-- A field is read as the number that was written. -/
theorem number?_padded {width n : Nat} (h : n < 10 ^ (width + 1)) (rest : List Char) :
    number? (width + 1) (padded (width + 1) n ++ rest) = some (n, rest) := by
  have hLength := length_padded h
  have hTake : (padded (width + 1) n ++ rest).take (width + 1) = padded (width + 1) n := by
    exact List.take_left' hLength
  have hDrop : (padded (width + 1) n ++ rest).drop (width + 1) = rest := by
    exact List.drop_left' hLength
  rw [number?, hTake, hDrop]
  simp only [hLength, all_isDigit_padded, ofDigits_padded, and_self, ↓reduceIte]

/-- The first character of a field is a digit. -/
theorem isDigit_peek_padded {width n : Nat} (h : n < 10 ^ (width + 1)) (rest : List Char) :
    isDigit (peek (padded (width + 1) n ++ rest)) = true := by
  have hAll := all_isDigit_padded (width + 1) n
  have hLength := length_padded h
  cases hField : padded (width + 1) n with
  | nil =>
    rw [hField] at hLength
    cases hLength
  | cons c cs =>
    rw [hField, List.all_cons, Bool.and_eq_true] at hAll
    exact hAll.1

/-! ## Dates and times -/

variable {year month day hour minute second micro : Nat}

/-- A written date is read as the date. -/
theorem date?_written (hYear : year < 10 ^ 4) (hMonth : month < 10 ^ 2) (hDay : day < 10 ^ 2)
    (rest : List Char) :
    date? 10 (padded 4 year ++ '-' :: (padded 2 month ++ '-' :: (padded 2 day ++ rest)))
      = some ⟨year, month, day⟩ := by
  have hYearLength := @length_padded 3 year hYear
  have hMonthLength := @length_padded 1 month hMonth
  have hDayLength := @length_padded 1 day hDay
  have hNoWeek := ne_of_isDigit
    (isDigit_peek_padded hMonth ('-' :: (padded 2 day ++ rest))) 'W' (by decide)
  unfold date?
  simp only [number?_padded hYear, number?_padded hMonth, number?_padded hDay, Option.bind_eq_bind,
    Option.bind_some, peek_cons, ↓reduceIte, List.drop_succ_cons, List.drop_zero,
    hNoWeek, ne_eq, not_true_eq_false, and_false]
  rw [if_pos]
  simp only [List.length_append, List.length_cons, hYearLength, hMonthLength, hDayLength]
  omega

/-- What is written of a time before its offset starts none. -/
theorem takeWhile_written (hour minute second micro : Nat) (rest : List Char) :
    (padded 2 hour ++ ':' :: (padded 2 minute ++ ':' :: (padded 2 second ++ '.' ::
        (padded 6 micro ++ '+' :: rest)))).takeWhile (!startsOffset ·)
      = padded 2 hour ++ ':' :: (padded 2 minute ++ ':' :: (padded 2 second ++ '.' ::
        padded 6 micro)) := by
  have hDigits (width n : Nat) : ∀ c ∈ padded width n, (!startsOffset c) = true := by
    intro c hMem
    have hDigit := List.all_eq_true.mp (all_isDigit_padded width n) c hMem
    have hPlus := ne_of_isDigit hDigit '+' (by decide)
    have hMinus := ne_of_isDigit hDigit '-' (by decide)
    have hZulu := ne_of_isDigit hDigit 'Z' (by decide)
    simp [startsOffset, hPlus, hMinus, hZulu]
  rw [List.takeWhile_append_of_pos (hDigits 2 hour), List.takeWhile_cons_of_pos (by decide),
    List.takeWhile_append_of_pos (hDigits 2 minute), List.takeWhile_cons_of_pos (by decide),
    List.takeWhile_append_of_pos (hDigits 2 second), List.takeWhile_cons_of_pos (by decide),
    List.takeWhile_append_of_pos (hDigits 6 micro), List.takeWhile_cons_of_neg (by decide),
    List.append_nil]

theorem clock?_written (hHour : hour < 10 ^ 2) (hMinute : minute < 10 ^ 2)
    (hSecond : second < 10 ^ 2) (hMicro : micro < 10 ^ 6) (rest : List Char) :
    clock? 15 (padded 2 hour ++ ':' :: (padded 2 minute ++ ':' :: (padded 2 second ++ '.' ::
        (padded 6 micro ++ '+' :: rest))))
      = some ⟨[hour, minute, second], micro, true⟩ := by
  have hFraction (fields : List Nat) :
      fraction? fields 6 (padded 6 micro ++ '+' :: rest) = some ⟨fields, micro, true⟩ := by
    have hEnd : ('+' :: rest).dropWhile isDigit = '+' :: rest :=
      List.dropWhile_cons_of_neg (by decide)
    simp [fraction?, number?_padded hMicro, hEnd, peek_cons]
  unfold clock?
  -- one round a field: the first colon settles that colons stand between the fields
  rw [clockFrom?]
  simp only [number?_padded hHour, Option.bind_eq_bind, Option.bind_some, peek_cons,
    Option.getD_none, decide_true, and_self, ↓reduceIte, List.drop_succ_cons, List.drop_zero,
    Nat.reduceLeDiff, Nat.reduceSub, List.nil_append]
  rw [clockFrom?]
  simp only [number?_padded hMinute, Option.bind_eq_bind, Option.bind_some, peek_cons,
    Option.getD_some, and_self, ↓reduceIte, List.drop_succ_cons, List.drop_zero,
    Nat.reduceLeDiff, Nat.reduceSub, List.cons_append, List.nil_append]
  rw [clockFrom?]
  simp only [number?_padded hSecond, Option.bind_eq_bind, Option.bind_some, peek_cons,
    Option.getD_some, ↓reduceIte, List.drop_succ_cons, List.drop_zero, Nat.reduceLeDiff,
    Nat.reduceSub, List.cons_append, List.nil_append]
  exact hFraction _

/-- A written time is read as the time, in universal time. -/
theorem time?_written (hHour : hour < 10 ^ 2) (hMinute : minute < 10 ^ 2)
    (hSecond : second < 10 ^ 2) (hMicro : micro < 10 ^ 6) :
    time? (padded 2 hour ++ ':' :: (padded 2 minute ++ ':' :: (padded 2 second ++ '.' ::
        (padded 6 micro ++ "+00:00".toList))))
      = some (⟨[hour, minute, second], micro, true⟩, some 0) := by
  have hRoom : (padded 2 hour ++ ':' :: (padded 2 minute ++ ':' :: (padded 2 second ++ '.' ::
      padded 6 micro))).length = 15 := by
    simp only [List.length_append, List.length_cons, length_padded hHour, length_padded hMinute,
      length_padded hSecond, length_padded hMicro]
  have hZone : "+00:00".toList = '+' :: "00:00".toList := rfl
  have hOffset : offset? ('+' :: "00:00".toList) = some 0 := by decide +kernel
  have hDrop : (padded 2 hour ++ ':' :: (padded 2 minute ++ ':' :: (padded 2 second ++ '.' ::
      (padded 6 micro ++ '+' :: "00:00".toList)))).drop 15 = '+' :: "00:00".toList := by
    have hRest := @List.drop_left' _ _ ('+' :: "00:00".toList) _ hRoom
    simpa only [List.append_assoc, List.cons_append] using hRest
  unfold time?
  rw [hZone, takeWhile_written, hRoom]
  simp only [clock?_written hHour hMinute hSecond hMicro, hDrop, Option.bind_eq_bind,
    Option.bind_some, hOffset]
  rfl

/-- A written date has ten characters. -/
theorem dateWidth?_written (hYear : year < 10 ^ 4) (hMonth : month < 10 ^ 2) {rest : List Char}
    (hRest : 0 < rest.length) :
    dateWidth? (padded 4 year ++ '-' :: (padded 2 month ++ '-' :: rest)) = some 10 := by
  have hYearLength : (padded 4 year).length = 4 := length_padded hYear
  have hMonthLength : (padded 2 month).length = 2 := length_padded hMonth
  have hNoWeek := ne_of_isDigit (isDigit_peek_padded hMonth ('-' :: rest)) 'W' (by decide)
  have hBehind (cs : List Char) (i : Nat) :
      (padded 4 year ++ cs).getD (4 + i) '\x00' = cs.getD i '\x00' := by
    rw [List.getD_eq_getElem?_getD, List.getElem?_append_right (by omega), hYearLength,
      Nat.add_sub_cancel_left, List.getD_eq_getElem?_getD]
  have hNext : (padded 4 year ++ '-' :: (padded 2 month ++ '-' :: rest)).getD (4 + 1) '\x00'
      = peek (padded 2 month ++ '-' :: rest) := by
    rw [hBehind]
    cases padded 2 month <;> rfl
  have hLong : 8 < (padded 4 year ++ '-' :: (padded 2 month ++ '-' :: rest)).length := by
    simp only [List.length_append, List.length_cons, hYearLength, hMonthLength]
    omega
  unfold dateWidth?
  dsimp only
  have hDash : (padded 4 year ++ '-' :: (padded 2 month ++ '-' :: rest)).getD 4 '\x00' = '-' :=
    hBehind _ 0
  rw [if_neg (by omega), if_neg (by omega), if_pos hDash,
    if_neg (by rw [hNext]; exact hNoWeek)]

/-- A written stamp is read as the instant that it was written for. -/
theorem read?_write {t : Instant} (h : t.inCalendar = true) :
    read? (write t) = some (.instant t) := by
  have hValid := Instant.isValid_toMoment h
  have hBack := Instant.toInstant_toMoment h
  have hDate := (Calendar.ofDayNumber_bounds (Instant.day_lt h)).2.2
  have hDay : t.toMoment.date.day ≤ 99 := hDate
  unfold write
  generalize t.toMoment = m at hValid hBack hDay
  obtain ⟨⟨year, month, day⟩, hour, minute, second, micro⟩ := m
  have hFields := hValid
  simp only [Moment.isValid, Calendar.isValid, Bool.and_eq_true, decide_eq_true_eq] at hFields
  have hMicro : micro < 10 ^ 6 := hFields.2
  have hYear : year < 10 ^ 4 := by omega
  have hMonth : month < 10 ^ 2 := by omega
  have hDayBound : day < 10 ^ 2 := Nat.lt_succ_of_le hDay
  have hHour : hour < 10 ^ 2 := by omega
  have hMinute : minute < 10 ^ 2 := by omega
  have hSecond : second < 10 ^ 2 := by omega
  have hTime := time?_written hHour hMinute hSecond hMicro
  simp only [ofMoment, List.append_assoc, List.cons_append]
  generalize padded 2 hour ++ ':' :: (padded 2 minute ++ ':' :: (padded 2 second ++ '.' ::
    (padded 6 micro ++ "+00:00".toList))) = time at hTime
  have hWidth : dateWidth? (padded 4 year ++ '-' :: (padded 2 month ++ '-' ::
      (padded 2 day ++ 'T' :: time))) = some 10 :=
    dateWidth?_written hYear hMonth (by rw [List.length_append]; exact Nat.succ_pos _)
  have hDrop : (padded 4 year ++ '-' :: (padded 2 month ++ '-' ::
      (padded 2 day ++ 'T' :: time))).drop 10 = 'T' :: time := by
    have hLength : (padded 4 year ++ '-' :: (padded 2 month ++ '-' :: padded 2 day)).length
        = 10 := by
      simp only [List.length_append, List.length_cons, length_padded hYear, length_padded hMonth,
        length_padded hDayBound]
    have hRest := @List.drop_left' _ _ ('T' :: time) _ hLength
    simpa only [List.append_assoc, List.cons_append] using hRest
  have hMoment : (⟨⟨year, month, day⟩, Clock.field ⟨[hour, minute, second], micro, true⟩ 0,
      Clock.field ⟨[hour, minute, second], micro, true⟩ 1,
      Clock.field ⟨[hour, minute, second], micro, true⟩ 2, micro⟩ : Moment)
        = ⟨⟨year, month, day⟩, hour, minute, second, micro⟩ := rfl
  unfold read?
  simp only [hWidth, date?_written hYear hMonth hDayBound, hDrop, hTime, Option.bind_eq_bind,
    Option.bind_some, hMoment, hValid, ↓reduceIte, hBack]
  rw [Int.neg_zero]
  exact congrArg (fun t => some (Reading.instant t)) (congrArg Instant.mk (Int.add_zero _))

/-- Stamps are written in ASCII. -/
theorem toNat_lt_of_mem_write {t : Instant} {c : Char} (h : c ∈ write t) : c.toNat < 128 := by
  have hDigits (width n : Nat) (hMem : c ∈ padded width n) : c.toNat < 128 := by
    have hDigit := List.all_eq_true.mp (all_isDigit_padded width n) c hMem
    rw [isDigit, Bool.and_eq_true, decide_eq_true_eq, decide_eq_true_eq] at hDigit
    omega
  have hZone : ∀ c ∈ "+00:00".toList, c.toNat < 128 := by simp
  simp only [write, ofMoment, List.mem_append, List.mem_cons] at h
  rcases h with ((((((h | rfl | h) | rfl | h) | rfl | h) | rfl | h) | rfl | h) | rfl | h) | h
  all_goals first
    | exact hDigits _ _ h
    | exact hZone c h
    | decide

end Stamp

end PageBlocks.Time
