import Mathlib.Data.Int.Order.Basic
import Mathlib.Tactic.IntervalCases

/-! The Gregorian calendar, and the count of days behind the Julian day number. Years begin in
March there, so that the leap day is the last of its year. -/
namespace Muduo.Base

structure YearMonthDay where
  year : Int
  month : Int
  day : Int
  deriving DecidableEq, Repr

def isLeapYear (year : Int) : Prop := year % 4 = 0 ∧ (year % 100 ≠ 0 ∨ year % 400 = 0)

instance (year : Int) : Decidable (isLeapYear year) :=
  inferInstanceAs (Decidable (year % 4 = 0 ∧ (year % 100 ≠ 0 ∨ year % 400 = 0)))

def daysInMonth (year month : Int) : Int :=
  if month = 2 then (if isLeapYear year then 29 else 28)
  else if month = 4 ∨ month = 6 ∨ month = 9 ∨ month = 11 then 30
  else 31

namespace YearMonthDay

structure Valid (t : YearMonthDay) : Prop where
  month : 1 ≤ t.month ∧ t.month ≤ 12
  day : 1 ≤ t.day ∧ t.day ≤ daysInMonth t.year t.month

instance (t : YearMonthDay) : Decidable t.Valid :=
  decidable_of_iff ((1 ≤ t.month ∧ t.month ≤ 12) ∧ 1 ≤ t.day ∧ t.day ≤ daysInMonth t.year t.month)
    ⟨fun ⟨hm, hd⟩ => ⟨hm, hd⟩, fun h => ⟨h.month, h.day⟩⟩

/-- The day after. -/
def next (t : YearMonthDay) : YearMonthDay :=
  if t.day < daysInMonth t.year t.month then { t with day := t.day + 1 }
  else if t.month < 12 then ⟨t.year, t.month + 1, 1⟩
  else ⟨t.year + 1, 1, 1⟩

/-- The order of the calendar. -/
def Before (t u : YearMonthDay) : Prop :=
  t.year < u.year ∨ t.year = u.year ∧ (t.month < u.month ∨ t.month = u.month ∧ t.day < u.day)

/-- The year from March on, with year 0 in -4800, and the month in it. -/
def marchYear (t : YearMonthDay) : Int := t.year + 4800 - (14 - t.month) / 12

def marchMonth (t : YearMonthDay) : Int := t.month + 12 * ((14 - t.month) / 12) - 3

end YearMonthDay

/-- The days of such a year in front of a month. -/
def monthStart (m : Int) : Int := (153 * m + 2) / 5

/-- The days in front of such a year. -/
def yearStart (y : Int) : Int := 365 * y + y / 4 - y / 100 + y / 400

/-- The place of a date in its March year. -/
def YearMonthDay.dayOfYear (t : YearMonthDay) : Int := monthStart t.marchMonth + t.day - 1

def YearMonthDay.number (t : YearMonthDay) : Int := yearStart t.marchYear + t.dayOfYear

/-- A day of a March year; the last day of February is a 366th only in front of a leap year. -/
structure InYear (y e : Int) : Prop where
  low : 0 ≤ e
  high : e ≤ 365
  leap : e = 365 → isLeapYear (y + 1)

variable {t u : YearMonthDay} {y e a : Int}

theorem YearMonthDay.Valid.inYear (h : t.Valid) : InYear t.marchYear t.dayOfYear := by
  obtain ⟨⟨h₁, h₁₂⟩, hd₁, hd⟩ := h
  obtain ⟨year, month, day⟩ := t
  simp only [marchYear, dayOfYear, marchMonth, monthStart, daysInMonth, isLeapYear] at *
  constructor
  · split_ifs at hd <;> omega
  · split_ifs at hd <;> omega
  · split_ifs at hd <;> simp only [isLeapYear] <;> omega

theorem YearMonthDay.Valid.monthOf (h : t.Valid) :
    (5 * t.dayOfYear + 2) / 153 = t.marchMonth := by
  obtain ⟨⟨h₁, h₁₂⟩, hd₁, hd⟩ := h
  obtain ⟨year, month, day⟩ := t
  simp only [dayOfYear, marchMonth, monthStart, daysInMonth] at *
  interval_cases month <;> split_ifs at hd <;> omega

/-- A day count by century and year in it. -/
theorem yearStart_century (q r : Int) (hr : 0 ≤ r ∧ r ≤ 99) :
    yearStart (100 * q + r) = 146097 * q / 4 + (365 * r + r / 4) := by
  obtain ⟨hlow, hhigh⟩ := hr
  simp only [yearStart]
  omega

theorem InYear.last {q r : Int} (h : InYear (100 * q + r) e) (hr : 0 ≤ r ∧ r ≤ 99)
    (he : e = 365) : r % 4 = 3 ∧ (r = 99 → q % 4 = 3) := by
  obtain ⟨hlow, hhigh⟩ := hr
  have hleap := h.leap he
  simp only [isLeapYear] at hleap
  omega

/-- The century of a day, and what is left of the count in it. -/
theorem centuryOf {q r c : Int} (hr : 0 ≤ r ∧ r ≤ 99) (he : InYear (100 * q + r) e)
    (hc : c = 365 * r + r / 4 + e) : (4 * (146097 * q / 4 + c) + 3) / 146097 = q := by
  have hlast := he.last hr
  obtain ⟨hlow, hhigh, _⟩ := he
  have hbound : 0 ≤ c ∧ (c ≤ 36523 ∨ c = 36524 ∧ q % 4 = 3) := by omega
  omega

/-- The year of a day in its century. -/
theorem yearOf {q r c : Int} (hr : 0 ≤ r ∧ r ≤ 99) (he : InYear (100 * q + r) e)
    (hc : c = 365 * r + r / 4 + e) : (4 * c + 3) / 1461 = r ∧ c - 1461 * r / 4 = e := by
  have hlast := he.last hr
  obtain ⟨hlow, hhigh, _⟩ := he
  omega

/-- The date that a month and a day of a March year belong to. -/
def ofMarch (y m e : Int) : YearMonthDay :=
  ⟨y - 4800 + m / 10, m + 3 - 12 * (m / 10), e - monthStart m + 1⟩

/-- The date with a number. -/
def ofNumber (a : Int) : YearMonthDay :=
  let b := (4 * a + 3) / 146097
  let c := a - b * 146097 / 4
  let d := (4 * c + 3) / 1461
  let e := c - 1461 * d / 4
  ofMarch (b * 100 + d) ((5 * e + 2) / 153) e

theorem ofMarch_marchYear (h : t.Valid) : ofMarch t.marchYear t.marchMonth t.dayOfYear = t := by
  obtain ⟨⟨h₁, h₁₂⟩, _⟩ := h
  obtain ⟨year, month, day⟩ := t
  simp only [ofMarch, YearMonthDay.dayOfYear, YearMonthDay.marchYear, YearMonthDay.marchMonth,
    YearMonthDay.mk.injEq] at *
  omega

theorem ofNumber_of_inYear {q r : Int} (hr : 0 ≤ r ∧ r ≤ 99) (he : InYear (100 * q + r) e) :
    ofNumber (yearStart (100 * q + r) + e) = ofMarch (100 * q + r) ((5 * e + 2) / 153) e := by
  have hb := centuryOf hr he rfl
  obtain ⟨hd, hday⟩ := yearOf hr he rfl
  have hc : 146097 * q / 4 + (365 * r + r / 4 + e) - q * 146097 / 4 = 365 * r + r / 4 + e := by
    omega
  have hy : q * 100 + r = 100 * q + r := by omega
  rw [yearStart_century q r hr, Int.add_assoc]
  simp only [ofNumber, hb, hc, hd, hday, hy]

/-- From a date to its number and back. -/
theorem ofNumber_number (h : t.Valid) : ofNumber t.number = t := by
  have hr : 0 ≤ t.marchYear % 100 ∧ t.marchYear % 100 ≤ 99 := by omega
  have hy : 100 * (t.marchYear / 100) + t.marchYear % 100 = t.marchYear := Int.mul_ediv_add_emod _ _
  have he := h.inYear
  rw [← hy] at he
  have hback := ofNumber_of_inYear hr he
  rw [hy, h.monthOf] at hback
  exact hback.trans (ofMarch_marchYear h)

/-- What is left of a number in its century, whose last day is that of a 400th year. -/
theorem rest_of_century {a q c : Int} (hq : q = (4 * a + 3) / 146097) (hc : c = a - 146097 * q / 4) :
    0 ≤ c ∧ c ≤ 36524 ∧ (c = 36524 → q % 4 = 3) := by
  have hlow : 146097 * q ≤ 4 * a + 3 := by omega
  have hhigh : 4 * a + 3 < 146097 * q + 146097 := by omega
  clear hq
  have hcut : 4 * c = 4 * a - 146097 * q + q % 4 := by omega
  clear hc
  omega

/-- What is left of it in its year, whose last day is that of a fourth year. -/
theorem rest_of_year {c r e : Int} (hc : 0 ≤ c ∧ c ≤ 36524) (hr : r = (4 * c + 3) / 1461)
    (he : e = c - 1461 * r / 4) :
    (0 ≤ r ∧ r ≤ 99) ∧ 0 ≤ e ∧ e ≤ 365 ∧ (e = 365 → r % 4 = 3 ∧ (r = 99 → c = 36524)) := by
  have hlow : 1461 * r ≤ 4 * c + 3 := by omega
  have hhigh : 4 * c + 3 < 1461 * r + 1461 := by omega
  clear hr
  have hcut : 4 * e = 4 * c - 1461 * r + r % 4 := by omega
  clear he
  omega

/-- Every number is that of a day of a March year. -/
theorem exists_inYear (a : Int) : ∃ q r e, (0 ≤ r ∧ r ≤ 99) ∧ InYear (100 * q + r) e ∧
    a = yearStart (100 * q + r) + e := by
  obtain ⟨q, hq⟩ : ∃ q, q = (4 * a + 3) / 146097 := ⟨_, rfl⟩
  obtain ⟨c, hc⟩ : ∃ c, c = a - 146097 * q / 4 := ⟨_, rfl⟩
  obtain ⟨r, hr⟩ : ∃ r, r = (4 * c + 3) / 1461 := ⟨_, rfl⟩
  obtain ⟨e, he⟩ : ∃ e, e = c - 1461 * r / 4 := ⟨_, rfl⟩
  obtain ⟨hlow, hhigh, hfour⟩ := rest_of_century hq hc
  obtain ⟨hyear, he₀, he₁, hlast⟩ := rest_of_year ⟨hlow, hhigh⟩ hr he
  clear hq hr
  refine ⟨q, r, e, hyear, ⟨he₀, he₁, fun h => ?_⟩, ?_⟩
  · obtain ⟨hr, hninety⟩ := hlast h
    clear hc he hlast
    simp only [isLeapYear]
    omega
  · rw [yearStart_century q r hyear]
    clear hlast hfour
    omega

theorem ofMarch_number {m : Int} (hm : 0 ≤ m ∧ m ≤ 11) :
    (ofMarch y m e).number = yearStart y + e := by
  have hyear : (ofMarch y m e).marchYear = y := by
    simp only [ofMarch, YearMonthDay.marchYear]
    omega
  have hmonth : (ofMarch y m e).marchMonth = m := by
    simp only [ofMarch, YearMonthDay.marchMonth]
    omega
  simp only [YearMonthDay.number, YearMonthDay.dayOfYear, hyear, hmonth]
  simp only [ofMarch]
  omega

theorem ofMarch_valid (h : InYear y e) : (ofMarch y ((5 * e + 2) / 153) e).Valid := by
  obtain ⟨m, hm⟩ : ∃ m, m = (5 * e + 2) / 153 := ⟨_, rfl⟩
  obtain ⟨hlow, hhigh, hleap⟩ := h
  have hm₀ : 0 ≤ m := by omega
  have hm₁ : m ≤ 11 := by omega
  have hfebruary : e ≤ 364 ∨ isLeapYear (y - 4800 + 1) := by
    simp only [isLeapYear] at *
    omega
  clear hleap
  rw [← hm]
  constructor
  · simp only [ofMarch]
    interval_cases m <;> simp
  · simp only [ofMarch, monthStart, daysInMonth]
    rcases hfebruary with hshort | hleap
    · have hmin : 28 ≤ if isLeapYear (y - 4800 + 1) then (29 : Int) else 28 := by
        split_ifs <;> decide
      interval_cases m <;> simp <;> omega
    · interval_cases m <;> simp [hleap] <;> omega

/-- From a number to its date and back. -/
theorem ofNumber_valid (a : Int) : (ofNumber a).Valid ∧ (ofNumber a).number = a := by
  obtain ⟨q, r, e, hr, he, rfl⟩ := exists_inYear a
  rw [ofNumber_of_inYear hr he]
  refine ⟨ofMarch_valid he, ofMarch_number ?_⟩
  obtain ⟨hlow, hhigh, _⟩ := he
  omega

theorem daysInMonth_pos (year month : Int) : 1 ≤ daysInMonth year month := by
  unfold daysInMonth
  split_ifs <;> decide

theorem daysInMonth_le (year month : Int) : daysInMonth year month ≤ 31 := by
  unfold daysInMonth
  split_ifs <;> decide

theorem valid_next (h : t.Valid) : t.next.Valid := by
  obtain ⟨⟨h₁, h₁₂⟩, hd₁, hd⟩ := h
  unfold YearMonthDay.next
  split_ifs with hday hmonth
  · exact ⟨⟨h₁, h₁₂⟩, Int.le_add_one hd₁, hday⟩
  · exact ⟨⟨Int.le_add_one h₁, hmonth⟩, le_rfl, daysInMonth_pos _ _⟩
  · exact ⟨⟨le_rfl, Int.le_of_lt (by decide : (1 : Int) < 12)⟩, le_rfl, daysInMonth_pos _ _⟩

theorem year_next {y : Int} (h : y ≤ t.year) : y ≤ t.next.year := by
  unfold YearMonthDay.next
  split_ifs
  · exact h
  · exact h
  · exact Int.le_add_one h

theorem isLeapYear_add (year : Int) : isLeapYear (year + 4800) ↔ isLeapYear year := by
  unfold isLeapYear
  omega

theorem yearStart_succ (y : Int) :
    yearStart (y + 1) = yearStart y + (if isLeapYear (y + 1) then 366 else 365) := by
  unfold yearStart isLeapYear
  split_ifs <;> omega

/-- February ends with the March year. -/
theorem number_february_end (year : Int) :
    (YearMonthDay.mk year 3 1).number = (YearMonthDay.mk year 2 (daysInMonth year 2)).number + 1 := by
  have hmarch : (YearMonthDay.mk year 3 1).marchYear = year + 4799 + 1 := by
    simp only [YearMonthDay.marchYear]
    omega
  have hfebruary : ∀ day, (YearMonthDay.mk year 2 day).marchYear = year + 4799 := by
    intro day
    simp only [YearMonthDay.marchYear]
    omega
  have hleap : isLeapYear (year + 4799 + 1) ↔ isLeapYear year := by
    rw [Int.add_assoc]
    exact isLeapYear_add year
  simp only [YearMonthDay.number, hmarch, hfebruary, yearStart_succ, hleap, YearMonthDay.dayOfYear,
    YearMonthDay.marchMonth, monthStart, daysInMonth, if_true]
  split_ifs <;> omega

/-- The last of a month has the number in front of the first of the next. -/
theorem number_month_end (h : t.Valid) (hd : t.day = daysInMonth t.year t.month)
    (hm : t.month < 12) : (YearMonthDay.mk t.year (t.month + 1) 1).number = t.number + 1 := by
  obtain ⟨⟨h₁, h₁₂⟩, _⟩ := h
  obtain ⟨year, month, day⟩ := t
  by_cases hfeb : month = 2
  · subst hfeb
    rw [show day = daysInMonth year 2 from hd]
    exact number_february_end year
  · simp only [YearMonthDay.number, YearMonthDay.dayOfYear, YearMonthDay.marchMonth,
      YearMonthDay.marchYear, monthStart, daysInMonth, if_neg hfeb] at *
    interval_cases month <;> simp at hd ⊢ <;> omega

/-- The day after has the next number. -/
theorem number_next (h : t.Valid) : t.next.number = t.number + 1 := by
  unfold YearMonthDay.next
  have hd := h.day.2
  split_ifs with hday hmonth
  · simp only [YearMonthDay.number, YearMonthDay.dayOfYear, YearMonthDay.marchMonth,
      YearMonthDay.marchYear]
    omega
  · exact number_month_end h (le_antisymm hd (not_lt.mp hday)) hmonth
  · have hday' := le_antisymm hd (not_lt.mp hday)
    have hmonth' : t.month = 12 := le_antisymm h.month.2 (not_lt.mp hmonth)
    have hthirtyOne : t.day = 31 := by
      rw [hday', hmonth']
      rfl
    have hmarch : (YearMonthDay.mk (t.year + 1) 1 1).marchYear = t.marchYear := by
      simp only [YearMonthDay.marchYear, hmonth']
      omega
    simp only [YearMonthDay.number, hmarch, YearMonthDay.dayOfYear, YearMonthDay.marchMonth,
      monthStart, hthirtyOne, hmonth']
    omega

/-- Two dates with one number are one date. -/
theorem number_injective (ht : t.Valid) (hu : u.Valid) (h : t.number = u.number) : t = u := by
  rw [← ofNumber_number ht, h, ofNumber_number hu]

namespace YearMonthDay.Before

theorem next (t : YearMonthDay) : t.Before t.next := by
  unfold YearMonthDay.next
  split_ifs with hday hmonth
  · exact .inr ⟨rfl, .inr ⟨rfl, Int.lt_succ t.day⟩⟩
  · exact .inr ⟨rfl, .inl (Int.lt_succ t.month)⟩
  · exact .inl (Int.lt_succ t.year)

theorem trans {v : YearMonthDay} (h : t.Before u) (h' : u.Before v) : t.Before v := by
  unfold YearMonthDay.Before at *
  omega

theorem asymm (h : t.Before u) : ¬ u.Before t := by
  unfold YearMonthDay.Before at *
  omega

/-- Day after day, a later date comes after. -/
theorem of_number_add (n : Nat) (ht : t.Valid) (hu : u.Valid)
    (h : u.number = t.number + n + 1) : t.Before u := by
  induction n generalizing t with
  | zero =>
    have hnext : t.next = u :=
      number_injective (valid_next ht) hu ((number_next ht).trans (by omega))
    exact hnext ▸ next t
  | succ n ih =>
    have hrest := ih (valid_next ht) (by rw [number_next ht]; omega)
    exact (next t).trans hrest

end YearMonthDay.Before

/-- The order of the calendar is the order of the numbers. -/
theorem number_lt_iff (ht : t.Valid) (hu : u.Valid) : t.number < u.number ↔ t.Before u := by
  have hbefore : ∀ {t u : YearMonthDay}, t.Valid → u.Valid → t.number < u.number → t.Before u := by
    intro t u ht hu h
    exact .of_number_add (u.number - t.number - 1).toNat ht hu (by omega)
  refine ⟨hbefore ht hu, fun h => ?_⟩
  rcases lt_trichotomy t.number u.number with hlt | heq | hgt
  · exact hlt
  · rw [number_injective ht hu heq] at h
    exact absurd h h.asymm
  · exact absurd (hbefore hu ht hgt) h.asymm

end Muduo.Base
