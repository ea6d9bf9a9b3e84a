import Muduo.Base.Calendar
import Muduo.Support.CInt

/-! `muduo::Date`. -/
namespace Muduo.Base
open Muduo.Support

def getJulianDayNumber (year month day : CInt) : CInt :=
  let a := (14 - month) / 12
  let y := year + 4800 - a
  let m := month + 12 * a - 3
  day + (153 * m + 2) / 5 + 365 * y + y / 4 - y / 100 + y / 400 - 32045

/-- The fields of a `YearMonthDay` as the expressions that are stored in them. -/
def getYearMonthDay (julianDayNumber : CInt) : CInt × CInt × CInt :=
  let a := julianDayNumber + 32044
  let b := (4 * a + 3) / 146097
  let c := a - b * 146097 / 4
  let d := (4 * c + 3) / 1461
  let e := c - 1461 * d / 4
  let m := (5 * e + 2) / 153
  (b * 100 + d - 4800 + m / 10, m + 3 - 12 * (m / 10), e - (153 * m + 2) / 5 + 1)

structure Date where
  julianDayNumber : Int
  deriving Repr

namespace Date

/-- `Date(year, month, day)`. -/
def ofYearMonthDay (t : YearMonthDay) : Option Date :=
  (getJulianDayNumber (.ofInt t.year) (.ofInt t.month) (.ofInt t.day)).value.map Date.mk

def yearMonthDay (x : Date) : Option YearMonthDay := do
  let (year, month, day) := getYearMonthDay (.ofInt x.julianDayNumber)
  return { year := ← year.value, month := ← month.value, day := ← day.value }

def weekDay (x : Date) : CInt := (.ofInt x.julianDayNumber + 1) % 7

instance : LT Date := ⟨fun x y => x.julianDayNumber < y.julianDayNumber⟩

instance : BEq Date := ⟨fun x y => x.julianDayNumber == y.julianDayNumber⟩

variable {t u : YearMonthDay} {x y : Date}

/-- Until the year 1465000 nothing overflows. -/
theorem getJulianDayNumber_evaluates (h : t.Valid) (hy : -4799 ≤ t.year) :
    (getJulianDayNumber (.ofInt t.year) (.ofInt t.month) (.ofInt t.day)).Evaluates
      (t.year ≤ 1465000) (t.number - 32044) := by
  obtain ⟨⟨h₁, h₁₂⟩, hd₁, hd⟩ := h
  have hd₃₁ := hd.trans (daysInMonth_le t.year t.month)
  have hlit := fun n h => CInt.lit_evaluates (P := t.year ≤ 1465000) n h
  have hyear := CInt.ofInt_evaluates (P := t.year ≤ 1465000) (n := t.year) (by omega)
  have hmonth := CInt.ofInt_evaluates (P := t.year ≤ 1465000) (n := t.month) (by omega)
  have hday := CInt.ofInt_evaluates (P := t.year ≤ 1465000) (n := t.day) (by omega)
  obtain ⟨a, ha⟩ : ∃ a, a = (14 - t.month) / 12 := ⟨_, rfl⟩
  obtain ⟨y, hy'⟩ : ∃ y, y = t.year + 4800 - a := ⟨_, rfl⟩
  obtain ⟨m, hm⟩ : ∃ m, m = t.month + 12 * a - 3 := ⟨_, rfl⟩
  have hy₀ : 0 ≤ y ∧ (t.year ≤ 1465000 → y ≤ 1469800) := by omega
  have hm₀ : 0 ≤ m ∧ m ≤ 11 := by omega
  have hea := ((((hlit 14 (by omega)).sub hmonth (by omega)).div (hlit 12 (by omega)) (by omega)
    (by omega) (by omega))).of_eq (m := a) (by omega)
  have hey := ((hyear.add (hlit 4800 (by omega)) (by omega)).sub hea (by omega)).of_eq (m := y)
    (by omega)
  have hem := ((hmonth.add ((hlit 12 (by omega)).mul hea (by omega)) (by omega)).sub
    (hlit 3 (by omega)) (by omega)).of_eq (m := m) (by omega)
  have hnumber : t.number = yearStart y + (monthStart m + t.day - 1) := by
    rw [hy', hm, ha]
    rfl
  simp only [yearStart, monthStart] at hnumber
  clear ha hy' hm
  have hdays := hday.add ((((hlit 153 (by omega)).mul hem (by omega)).add (hlit 2 (by omega))
    (by omega)).div (hlit 5 (by omega)) (by omega) (by omega) (by omega)) (by omega)
  have hyears := (hdays.add ((hlit 365 (by omega)).mul hey (by omega)) (by omega)).add
    (hey.div (hlit 4 (by omega)) (by omega) (by omega) (by omega)) (by omega)
  have hcenturies := (hyears.sub (hey.div (hlit 100 (by omega)) (by omega) (by omega) (by omega))
    (by omega)).add (hey.div (hlit 400 (by omega)) (by omega) (by omega) (by omega)) (by omega)
  exact (hcenturies.sub (hlit 32045 (by omega)) (by omega)).of_eq (by omega)

/-- Up to this number `getYearMonthDay` can multiply by 4. -/
theorem getYearMonthDay_evaluates {j : Int} (hj : -32044 ≤ j) :
    (getYearMonthDay (.ofInt j)).1.Evaluates (j ≤ 536838867) (ofNumber (j + 32044)).year ∧
    (getYearMonthDay (.ofInt j)).2.1.Evaluates (j ≤ 536838867) (ofNumber (j + 32044)).month ∧
    (getYearMonthDay (.ofInt j)).2.2.Evaluates (j ≤ 536838867) (ofNumber (j + 32044)).day := by
  have hlit := fun n h => CInt.lit_evaluates (P := j ≤ 536838867) n h
  obtain ⟨a, ha⟩ : ∃ a, a = j + 32044 := ⟨_, rfl⟩
  have hea := ((CInt.ofInt_evaluates (P := j ≤ 536838867) (n := j) (by omega)).add
    (hlit 32044 (by omega)) (by omega)).of_eq (m := a) (by omega)
  rw [← ha]
  have ha₀ : 0 ≤ a ∧ (j ≤ 536838867 → a ≤ 536870911) := by omega
  clear ha
  obtain ⟨b, hb⟩ : ∃ b, b = (4 * a + 3) / 146097 := ⟨_, rfl⟩
  have heb := ((((hlit 4 (by omega)).mul hea (by omega)).add (hlit 3 (by omega)) (by omega)).div
    (hlit 146097 (by omega)) (by omega) (by omega) (by omega)).of_eq (m := b) (by omega)
  obtain ⟨c, hc⟩ : ∃ c, c = a - b * 146097 / 4 := ⟨_, rfl⟩
  have hb₀ : 0 ≤ b ∧ b * 146097 ≤ 4 * a + 3 := by omega
  have hc₀ := rest_of_century hb (hc.trans (by rw [Int.mul_comm]))
  have hec := (hea.sub ((heb.mul (hlit 146097 (by omega)) (by omega)).div (hlit 4 (by omega))
    (by omega) (by omega) (by omega)) (by omega)).of_eq (m := c) (by omega)
  obtain ⟨d, hd⟩ : ∃ d, d = (4 * c + 3) / 1461 := ⟨_, rfl⟩
  obtain ⟨e, he⟩ : ∃ e, e = c - 1461 * d / 4 := ⟨_, rfl⟩
  obtain ⟨m, hm⟩ : ∃ m, m = (5 * e + 2) / 153 := ⟨_, rfl⟩
  have hdate : ofNumber a = ofMarch (b * 100 + d) m e := by
    rw [hm, he, hd, hc, hb]
    rfl
  obtain ⟨hd₀, he₀, he₁, _⟩ := rest_of_year ⟨hc₀.1, hc₀.2.1⟩ hd he
  have hb₁ : j ≤ 536838867 → b ≤ 15000 := by omega
  clear hb hc
  have hed := ((((hlit 4 (by omega)).mul hec (by omega)).add (hlit 3 (by omega)) (by omega)).div
    (hlit 1461 (by omega)) (by omega) (by omega) (by omega)).of_eq (m := d) (by omega)
  have hee := (hec.sub (((hlit 1461 (by omega)).mul hed (by omega)).div (hlit 4 (by omega))
    (by omega) (by omega) (by omega)) (by omega)).of_eq (m := e) (by omega)
  clear hd he
  have hm₀ : 0 ≤ m ∧ m ≤ 11 := by omega
  have hem := ((((hlit 5 (by omega)).mul hee (by omega)).add (hlit 2 (by omega)) (by omega)).div
    (hlit 153 (by omega)) (by omega) (by omega) (by omega)).of_eq (m := m) (by omega)
  clear hm
  have hten := hem.div (hlit 10 (by omega)) (by omega) (by omega) (by omega)
  rw [hdate]
  refine ⟨?_, ?_, ?_⟩
  · refine ((((heb.mul (hlit 100 (by omega)) (by omega)).add hed (by omega)).sub
      (hlit 4800 (by omega)) (by omega)).add hten (by omega)).of_eq ?_
    simp only [ofMarch]
    omega
  · refine ((hem.add (hlit 3 (by omega)) (by omega)).sub ((hlit 12 (by omega)).mul hten
      (by omega)) (by omega)).of_eq ?_
    simp only [ofMarch]
    omega
  · refine ((hee.sub ((((hlit 153 (by omega)).mul hem (by omega)).add (hlit 2 (by omega))
      (by omega)).div (hlit 5 (by omega)) (by omega) (by omega) (by omega)) (by omega)).add
      (hlit 1 (by omega)) (by omega)).of_eq ?_
    simp only [ofMarch, monthStart]
    omega

theorem ofYearMonthDay_eq (h : t.Valid) (hy : -4799 ≤ t.year) (hx : ofYearMonthDay t = some x) :
    x.julianDayNumber = t.number - 32044 := by
  obtain ⟨j, hj, rfl⟩ := Option.map_eq_some_iff.mp hx
  exact (getJulianDayNumber_evaluates h hy).computes j hj

theorem yearMonthDay_eq (hx : -32044 ≤ x.julianDayNumber) (ht : x.yearMonthDay = some t) :
    t = ofNumber (x.julianDayNumber + 32044) := by
  obtain ⟨hyear, hmonth, hday⟩ := getYearMonthDay_evaluates hx
  obtain ⟨year, hy, ht⟩ := Option.bind_eq_some_iff.mp ht
  obtain ⟨month, hm, ht⟩ := Option.bind_eq_some_iff.mp ht
  obtain ⟨day, hd, ht⟩ := Option.bind_eq_some_iff.mp ht
  cases ht
  rw [hyear.computes year hy, hmonth.computes month hm, hday.computes day hd]

/-- March of -4799 begins a year. -/
theorem number_first_march : (YearMonthDay.mk (-4799) 3 1).number = 365 := by decide

theorem number_nonneg (h : t.Valid) (hy : -4799 ≤ t.year) : 0 ≤ t.number := by
  have hmarch : 0 ≤ t.marchYear := by
    obtain ⟨⟨h₁, _⟩, _⟩ := h
    simp only [YearMonthDay.marchYear]
    omega
  have hday := h.inYear.low
  simp only [YearMonthDay.number, yearStart]
  omega

theorem year_of_number (h : t.Valid) (ht : 365 ≤ t.number) : -4799 ≤ t.year := by
  obtain ⟨_, hhigh, hleap⟩ := h.inYear
  have hmarch : 1 ≤ t.marchYear := by
    simp only [YearMonthDay.number, yearStart] at ht
    by_contra hlt
    -- the year 0 has no 366th day
    have hlast : t.marchYear = 0 ∧ t.dayOfYear = 365 := by omega
    have hone := hleap hlast.2
    rw [hlast.1] at hone
    exact absurd hone (by decide)
  obtain ⟨⟨_, h₁₂⟩, _⟩ := h
  simp only [YearMonthDay.marchYear] at hmarch
  omega

/-- Where nothing overflows, from a date to its Julian day number and back. -/
theorem yearMonthDay_ofYearMonthDay (h : t.Valid) (hy : -4799 ≤ t.year)
    (hx : ofYearMonthDay t = some x) (hu : x.yearMonthDay = some u) : u = t := by
  have hj := ofYearMonthDay_eq h hy hx
  have hnonneg := number_nonneg h hy
  rw [yearMonthDay_eq (by omega) hu, hj, Int.sub_add_cancel, ofNumber_number h]

/-- Where nothing overflows, from a Julian day number to its date and back. -/
theorem ofYearMonthDay_yearMonthDay (hx : -31679 ≤ x.julianDayNumber)
    (ht : x.yearMonthDay = some t) :
    t.Valid ∧ -4799 ≤ t.year ∧ ∀ y, ofYearMonthDay t = some y → y = x := by
  obtain ⟨hvalid, hnumber⟩ := ofNumber_valid (x.julianDayNumber + 32044)
  rw [← yearMonthDay_eq (by omega) ht] at hvalid hnumber
  have hy := year_of_number hvalid (by omega)
  refine ⟨hvalid, hy, fun y hy' => ?_⟩
  have hj := ofYearMonthDay_eq hvalid hy hy'
  cases x
  cases y
  simp only [mk.injEq] at *
  omega

theorem weekDay_eq {w : Int} (hw : x.weekDay.value = some w) :
    w = (x.julianDayNumber + 1).tmod 7 := by
  have hnext := (CInt.ofInt_evaluates (P := False) (n := x.julianDayNumber) (by simp)).add
    (CInt.lit_evaluates 1 (by decide)) (by simp)
  exact (hnext.mod (CInt.lit_evaluates 7 (by decide)) (by decide) (by simp)).computes w hw

/-- From one day to the next the weekday goes up by one modulo 7. -/
theorem weekDay_next {w v : Int} (hj : y.julianDayNumber = x.julianDayNumber + 1)
    (hw : x.weekDay.value = some w) (hv : y.weekDay.value = some v) : (v - (w + 1)) % 7 = 0 := by
  rw [weekDay_eq hw, weekDay_eq hv, hj, Int.tmod_def, Int.tmod_def]
  omega

/-- From the first Julian day on it is the next of 0 to 6. -/
theorem weekDay_next_of_nonneg {w v : Int} (hj : y.julianDayNumber = x.julianDayNumber + 1)
    (hx : -1 ≤ x.julianDayNumber) (hw : x.weekDay.value = some w)
    (hv : y.weekDay.value = some v) : v = (w + 1) % 7 := by
  rw [weekDay_eq hw, weekDay_eq hv, hj, Int.tmod_eq_emod_of_nonneg (by omega),
    Int.tmod_eq_emod_of_nonneg (by omega)]
  omega

/-- Nothing overflows up to the year 1465000. -/
theorem defined_of_year (h : t.Valid) (hy : -4799 ≤ t.year) (hy' : t.year ≤ 1465000) :
    ∃ x, ofYearMonthDay t = some x ∧ x.yearMonthDay = some t := by
  have hj := (getJulianDayNumber_evaluates h hy).defined hy'
  have hnonneg := number_nonneg h hy
  have hbound : t.number - 32044 ≤ 536838867 := by
    have hhigh := h.inYear.high
    have hmarch : t.marchYear ≤ 1469800 := by
      obtain ⟨⟨h₁, h₁₂⟩, _⟩ := h
      simp only [YearMonthDay.marchYear]
      omega
    simp only [YearMonthDay.number, yearStart]
    omega
  obtain ⟨hyear, hmonth, hday⟩ := getYearMonthDay_evaluates (j := t.number - 32044) (by omega)
  refine ⟨⟨t.number - 32044⟩, by rw [ofYearMonthDay, hj]; rfl, ?_⟩
  unfold yearMonthDay
  simp only [hyear.defined hbound, hmonth.defined hbound, hday.defined hbound, Option.bind_eq_bind,
    Option.bind_some, Int.sub_add_cancel, ofNumber_number h]
  rfl

/-- Wherever no intermediate overflows, the conversion is an isomorphism of the calendar from
-4799 on, with its order and its successor, and an interval of the Julian day numbers. -/
theorem calendar_conversion :
    (∀ t u : YearMonthDay, ∀ x : Date, t.Valid → -4799 ≤ t.year → ofYearMonthDay t = some x →
      x.yearMonthDay = some u → u = t) ∧
    (∀ x₀ x y : Date, ∀ t : YearMonthDay, ofYearMonthDay ⟨-4799, 3, 1⟩ = some x₀ → ¬ x < x₀ →
      x.yearMonthDay = some t → t.Valid ∧ (ofYearMonthDay t = some y → y = x)) ∧
    (∀ t : YearMonthDay, ∀ x y : Date, t.Valid → -4799 ≤ t.year → ofYearMonthDay t = some x →
      ofYearMonthDay t.next = some y → t.next.Valid ∧ y.julianDayNumber = x.julianDayNumber + 1 ∧
        ∀ w v, x.weekDay.value = some w → y.weekDay.value = some v → (v - (w + 1)) % 7 = 0 ∧
          (-1 ≤ x.julianDayNumber → v = (w + 1) % 7)) ∧
    (∀ t u : YearMonthDay, ∀ x y : Date, t.Valid → u.Valid → -4799 ≤ t.year → -4799 ≤ u.year →
      ofYearMonthDay t = some x → ofYearMonthDay u = some y →
        (x < y ↔ t.Before u) ∧ ((x == y) = true ↔ t = u)) ∧
    ∀ t : YearMonthDay, t.Valid → -4799 ≤ t.year → t.year ≤ 1465000 →
      ∃ x, ofYearMonthDay t = some x ∧ x.yearMonthDay = some t := by
  refine ⟨fun t u x h hy hx hu => yearMonthDay_ofYearMonthDay h hy hx hu, ?_, ?_, ?_, ?_⟩
  · intro x₀ x y t hx₀ hx ht
    have hj := ofYearMonthDay_eq (by decide) (by decide) hx₀
    rw [number_first_march] at hj
    have hle : x₀.julianDayNumber ≤ x.julianDayNumber := not_lt.mp hx
    obtain ⟨hvalid, _, hback⟩ := ofYearMonthDay_yearMonthDay (by omega) ht
    exact ⟨hvalid, hback y⟩
  · intro t x y h hy hx hx'
    have hj : y.julianDayNumber = x.julianDayNumber + 1 := by
      rw [ofYearMonthDay_eq h hy hx, ofYearMonthDay_eq (valid_next h) (year_next hy) hx',
        number_next h]
      omega
    exact ⟨valid_next h, hj, fun w v hw hv =>
      ⟨weekDay_next hj hw hv, fun hx => weekDay_next_of_nonneg hj hx hw hv⟩⟩
  · intro t u x y ht hu hyt hyu hx hy
    have hjx := ofYearMonthDay_eq ht hyt hx
    have hjy := ofYearMonthDay_eq hu hyu hy
    constructor
    · rw [← number_lt_iff ht hu]
      change x.julianDayNumber < y.julianDayNumber ↔ _
      omega
    · change (x.julianDayNumber == y.julianDayNumber) = true ↔ _
      rw [beq_iff_eq]
      constructor
      · exact fun he => number_injective ht hu (by omega)
      · rintro rfl
        omega
  · exact fun t h hy hy' => defined_of_year h hy hy'

end Date
end Muduo.Base
