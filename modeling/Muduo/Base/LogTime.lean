import Muduo.Base.Calendar
import Muduo.Base.Convert
import Muduo.Base.Timestamp
import Muduo.Support.FixedWidth

/-! The time of a log record: `Logger::Impl::formatTime`, which formats the date and time once
a second and keeps the text for the thread, beside `Timestamp::toFormattedString`. -/
namespace Muduo.Base
open Muduo.Support

/-- `struct tm`. -/
structure Tm where
  year : Int
  mon : Int
  mday : Int
  hour : Int
  min : Int
  sec : Int

def epochNumber : Int := (YearMonthDay.mk 1970 1 1).number

/-- The date of a second since the epoch. -/
def dateOf (seconds : Int) : YearMonthDay := ofNumber (epochNumber + seconds / 86400)

def gmtime (seconds : Int) : Tm :=
  ⟨(dateOf seconds).year - 1900, (dateOf seconds).month - 1, (dateOf seconds).day,
    seconds % 86400 / 3600, seconds % 3600 / 60, seconds % 60⟩

/-- `%d` with a field width. -/
def spacePadded (width : Nat) (v : Int) : List UInt8 :=
  List.replicate (width - (decimalText v).length) 32 ++ decimalText v

/-- `%d` with a field width and the flag `0`. -/
def zeroPadded (width : Nat) (v : Int) : List UInt8 :=
  sign v ++ (List.replicate (width - (decimalText v).length) 48 ++ numeralText 10 v.natAbs)

/-- The C string that `snprintf` leaves in an array of `size` bytes. -/
def printTo (size : Nat) (text : List UInt8) : List UInt8 := text.take (size - 1)

/-- The text of a broken-down time; the two functions differ in the format of the second. -/
def dateTime (second : Int → List UInt8) (tm : Tm) : List UInt8 :=
  spacePadded 4 (tm.year + 1900) ++ (zeroPadded 2 (tm.mon + 1) ++ (zeroPadded 2 tm.mday ++
    (ascii [' '] ++ (zeroPadded 2 tm.hour ++ (ascii [':'] ++ (zeroPadded 2 tm.min ++
      (ascii [':'] ++ second tm.sec)))))))

namespace Timestamp

def seconds (t : Timestamp) : Int := t.tdiv kMicroSecondsPerSecond

def microseconds (t : Timestamp) : Int := t.tmod kMicroSecondsPerSecond

def toFormattedString (showMicroseconds : Bool) (t : Timestamp) : List UInt8 :=
  if showMicroseconds then
    printTo 64 (dateTime (zeroPadded 2) (gmtime t.seconds) ++
      (ascii ['.'] ++ zeroPadded 6 t.microseconds))
  else printTo 64 (dateTime (zeroPadded 2) (gmtime t.seconds))

end Timestamp

/-- What `formatTime` prints for a second. -/
def logTime (seconds : Int) : List UInt8 := dateTime (spacePadded 2) (gmtime seconds)

/-- `t_lastSecond` and `t_time` of a thread: nothing yet, or the text of the second. -/
structure TimeCache where
  lastSecond : Int
  time : List UInt8
  sound : lastSecond = 0 ∧ time = [] ∨ time = printTo 64 (logTime lastSecond)

/-- A thread that has not logged. -/
def TimeCache.new : TimeCache := ⟨0, [], .inl ⟨rfl, rfl⟩⟩

def TimeCache.refresh (c : TimeCache) (seconds : Int) : Except Fault TimeCache :=
  if seconds ≠ c.lastSecond then do
    assert ((logTime seconds).length = 17)
    return ⟨seconds, printTo 64 (logTime seconds), .inr rfl⟩
  else return c

/-- A string whose length is known at compile time, the class `T`. -/
def ofLength (str : List UInt8) (len : Nat) : Except Fault (List UInt8) := do
  assert (str.length = len)
  return str

/-- The time in front of a record: the time stamp, and the two strings it is printed as. -/
structure TimePrefix where
  time : Timestamp
  dateTime : List UInt8
  us : List UInt8

def TimePrefix.text (p : TimePrefix) : List UInt8 := p.dateTime ++ p.us

def formatMicroseconds (microseconds : Int) : List UInt8 :=
  ascii ['.'] ++ (zeroPadded 6 microseconds ++ ascii ['Z', ' '])

/-- What a `Fmt` holds. -/
def fmt (text : List UInt8) : Except Fault (List UInt8) := do
  assert (text.length < 32)
  return printTo 32 text

def formatTime (c : TimeCache) (time : Timestamp) : Except Fault (TimeCache × TimePrefix) := do
  let c ← c.refresh time.seconds
  let us ← fmt (formatMicroseconds time.microseconds)
  assert (us.length = 9)
  let dateTime ← ofLength c.time 17
  let us ← ofLength us 9
  return (c, ⟨time, dateTime, us⟩)

/-- The records of one thread. -/
def logTimes (c : TimeCache) : List Timestamp → Except Fault (List TimePrefix)
  | [] => return []
  | t :: ts => do
      let (c, p) ← formatTime c t
      let ps ← logTimes c ts
      return p :: ps

/-- A time stamp from the first second on, up to the end of the year 9999. -/
structure LogStamp where
  time : Int
  low : 1000000 ≤ time
  high : time < 253402300800000000

/-- The numbers of `w` digits, with leading zeros. -/
def InField (w : Nat) (v : Int) : Prop := 0 ≤ v ∧ v < 10 ^ w

theorem decimalText_of_nonneg {v : Int} (h : 0 ≤ v) : decimalText v = numeralText 10 v.toNat := by
  have hn : ¬ v < 0 := Int.not_lt.mpr h
  have ha : v.natAbs = v.toNat := by omega
  rw [decimalText, sign, if_neg hn, List.nil_append, ha]

theorem InField.toNat_lt {w : Nat} {v : Int} (h : InField w v) : v.toNat < 10 ^ w := by
  have hlt : (v.toNat : Int) < ((10 ^ w : Nat) : Int) := by
    rw [Int.toNat_of_nonneg h.1]
    exact_mod_cast h.2
  exact_mod_cast hlt

theorem zeroPadded_eq {w : Nat} {v : Int} (hw : 0 < w) (h : InField w v) :
    zeroPadded w v = fixedText 10 w v.toNat := by
  have hn : ¬ v < 0 := Int.not_lt.mpr h.1
  have ha : v.natAbs = v.toNat := by have := h.1; omega
  rw [zeroPadded, decimalText_of_nonneg h.1, sign, if_neg hn, List.nil_append, ha,
    padded_eq_fixedText (by decide) hw h.toNat_lt]

theorem zeroPadded_field {w : Nat} (hw : 0 < w) : OrderedField w (InField w) (zeroPadded w) := by
  constructor
  · intro n hn
    rw [zeroPadded_eq hw hn, fixedText_length]
  · intro m n hm hn
    rw [zeroPadded_eq hw hm, zeroPadded_eq hw hn,
      fixedText_lt_iff (by decide) (by decide) w hm.toNat_lt hn.toNat_lt]
    have h₁ := hm.1
    have h₂ := hn.1
    omega

/-- A number that fills its field is not padded. -/
theorem spacePadded_of_le {w : Nat} {v : Int} (h : 10 ^ w ≤ v) :
    spacePadded (w + 1) v = zeroPadded (w + 1) v := by
  have hnonneg : 0 ≤ v := (pow_nonneg (by decide) w).trans h
  have hlow : 10 ^ w ≤ v.natAbs := by
    have hc : ((10 ^ w : Nat) : Int) ≤ (v.natAbs : Int) := by
      rw [Int.natAbs_of_nonneg hnonneg]
      exact_mod_cast h
    exact_mod_cast hc
  have hlen : w < (decimalText v).length := by
    rw [decimalText, List.length_append, numeralText, List.length_map]
    exact (lt_numeral_length (by decide) hlow).trans_le (Nat.le_add_left _ _)
  have hpad : w + 1 - (decimalText v).length = 0 := by omega
  rw [spacePadded, zeroPadded, hpad, decimalText]
  rfl

/-- The first character of a second that is padded by a space. -/
def leadChar (q : Nat) : UInt8 := if q = 0 then 32 else digitChar q

theorem leadChar_lt_iff : ∀ c < 10, ∀ d < 10,
    ((leadChar c).toNat < (leadChar d).toNat ↔ c < d) := by decide

theorem zeroPadded_two {v : Int} (h : InField 2 v) :
    zeroPadded 2 v = [digitChar (v.toNat / 10), digitChar (v.toNat % 10)] := by
  have hlt := h.toNat_lt
  rw [zeroPadded_eq (by decide) h]
  change [digitChar (v.toNat / 10 % 10), _] = _
  rw [Nat.mod_eq_of_lt (by omega)]

theorem spacePadded_two {v : Int} (h : InField 2 v) :
    spacePadded 2 v = [leadChar (v.toNat / 10), digitChar (v.toNat % 10)] := by
  have hlt := h.toNat_lt
  by_cases hv : v < 10
  · have hn : v.toNat < 10 := by omega
    rw [spacePadded, decimalText_of_nonneg h.1, numeralText, numeral_of_lt hn,
      Nat.div_eq_of_lt hn, Nat.mod_eq_of_lt hn]
    rfl
  · have hq : v.toNat / 10 ≠ 0 := by omega
    rw [spacePadded_of_le (w := 1) (by omega), zeroPadded_two h, leadChar, if_neg hq]

/-- A space is in front of every digit, so that this padding keeps the order too. -/
theorem spacePadded_two_field : OrderedField 2 (InField 2) (spacePadded 2) := by
  constructor
  · intro n hn
    rw [spacePadded_two hn]
    rfl
  · intro m n hm hn
    have hm₂ := hm.toNat_lt
    have hn₂ := hn.toNat_lt
    have hm₀ := hm.1
    have hn₀ := hn.1
    have hlead := leadChar_lt_iff (m.toNat / 10) (by omega) (n.toNat / 10) (by omega)
    have hlead' := leadChar_lt_iff (n.toNat / 10) (by omega) (m.toNat / 10) (by omega)
    have heq : leadChar (m.toNat / 10) = leadChar (n.toNat / 10) ↔
        m.toNat / 10 = n.toNat / 10 := by
      refine ⟨fun he => ?_, fun he => by rw [he]⟩
      rw [he] at hlead hlead'
      omega
    have hlast : LexBefore [digitChar (m.toNat % 10)] [digitChar (n.toNat % 10)] ↔
        m.toNat % 10 < n.toNat % 10 := by
      rw [lexBefore_cons, digitChar_lt_iff _ (by omega) _ (by omega),
        or_iff_left fun h => not_lexBefore_self [] h.2]
    rw [spacePadded_two hm, spacePadded_two hn, lexBefore_cons, hlead, heq, hlast]
    omega

/-- The seconds that the two formats print alike. -/
theorem spacePadded_two_iff {v : Int} (h : InField 2 v) :
    spacePadded 2 v = zeroPadded 2 v ↔ 10 ≤ v := by
  constructor
  · intro he
    by_contra hlt
    have hq : v.toNat / 10 = 0 := by omega
    rw [spacePadded_two h, zeroPadded_two h, hq] at he
    exact absurd (List.cons.inj he).1 (by decide)
  · exact spacePadded_of_le (w := 1)

/-- A broken-down time whose fields have the widths they are printed with. -/
structure Tm.InFields (tm : Tm) : Prop where
  year : 1000 ≤ tm.year + 1900 ∧ tm.year + 1900 < 10000
  mon : InField 2 (tm.mon + 1)
  mday : InField 2 tm.mday
  hour : InField 2 tm.hour
  min : InField 2 tm.min
  sec : InField 2 tm.sec

/-- The order of broken-down times, field by field. -/
def Tm.Before (t u : Tm) : Prop :=
  t.year < u.year ∨ t.year = u.year ∧ (t.mon < u.mon ∨ t.mon = u.mon ∧ (t.mday < u.mday ∨
    t.mday = u.mday ∧ (t.hour < u.hour ∨ t.hour = u.hour ∧ (t.min < u.min ∨ t.min = u.min ∧
      t.sec < u.sec))))

theorem year_field : OrderedField 4 (fun v => 1000 ≤ v ∧ v < 10000) (spacePadded 4) := by
  have hfield : ∀ v : Int, 1000 ≤ v ∧ v < 10000 → InField 4 v :=
    fun v hv => ⟨(by decide : (0 : Int) ≤ 1000).trans hv.1, hv.2⟩
  have htext : ∀ v : Int, 1000 ≤ v ∧ v < 10000 → spacePadded 4 v = zeroPadded 4 v :=
    fun v hv => spacePadded_of_le (w := 3) hv.1
  have hzero := zeroPadded_field (w := 4) (by decide)
  constructor
  · intro n hn
    rw [htext n hn, hzero.length n (hfield n hn)]
  · intro m n hm hn
    rw [htext m hm, htext n hn, hzero.order m n (hfield m hm) (hfield n hn)]

section
variable {t u : Tm} {second : Int → List UInt8}

theorem dateTime_length (hsecond : OrderedField 2 (InField 2) second) (ht : t.InFields) :
    (dateTime second t).length = 17 := by
  have hzero := zeroPadded_field (w := 2) (by decide)
  simp only [dateTime, List.length_append, year_field.length _ ht.year, hzero.length _ ht.mon,
    hzero.length _ ht.mday, hzero.length _ ht.hour, hzero.length _ ht.min, hsecond.length _ ht.sec]
  rfl

/-- The text of the time is in the order of the fields. -/
theorem dateTime_before_iff (hsecond : OrderedField 2 (InField 2) second) (ht : t.InFields)
    (hu : u.InFields) : LexBefore (dateTime second t) (dateTime second u) ↔ t.Before u := by
  have hzero := zeroPadded_field (w := 2) (by decide)
  have hyear : t.year + 1900 < u.year + 1900 ↔ t.year < u.year := by omega
  have hyear' : t.year + 1900 = u.year + 1900 ↔ t.year = u.year := by omega
  have hmon : t.mon + 1 < u.mon + 1 ↔ t.mon < u.mon := by omega
  have hmon' : t.mon + 1 = u.mon + 1 ↔ t.mon = u.mon := by omega
  rw [dateTime, dateTime, year_field.append ht.year hu.year, hzero.append ht.mon hu.mon,
    hzero.append ht.mday hu.mday, lexBefore_append_same, hzero.append ht.hour hu.hour,
    lexBefore_append_same, hzero.append ht.min hu.min, lexBefore_append_same,
    hsecond.order _ _ ht.sec hu.sec, hyear, hyear', hmon, hmon', Tm.Before]

end

theorem dateOf_valid (seconds : Int) :
    (dateOf seconds).Valid ∧ (dateOf seconds).number = epochNumber + seconds / 86400 :=
  ofNumber_valid _

/-- The seconds of the years 1970 to 9999. -/
def InYears (seconds : Int) : Prop := 0 ≤ seconds ∧ seconds < 253402300800

theorem gmtime_inFields {s : Int} (h : InYears s) : (gmtime s).InFields := by
  obtain ⟨hlow, hhigh⟩ := h
  obtain ⟨hvalid, hnumber⟩ := dateOf_valid s
  have hfirst : (YearMonthDay.mk 1970 1 1).number ≤ (dateOf s).number := by
    rw [hnumber, epochNumber]
    omega
  have hlast : (dateOf s).number < (YearMonthDay.mk 10000 1 1).number := by
    have hk : (YearMonthDay.mk 10000 1 1).number = epochNumber + 2932897 := by decide
    omega
  have hge : 1970 ≤ (dateOf s).year := by
    by_contra hlt
    have hbefore : (dateOf s).Before (YearMonthDay.mk 1970 1 1) :=
      .inl (by change _ < (1970 : Int); omega)
    have := (number_lt_iff hvalid (by decide)).mpr hbefore
    omega
  have hlt : (dateOf s).year < 10000 := by
    have hbefore := (number_lt_iff hvalid (by decide)).mp hlast
    rcases hbefore with hy | ⟨_, hm | ⟨_, hd⟩⟩
    · exact hy
    · have hm' : (dateOf s).month < 1 := hm
      have := hvalid.month.1
      omega
    · have hd' : (dateOf s).day < 1 := hd
      have := hvalid.day.1
      omega
  have hday := daysInMonth_le (dateOf s).year (dateOf s).month
  obtain ⟨hm₁, hm₁₂⟩ := hvalid.month
  obtain ⟨hd₁, hd₃₁⟩ := hvalid.day
  constructor <;> simp only [gmtime, InField] <;> omega

/-- The order of broken-down times is the order of the seconds. -/
theorem gmtime_before_iff (s s' : Int) : (gmtime s).Before (gmtime s') ↔ s < s' := by
  obtain ⟨hvalid, hnumber⟩ := dateOf_valid s
  obtain ⟨hvalid', hnumber'⟩ := dateOf_valid s'
  have hlt : (dateOf s).Before (dateOf s') ↔ s / 86400 < s' / 86400 := by
    rw [← number_lt_iff hvalid hvalid', hnumber, hnumber']
    omega
  have heq : dateOf s = dateOf s' ↔ s / 86400 = s' / 86400 := by
    refine ⟨fun he => ?_, fun he => ?_⟩
    · rw [he, hnumber'] at hnumber
      omega
    · rw [dateOf, dateOf, he]
  have hsplit : (gmtime s).Before (gmtime s') ↔ (dateOf s).Before (dateOf s') ∨
      dateOf s = dateOf s' ∧ s % 86400 < s' % 86400 := by
    have hfields : ∀ a b : YearMonthDay,
        a = b ↔ a.year = b.year ∧ a.month = b.month ∧ a.day = b.day := by
      rintro ⟨year, month, day⟩ ⟨year', month', day'⟩
      rw [YearMonthDay.mk.injEq]
    rw [hfields, Tm.Before, YearMonthDay.Before]
    simp only [gmtime]
    omega
  rw [hsplit, hlt, heq]
  omega

namespace LogStamp
variable (s : LogStamp)

abbrev seconds : Int := Timestamp.seconds s.time

abbrev microseconds : Int := Timestamp.microseconds s.time

theorem seconds_eq : s.seconds = s.time / 1000000 :=
  Int.tdiv_eq_ediv_of_nonneg ((by decide : (0 : Int) ≤ 1000000).trans s.low)

theorem microseconds_eq : s.microseconds = s.time % 1000000 :=
  Int.tmod_eq_emod_of_nonneg ((by decide : (0 : Int) ≤ 1000000).trans s.low)

theorem inYears : InYears s.seconds := by
  have hlow := s.low
  have hhigh := s.high
  rw [seconds_eq, InYears]
  omega

theorem seconds_ne_zero : s.seconds ≠ 0 := by
  have hlow := s.low
  rw [seconds_eq]
  omega

theorem microseconds_inField : InField 6 s.microseconds := by
  rw [microseconds_eq, InField]
  omega

/-- What is printed in front of a record with this time stamp. -/
def timePrefix : TimePrefix :=
  ⟨s.time, logTime s.seconds, formatMicroseconds s.microseconds⟩

theorem text_timePrefix : s.timePrefix.text =
    logTime s.seconds ++ (ascii ['.'] ++ (zeroPadded 6 s.microseconds ++ ascii ['Z', ' '])) := rfl

theorem logTime_length : (logTime s.seconds).length = 17 :=
  dateTime_length spacePadded_two_field (gmtime_inFields s.inYears)

theorem us_length : (formatMicroseconds s.microseconds).length = 9 := by
  have hfield := (zeroPadded_field (w := 6) (by decide)).length _ s.microseconds_inField
  rw [formatMicroseconds, List.length_append, List.length_append, hfield]
  rfl

end LogStamp

theorem printTo_of_lt {size : Nat} {text : List UInt8} (h : text.length < size) :
    printTo size text = text := List.take_of_length_le (by omega)

/-- Whatever the thread logged before, a record starts with the text of its own time. -/
theorem formatTime_spec (c : TimeCache) (s : LogStamp) :
    ∃ c', formatTime c s.time = .ok (c', s.timePrefix) := by
  have hlen := s.logTime_length
  have hus := s.us_length
  have hprint : printTo 64 (logTime s.seconds) = logTime s.seconds :=
    printTo_of_lt (by omega)
  have hcache : ∃ c', c.refresh s.seconds = .ok c' ∧ c'.time = logTime s.seconds := by
    rw [TimeCache.refresh]
    by_cases hsecond : s.seconds = c.lastSecond
    · rw [if_neg fun h => h hsecond]
      refine ⟨c, rfl, ?_⟩
      rcases c.sound with ⟨hzero, _⟩ | htime
      · exact absurd (hsecond.trans hzero) s.seconds_ne_zero
      · rw [htime, ← hsecond, hprint]
    · rw [if_pos hsecond, assert_true hlen]
      exact ⟨_, rfl, hprint⟩
  obtain ⟨c', hrefresh, htime⟩ := hcache
  refine ⟨c', ?_⟩
  have hfmt : fmt (formatMicroseconds s.microseconds) =
      .ok (formatMicroseconds s.microseconds) := by
    rw [fmt, assert_true (by omega), ok_bind, printTo_of_lt (by omega)]
    rfl
  rw [formatTime, hrefresh, ok_bind, hfmt, ok_bind, assert_true hus, ok_bind, ofLength, htime,
    assert_true hlen, ofLength, assert_true hus]
  rfl

theorem logTimes_eq (c : TimeCache) (stamps : List LogStamp) :
    logTimes c (stamps.map LogStamp.time) = .ok (stamps.map LogStamp.timePrefix) := by
  induction stamps generalizing c with
  | nil => rfl
  | cons s stamps ih =>
    obtain ⟨c', hs⟩ := formatTime_spec c s
    rw [List.map_cons, logTimes, hs, ok_bind]
    change (do let ps ← logTimes c' (stamps.map LogStamp.time); return s.timePrefix :: ps) = _
    rw [ih c']
    rfl

theorem logTime_before_iff (s s' : LogStamp) :
    LexBefore (logTime s.seconds) (logTime s'.seconds) ↔ s.seconds < s'.seconds := by
  rw [logTime, logTime, dateTime_before_iff spacePadded_two_field (gmtime_inFields s.inYears)
    (gmtime_inFields s'.inYears), gmtime_before_iff]

/-- The prefixes of records are in the order of the time stamps. -/
theorem timePrefix_before_iff (s s' : LogStamp) :
    LexBefore s.timePrefix.text s'.timePrefix.text ↔ s.time < s'.time := by
  have heq : logTime s.seconds = logTime s'.seconds ↔ s.seconds = s'.seconds :=
    ⟨eq_of_before_iff (logTime_before_iff s s') (logTime_before_iff s' s), fun he => by rw [he]⟩
  have hus := (zeroPadded_field (w := 6) (by decide)).append (x := ascii ['Z', ' '])
    (y := ascii ['Z', ' ']) s.microseconds_inField s'.microseconds_inField
  rw [or_iff_left fun h => not_lexBefore_self (ascii ['Z', ' ']) h.2] at hus
  rw [s.text_timePrefix, s'.text_timePrefix,
    lexBefore_append (s.logTime_length.trans s'.logTime_length.symm), logTime_before_iff, heq,
    lexBefore_append_same, hus, s.seconds_eq, s'.seconds_eq, s.microseconds_eq, s'.microseconds_eq]
  omega

/-- Prefixes of one width, from which the time stamp can be read, in the order of the stamps. -/
structure Ordered (ps : List TimePrefix) : Prop where
  width : ∀ p ∈ ps, p.dateTime.length = 17 ∧ p.us.length = 9
  identify : ∀ p ∈ ps, ∀ q ∈ ps, p.text = q.text → p.time = q.time
  order : ∀ p ∈ ps, ∀ q ∈ ps, LexBefore p.text q.text ↔ p.time < q.time

/-- Each record shows the time that `Timestamp::toFormattedString(false)` gives. -/
def Agree (ps : List TimePrefix) : Prop :=
  ∀ p ∈ ps, p.dateTime = p.time.toFormattedString false

/-- The second in its minute has two digits. -/
def LogStamp.TwoDigits (s : LogStamp) : Prop := 10 ≤ s.time / 1000000 % 60

theorem ordered_timePrefix (stamps : List LogStamp) :
    Ordered (stamps.map LogStamp.timePrefix) := by
  constructor
  · intro p hp
    obtain ⟨s, _, rfl⟩ := List.mem_map.mp hp
    exact ⟨s.logTime_length, s.us_length⟩
  · intro p hp q hq he
    obtain ⟨s, _, rfl⟩ := List.mem_map.mp hp
    obtain ⟨s', _, rfl⟩ := List.mem_map.mp hq
    exact eq_of_before_iff (timePrefix_before_iff s s') (timePrefix_before_iff s' s) he
  · intro p hp q hq
    obtain ⟨s, _, rfl⟩ := List.mem_map.mp hp
    obtain ⟨s', _, rfl⟩ := List.mem_map.mp hq
    exact timePrefix_before_iff s s'

theorem timePrefix_agrees_iff (s : LogStamp) :
    s.timePrefix.dateTime = Timestamp.toFormattedString false s.time ↔ s.TwoDigits := by
  have hfields := gmtime_inFields s.inYears
  have hlen := dateTime_length (zeroPadded_field (w := 2) (by decide)) hfields
  have hsec : (gmtime s.seconds).sec = s.time / 1000000 % 60 := by rw [s.seconds_eq]; rfl
  have hformat : Timestamp.toFormattedString false s.time =
      dateTime (zeroPadded 2) (gmtime s.seconds) := by
    rw [Timestamp.toFormattedString]
    exact printTo_of_lt (by rw [hlen]; decide)
  rw [hformat, LogStamp.TwoDigits, ← hsec, ← spacePadded_two_iff hfields.sec]
  change dateTime (spacePadded 2) _ = _ ↔ _
  simp only [dateTime, List.append_cancel_left_eq]

/-- The records of a thread show the times of `toFormattedString` exactly when each second has
two digits, for the second is printed with `%2d`; in any case the prefixes are of one width,
determine the time stamps and are in their order. -/
theorem logTimes_agree_iff (stamps : List LogStamp) :
    ∃ ps, logTimes .new (stamps.map LogStamp.time) = .ok ps ∧
      ps.map TimePrefix.time = stamps.map LogStamp.time ∧ Ordered ps ∧
      (Agree ps ∧ Ordered ps ↔ ∀ s ∈ stamps, s.TwoDigits) := by
  have hordered := ordered_timePrefix stamps
  refine ⟨_, logTimes_eq .new stamps, List.map_map, hordered, ?_⟩
  rw [and_iff_left hordered, Agree, List.forall_mem_map]
  exact forall₂_congr fun s _ => timePrefix_agrees_iff s

/-- At second 9 of the epoch, the record shows a space where `toFormattedString` has a zero. -/
theorem logTimes_space :
    ¬ ∀ stamps : List LogStamp, ∃ ps, logTimes .new (stamps.map LogStamp.time) = .ok ps ∧
      Agree ps := by
  intro h
  obtain ⟨ps, hok, hagree⟩ := h [⟨9000000, by decide, by decide⟩]
  rw [logTimes_eq] at hok
  cases hok
  have htwo := (timePrefix_agrees_iff _).mp (hagree _ (List.mem_singleton_self _))
  rw [LogStamp.TwoDigits] at htwo
  exact absurd htwo (by decide)

end Muduo.Base
