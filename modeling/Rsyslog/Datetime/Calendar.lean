import Mathlib.Algebra.Order.Group.Nat
import Mathlib.Tactic.IntervalCases
import Mathlib.Tactic.SplitIfs

/-!
# The calendar

Functions of `datetime.c` that count seconds, days and weeks: `syslogTime2time_t`, `getWeekdayNbr`,
`getOrdinal`, `getWeek` and `getISOWeek`. They have tables for the years and months; what these are
compared with is a calendar that adds up the lengths of years and months.
-/

namespace Rsyslog.Datetime

open List

/-- The fields of `syslogTime_t` that the functions read. -/
structure Time where
  year : ℕ
  month : ℕ
  day : ℕ
  hour : ℕ
  minute : ℕ
  second : ℕ
  OffsetMinute : ℕ
  OffsetHour : ℕ
  OffsetMode : UInt8

/-! ## The code -/

def yearInSec_startYear : ℕ := 1967

def yearInSecs : List ℤ :=
  [-63158401, -31536001, -1, 31535999, 63071999, 94694399, 126230399, 157766399, 189302399,
    220924799, 252460799, 283996799, 315532799, 347155199, 378691199, 410227199, 441763199,
    473385599, 504921599, 536457599, 567993599, 599615999, 631151999, 662687999, 694223999,
    725846399, 757382399, 788918399, 820454399, 852076799, 883612799, 915148799, 946684799,
    978307199, 1009843199, 1041379199, 1072915199, 1104537599, 1136073599, 1167609599, 1199145599,
    1230767999, 1262303999, 1293839999, 1325375999, 1356998399, 1388534399, 1420070399, 1451606399,
    1483228799, 1514764799, 1546300799, 1577836799, 1609459199, 1640995199, 1672531199, 1704067199,
    1735689599, 1767225599, 1798761599, 1830297599, 1861919999, 1893455999, 1924991999, 1956527999,
    1988150399, 2019686399, 2051222399, 2082758399, 2114380799, 2145916799, 2177452799, 2208988799,
    2240611199, 2272147199, 2303683199, 2335219199, 2366841599, 2398377599, 2429913599, 2461449599,
    2493071999, 2524607999, 2556143999, 2587679999, 2619302399, 2650838399, 2682374399, 2713910399,
    2745532799, 2777068799, 2808604799, 2840140799, 2871763199, 2903299199, 2934835199, 2966371199,
    2997993599, 3029529599, 3061065599, 3092601599, 3124223999, 3155759999, 3187295999, 3218831999,
    3250454399, 3281990399, 3313526399, 3345062399, 3376684799, 3408220799, 3439756799, 3471292799,
    3502915199, 3534451199, 3565987199, 3597523199, 3629145599, 3660681599, 3692217599, 3723753599,
    3755375999, 3786911999, 3818447999, 3849983999, 3881606399, 3913142399, 3944678399, 3976214399,
    4007836799, 4039372799, 4070908799, 4102444799]

def MonthInDays : List ℕ := [0, 31, 59, 90, 120, 151, 181, 212, 243, 273, 304, 334]

def offsetSeconds (ts : Time) : ℤ := ts.OffsetHour * 3600 + ts.OffsetMinute * 60

def NumberOfDays (ts : Time) : ℤ :=
  let leap := (ts.year % 100 ≠ 0 ∧ ts.year % 4 = 0) ∨ ts.year = 2000
  MonthInDays.getD (ts.month - 1) 0 + (if leap ∧ 2 < ts.month then 1 else 0) + ts.day - 1

def syslogTime2time_t (ts : Time) : ℤ :=
  if ts.year < 1970 ∨ 2100 < ts.year then 0
  else
    let utcOffset := if ts.OffsetMode = 43 then offsetSeconds ts * -1 else offsetSeconds ts
    yearInSecs.getD (ts.year - yearInSec_startYear - 1) 0 + 1 + NumberOfDays ts * 86400 +
      ts.hour * 60 * 60 + ts.minute * 60 + ts.second + utcOffset

def getWeekdayNbr (ts : Time) : ℤ :=
  let g : ℤ := if ts.month < 3 then ts.year - 1 else ts.year
  let f : ℤ := if ts.month < 3 then ts.month + 13 else ts.month + 1
  ((36525 * g).tdiv 100 + (306 * f).tdiv 10 + ts.day - 621049).tmod 7

def getOrdinal (ts : Time) : ℤ :=
  if ts.year < 1970 ∨ 2100 < ts.year then 0
  else
    let utcOffset := if ts.OffsetMode = 43 then offsetSeconds ts + -1 else offsetSeconds ts
    let previousyears := yearInSecs.getD (ts.year - yearInSec_startYear - 1) 0 + utcOffset
    (syslogTime2time_t ts - previousyears).tdiv 86400

def getWeek (ts : Time) : ℤ :=
  let yt : Time := { ts with month := 1, day := 1, hour := 0, minute := 0, second := 0 }
  (getOrdinal ts + 6).tdiv 7 + if getWeekdayNbr ts < getWeekdayNbr yt then 1 else 0

def weeksInYear : List ℤ :=
  [52, 53, 52, 52, 52, 52, 52, 53, 52, 52, 52, 52, 53, 52, 52, 52, 52, 52, 53, 52, 52, 52, 52, 53,
    52, 52, 52, 52, 52, 53, 52, 52, 52, 52, 52, 53, 52, 52, 52, 52, 53, 52, 52, 52, 52, 52, 53, 52,
    52, 52, 52, 53, 52, 52, 52, 52, 52, 53, 52, 52, 52, 52, 52, 53, 52, 52, 52, 52, 53, 52, 52, 52,
    52, 52, 53, 52, 52, 52, 52, 53, 52, 52, 52, 52, 52, 53, 52, 52, 52, 52, 52, 53, 52, 52, 52, 52,
    53, 52, 52, 52, 52, 52, 53, 52, 52, 52, 52, 53, 52, 52, 52, 52, 52, 53, 52, 52, 52, 52, 52, 53,
    52, 52, 52, 52, 53, 52, 52, 52, 52, 52, 53, 52]

/-- `getISOWeek`: the week and the year it belongs to. -/
def getISOWeek (ts : Time) : ℤ × ℕ :=
  let curDow := if getWeekdayNbr ts = 0 then 7 else getWeekdayNbr ts
  let weekNum := (10 + (getOrdinal ts + 1) - curDow).tdiv 7
  if weekNum = 0 then (weeksInYear.getD (ts.year - 1 - 1969) 0, ts.year - 1)
  else if weekNum > weeksInYear.getD (ts.year - 1969) 0 then (1, ts.year + 1)
  else (weekNum, ts.year)

/-! ## The calendar -/

def isLeap (y : ℕ) : Bool := y % 4 = 0 && (y % 100 ≠ 0 || y % 400 = 0)

def monthLength (leap : Bool) (m : ℕ) : ℕ :=
  if m = 2 then if leap then 29 else 28 else if m ∈ [4, 6, 9, 11] then 30 else 31

def yearLength (y : ℕ) : ℕ := if isLeap y then 366 else 365

/-- The days from January 1, 1970 to January 1 of the year. -/
def daysBefore (y : ℕ) : ℕ := ((range' 1970 (y - 1970)).map yearLength).sum

/-- The days since January 1. -/
def dayOfYear (ts : Time) : ℕ :=
  ((range' 1 (ts.month - 1)).map (monthLength (isLeap ts.year))).sum + (ts.day - 1)

structure IsDate (ts : Time) : Prop where
  month : 1 ≤ ts.month ∧ ts.month ≤ 12
  day : 1 ≤ ts.day ∧ ts.day ≤ monthLength (isLeap ts.year) ts.month

def secondOfDay (ts : Time) : ℕ := ts.hour * 3600 + ts.minute * 60 + ts.second

/-! ## Seconds -/

variable {ts : Time}

lemma yearInSecs_eq : ∀ k < 131,
    yearInSecs.getD (k + 2) 0 + 1 = 86400 * daysBefore (1970 + k) := by
  decide +kernel

lemma sum_monthLength (leap : Bool) : ∀ k < 12, ((range' 1 k).map (monthLength leap)).sum =
    MonthInDays.getD k 0 + if leap ∧ 2 < k + 1 then 1 else 0 := by
  revert leap
  decide

lemma dayOfYear_eq (h : IsDate ts) : dayOfYear ts = MonthInDays.getD (ts.month - 1) 0 +
    (if isLeap ts.year ∧ 2 < ts.month then 1 else 0) + (ts.day - 1) := by
  obtain ⟨hge, hle⟩ := h.month
  rw [dayOfYear, sum_monthLength _ _ (by omega), Nat.sub_add_cancel hge]

lemma NumberOfDays_eq (hyear : 1970 ≤ ts.year ∧ ts.year ≤ 2100) (hdate : IsDate ts) :
    NumberOfDays ts = dayOfYear ts := by
  have hleap : ((ts.year % 100 ≠ 0 ∧ ts.year % 4 = 0) ∨ ts.year = 2000) ↔
      isLeap ts.year = true := by
    simp only [isLeap, Bool.and_eq_true, Bool.or_eq_true, decide_eq_true_eq]
    omega
  have hday := hdate.day.1
  rw [dayOfYear_eq hdate, NumberOfDays]
  simp only [hleap]
  split_ifs <;> push_cast <;> omega

/-- The seconds since 1970-01-01T00:00:00Z. -/
theorem syslogTime2time_t_eq (ts : Time) (hyear : 1970 ≤ ts.year ∧ ts.year ≤ 2100)
    (hdate : IsDate ts) :
    syslogTime2time_t ts = 86400 * (daysBefore ts.year + dayOfYear ts) + secondOfDay ts +
      (if ts.OffsetMode = 43 then -offsetSeconds ts else offsetSeconds ts) := by
  have hsecs := yearInSecs_eq (ts.year - 1970) (by omega)
  rw [Nat.add_sub_cancel' hyear.1, show ts.year - 1970 + 2 = ts.year - yearInSec_startYear - 1 by
    rw [yearInSec_startYear]; omega] at hsecs
  rw [syslogTime2time_t, if_neg (by omega), NumberOfDays_eq hyear hdate, secondOfDay, hsecs]
  split_ifs <;> push_cast <;> omega

theorem syslogTime2time_t_leapDay :
    syslogTime2time_t ⟨2000, 2, 29, 12, 0, 0, 0, 1, 43⟩ = 951822000 :=
  (syslogTime2time_t_eq ⟨2000, 2, 29, 12, 0, 0, 0, 1, 43⟩ (by decide)
    ⟨by decide, by decide⟩).trans (by decide +kernel)

/-! ## Days and weeks -/

/-- Midnight at the beginning of the day, in UTC. -/
def midnight (ts : Time) : Time :=
  { ts with
    hour := 0, minute := 0, second := 0, OffsetMinute := 0, OffsetHour := 0, OffsetMode := 90 }

/-- The Thursday of the week, by its number from January 1, 1970 (a Thursday) on. -/
def thursday (ts : Time) : ℤ :=
  daysBefore ts.year + dayOfYear ts - ((daysBefore ts.year + dayOfYear ts + 3) % 7 : ℕ) + 3

/-- The ISO 8601 week: the one of the year with its Thursday, counted from the first Thursday. -/
def IsISOWeek (ts : Time) (week : ℤ × ℕ) : Prop :=
  daysBefore week.2 ≤ thursday ts ∧ thursday ts < daysBefore week.2 + yearLength week.2 ∧
    week.1 = (thursday ts - daysBefore week.2) / 7 + 1

/-- The last second of the year before, and what is left of an offset that is not taken back. -/
def ordinalShift (ts : Time) : ℤ := if ts.OffsetMode = 43 then 2 - 2 * offsetSeconds ts else 1

lemma daysBefore_eq : ∀ k < 131, daysBefore (1970 + k) = 365 * k + (k + 1) / 4 := by
  decide +kernel

lemma le_yearLength (y : ℕ) : 365 ≤ yearLength y := by
  rw [yearLength]
  split_ifs <;> omega

lemma daysBefore_succ : ∀ k < 131,
    daysBefore (1971 + k) = daysBefore (1970 + k) + yearLength (1970 + k) := by
  decide +kernel

lemma weeksInYear_eq : ∀ k < 130, weeksInYear.getD (k + 1) 0 =
    ((daysBefore (1971 + k) : ℤ) + 6) / 7 - ((daysBefore (1970 + k) : ℤ) + 6) / 7 := by
  decide +kernel

lemma dayOfYear_lt (hdate : IsDate ts) : dayOfYear ts < yearLength ts.year := by
  have hall : ∀ leap : Bool, ∀ k < 12, MonthInDays.getD k 0 + (if leap ∧ 2 < k + 1 then 1 else 0) +
      monthLength leap (k + 1) ≤ if leap then 366 else 365 := by decide
  obtain ⟨hge, hle⟩ := hdate.month
  have hsum := hall (isLeap ts.year) (ts.month - 1) (by omega)
  have hday := hdate.day
  rw [Nat.sub_add_cancel hge] at hsum
  rw [dayOfYear_eq hdate, yearLength]
  omega

section

variable (hyear : 1970 ≤ ts.year ∧ ts.year ≤ 2099) (hdate : IsDate ts)

include hyear hdate

lemma getOrdinal_eq : getOrdinal ts =
    (86400 * dayOfYear ts + (secondOfDay ts + ordinalShift ts)).tdiv 86400 := by
  have hrange : ¬(ts.year < 1970 ∨ 2100 < ts.year) := by omega
  rw [getOrdinal, if_neg hrange, syslogTime2time_t, if_neg hrange,
    NumberOfDays_eq (by omega) hdate, ordinalShift, secondOfDay]
  refine congrArg (Int.tdiv · 86400) ?_
  split_ifs <;> push_cast <;> omega

lemma getWeekdayNbr_eq : getWeekdayNbr ts = ((daysBefore ts.year + dayOfYear ts + 4) % 7 : ℕ) := by
  obtain ⟨k, hk⟩ := Nat.exists_eq_add_of_le hyear.1
  have hdays := daysBefore_eq k (by omega)
  have hleap : isLeap ts.year = true ↔ k % 4 = 2 := by
    simp only [isLeap, Bool.and_eq_true, Bool.or_eq_true, decide_eq_true_eq]
    omega
  have hday := hdate.day.1
  rw [← hk] at hdays
  rw [getWeekdayNbr, dayOfYear_eq hdate, hdays]
  simp only [hleap]
  obtain ⟨hge, hle⟩ := hdate.month
  generalize ts.month = m at hge hle ⊢
  rw [Int.tdiv_eq_ediv_of_nonneg, Int.tdiv_eq_ediv_of_nonneg, Int.tmod_eq_emod_of_nonneg]
  · have hdiv (g : ℤ) : 36525 * g / 100 = 365 * g + g / 4 := by omega
    have hlast : ((ts.year : ℤ) - 1) / 4 = 492 + ((k : ℤ) + 1) / 4 := by omega
    have hthis : (ts.year : ℤ) / 4 = 492 + ((k : ℤ) + 1) / 4 + if k % 4 = 2 then 1 else 0 := by
      split_ifs <;> omega
    rw [hdiv]
    interval_cases m <;> simp [MonthInDays, hlast, hthis] <;> omega
  all_goals split_ifs <;> omega

lemma getISOWeek_isISOWeek (h : getOrdinal ts = dayOfYear ts) : IsISOWeek ts (getISOWeek ts) := by
  obtain ⟨k, hk⟩ := Nat.exists_eq_add_of_le hyear.1
  have hlt := dayOfYear_lt hdate
  have hnext := daysBefore_succ k (by omega)
  have hweeks := weeksInYear_eq k (by omega)
  have hnum : 10 + ((dayOfYear ts : ℤ) + 1) -
      (if getWeekdayNbr ts = 0 then 7 else getWeekdayNbr ts) =
        thursday ts - daysBefore ts.year + 7 := by
    rw [getWeekdayNbr_eq hyear hdate, thursday]
    split_ifs <;> omega
  have hthursday : thursday ts % 7 = 0 ∧ daysBefore ts.year + dayOfYear ts - 3 ≤ thursday ts ∧
      thursday ts ≤ daysBefore ts.year + dayOfYear ts + 3 := by
    rw [thursday]
    omega
  rw [← hk] at hnext hweeks
  rw [IsISOWeek, getISOWeek, h, hnum, Int.tdiv_eq_ediv_of_nonneg (by omega),
    show ts.year - 1969 = k + 1 by omega, hweeks]
  split_ifs with hzero hlast
  · have hfirst : k = 0 → daysBefore ts.year = 0 := by
      rintro rfl
      rw [hk]
      rfl
    obtain ⟨l, rfl⟩ := Nat.exists_eq_succ_of_ne_zero (show k ≠ 0 by omega)
    have hprev := daysBefore_succ l (by omega)
    have hweeks' := weeksInYear_eq l (by omega)
    have hlong := le_yearLength (1970 + l)
    rw [show 1971 + l = ts.year by omega] at hprev hweeks'
    rw [show ts.year - 1 - 1969 = l + 1 by omega, show ts.year - 1 = 1970 + l by omega, hweeks']
    dsimp only
    omega
  · have hlong := le_yearLength (1971 + k)
    rw [show ts.year + 1 = 1971 + k by omega]
    dsimp only
    omega
  · dsimp only
    omega

end

lemma tdiv_day_iff (d : ℕ) (x : ℤ) : (86400 * d + x).tdiv 86400 = d ↔
    x < 86400 ∧ (0 ≤ x ∨ d = 0 ∧ -86400 < x) := by
  rcases le_or_gt 0 (86400 * (d : ℤ) + x) with hpos | hneg
  · rw [Int.tdiv_eq_ediv_of_nonneg hpos]
    omega
  · rw [← neg_neg (86400 * (d : ℤ) + x), Int.neg_tdiv, Int.tdiv_eq_ediv_of_nonneg (by omega)]
    omega

/-- The functions depend on the date only, exactly if the shifted second is within the day, or on
January 1 within the day before. -/
theorem onlyDate_iff (ts : Time) (hyear : 1970 ≤ ts.year ∧ ts.year ≤ 2099) (hdate : IsDate ts) :
    (getOrdinal ts = dayOfYear ts ∧ getWeek ts = getWeek (midnight ts) ∧
        IsISOWeek ts (getISOWeek ts)) ↔
      secondOfDay ts + ordinalShift ts < 86400 ∧ (0 ≤ secondOfDay ts + ordinalShift ts ∨
        dayOfYear ts = 0 ∧ -86400 < secondOfDay ts + ordinalShift ts) := by
  have hmidnight : getOrdinal (midnight ts) = dayOfYear ts := by
    have hday : IsDate (midnight ts) := ⟨hdate.month, hdate.day⟩
    have hordinal : getOrdinal (midnight ts) = _ := getOrdinal_eq hyear hday
    rw [hordinal]
    refine (tdiv_day_iff _ _).mpr ?_
    simp [midnight, secondOfDay, ordinalShift]
  have hrest (h : getOrdinal ts = dayOfYear ts) :
      getWeek ts = getWeek (midnight ts) ∧ IsISOWeek ts (getISOWeek ts) := by
    refine ⟨?_, getISOWeek_isISOWeek hyear hdate h⟩
    rw [getWeek, getWeek, hmidnight, h]
    rfl
  rw [and_iff_left_of_imp hrest, getOrdinal_eq hyear hdate]
  exact tdiv_day_iff _ _

theorem onlyDate_noon : IsISOWeek ⟨2021, 1, 1, 12, 0, 0, 0, 0, 90⟩ (53, 2020) :=
  ((onlyDate_iff ⟨2021, 1, 1, 12, 0, 0, 0, 0, 90⟩ (by decide) ⟨by decide, by decide⟩).mpr
    (by decide)).2.2

/-- The last second of a day is counted to the next one. -/
theorem getOrdinal_last_second :
    getOrdinal ⟨2021, 1, 1, 23, 59, 58, 0, 0, 90⟩ = 0 ∧
      getOrdinal ⟨2021, 1, 1, 23, 59, 59, 0, 0, 90⟩ = 1 := by
  decide +kernel

end Rsyslog.Datetime
