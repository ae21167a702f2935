import Mathlib.Algebra.Order.Ring.Int
import Mathlib.Data.Int.LeastGreatest

namespace calendar

/-- The days before a year. -/
def year_start (year : Int) : Int := 365 * year + year / 4 - year / 100 + year / 400

/-- Whether the year ends with a leap day. -/
def Leap (year : Int) : Prop := (year + 1) % 4 = 0 ∧ ((year + 1) % 100 ≠ 0 ∨ (year + 1) % 400 = 0)

/-- The most days a month ever has, with January as the first month. -/
def max_days : Nat → Nat
  | 2 => 29
  | 4 | 6 | 9 | 11 => 30
  | _ => 31

/-- The month of a day of the year, with January as the first month. -/
def month (day_of_year : Int) : Int :=
  (5 * day_of_year + 2) / 153 + if (5 * day_of_year + 2) / 153 < 10 then 3 else -9

/-- The day of the month of a day of the year. -/
def day (day_of_year : Int) : Int := day_of_year - (153 * ((5 * day_of_year + 2) / 153) + 2) / 5 + 1

/-- The day of the year on which a month begins. -/
def month_start (m : Nat) : Int := (153 * ((m + 9) % 12 : Nat) + 2) / 5

theorem year_start_add_one (year : Int) : year_start (year + 1) = year_start year + 365 ∧ ¬Leap year ∨
      year_start (year + 1) = year_start year + 366 ∧ Leap year := by
  unfold year_start Leap
  omega

/-- The year of a day of an era. -/
def year_of_era (day_of_era : Int) : Int :=
  (day_of_era - day_of_era / 1460 + day_of_era / 36524 - day_of_era / 146096) / 365

theorem year_of_era_mono {a b : Int} (h : a ≤ b) : year_of_era a ≤ year_of_era b := by
  -- Every fourth correction of a century takes back the one of its era.
  have hcentury (x : Int) : x / 146096 = x / 36524 / 4 := by omega
  have hdays : a - a / 1460 ≤ b - b / 1460 := by omega
  have hcenturies : a / 36524 - a / 36524 / 4 ≤ b / 36524 - b / 36524 / 4 := by
    have : a / 36524 ≤ b / 36524 := Int.ediv_le_ediv (by decide) h
    omega
  refine Int.ediv_le_ediv (by decide) ?_
  rw [hcentury a, hcentury b]
  omega

/-- The formula finds the year of every day of the first era: it is monotone, and right on the first and the
last day of every year. -/
theorem year_of_era_eq {year day_of_era : Int} (hyear : 0 ≤ year) (hyear' : year < 400)
    (hstart : year_start year ≤ day_of_era) (hend : day_of_era < year_start (year + 1)) :
    year_of_era day_of_era = year := by
  have hends : ∀ y : Fin 400, year_of_era (year_start (y.val : Int)) = y.val ∧
      year_of_era (year_start ((y.val : Int) + 1) - 1) = y.val := by decide +kernel
  obtain ⟨hfirst, hlast⟩ := hends ⟨year.toNat, by omega⟩
  rw [Int.toNat_of_nonneg hyear] at hfirst hlast
  have hge := year_of_era_mono hstart
  have hle := year_of_era_mono (show day_of_era ≤ year_start (year + 1) - 1 by omega)
  omega

theorem year_start_era (era year : Int) : year_start (400 * era + year) = 146097 * era + year_start year := by
  unfold year_start
  omega

/-- Every day belongs to a year. -/
theorem exists_year (days : Int) : ∃ year, year_start year ≤ days ∧ days < year_start (year + 1) := by
  obtain ⟨year, hstart, hgreatest⟩ := @Int.exists_greatest_of_bdd (fun year => year_start year ≤ days)
    ⟨days.natAbs, fun year hyear => by unfold year_start at hyear; omega⟩
    ⟨-days.natAbs - 1, by unfold year_start; omega⟩
  refine ⟨year, hstart, ?_⟩
  by_contra hend
  have := hgreatest (year + 1) (not_lt.mp hend)
  omega

/-- A month and a day that some year has, found by their day of the year. -/
theorem month_day_month_start {m d : Nat} (hm : 1 ≤ m ∧ m ≤ 12) (hd : 1 ≤ d ∧ d ≤ max_days m) :
    month (month_start m + (d - 1 : Nat)) = m ∧ day (month_start m + (d - 1 : Nat)) = d ∧
      0 ≤ month_start m + (d - 1 : Nat) ∧ month_start m + (d - 1 : Nat) ≤ 365 := by
  have h : ∀ m : Fin 13, 1 ≤ m.val → ∀ d : Fin 32, 1 ≤ d.val → d.val ≤ max_days m.val →
      month (month_start m.val + (d.val - 1 : Nat)) = m.val ∧ day (month_start m.val + (d.val - 1 : Nat)) = d.val ∧
      0 ≤ month_start m.val + (d.val - 1 : Nat) ∧ month_start m.val + (d.val - 1 : Nat) ≤ 365 := by decide +kernel
  have hmax : max_days m ≤ 31 := by
    unfold max_days
    split <;> decide
  exact h ⟨m, by omega⟩ hm.1 ⟨d, by omega⟩ hd.1 hd.2

/-- Every day of a year has a month, and a number that the month reaches. -/
theorem month_day_range {day_of_year : Int} (h : 0 ≤ day_of_year) (h' : day_of_year ≤ 365) :
    1 ≤ month day_of_year ∧ month day_of_year ≤ 12 ∧ 1 ≤ day day_of_year ∧
      day day_of_year ≤ max_days (month day_of_year).toNat := by
  have hall : ∀ doy : Fin 366, 1 ≤ month (doy.val : Int) ∧ month (doy.val : Int) ≤ 12 ∧ 1 ≤ day (doy.val : Int) ∧
      day (doy.val : Int) ≤ max_days (month (doy.val : Int)).toNat := by decide +kernel
  have := hall ⟨day_of_year.toNat, by omega⟩
  rwa [Int.toNat_of_nonneg h] at this

/-- Leap years are at most eight years apart. -/
theorem exists_leap_year (year : Int) : ∃ years : Nat, years ≤ 7 ∧ Leap (year + years) := by
  by_cases hfourth : Leap (year + ((3 - year % 4) % 4).toNat)
  · exact ⟨_, by omega, hfourth⟩
  · unfold Leap at hfourth ⊢
    exact ⟨((3 - year % 4) % 4).toNat + 4, by omega, by omega⟩

/-- The day with the given number in its year. -/
structure DayOf (days year day_of_year : Int) : Prop where
  eq : days = year_start year + day_of_year
  nonneg : 0 ≤ day_of_year
  lt : days < year_start (year + 1)

theorem DayOf.le {days year day_of_year : Int} (h : DayOf days year day_of_year) : day_of_year ≤ 365 := by
  have := h.eq
  have := h.lt
  rcases year_start_add_one year with ⟨hlength, _⟩ | ⟨hlength, _⟩ <;> omega

theorem exists_dayOf (days : Int) : ∃ year day_of_year, DayOf days year day_of_year := by
  obtain ⟨year, hstart, hend⟩ := exists_year days
  exact ⟨year, days - year_start year, by omega, by omega, hend⟩

/-- Every year has 365 days, so each of them is still to come in this year or comes in the next. -/
theorem exists_common_day {day_of_year : Int} (hnonneg : 0 ≤ day_of_year) (hle : day_of_year < 365) (days : Int) :
    ∃ days' year, days < days' ∧ days' ≤ days + 732 ∧ DayOf days' year day_of_year := by
  obtain ⟨year, hstart, hend⟩ := exists_year (days + 1)
  have hlength := year_start_add_one year
  have hlength' := year_start_add_one (year + 1)
  by_cases hcome : days < year_start year + day_of_year
  · exact ⟨_, year, hcome, by omega, rfl, hnonneg, by omega⟩
  · exact ⟨_, year + 1, by omega, by omega, rfl, hnonneg, by omega⟩

/-- A leap day ends its year. -/
theorem exists_leap_day (days : Int) : ∃ days' year, days < days' ∧ days' ≤ days + 2922 ∧ DayOf days' year 365 := by
  obtain ⟨year, hstart, hend⟩ := exists_year (days + 1)
  obtain ⟨years, hyears, hleap⟩ := exists_leap_year year
  have hlast : year_start (year + years + 1) = year_start (year + years) + 366 :=
    ((year_start_add_one _).resolve_left fun h => h.2 hleap).1
  have hbefore : year_start (year + 1) ≤ year_start (year + years + 1) ∧
      year_start (year + years + 1) ≤ year_start year + 2922 := by
    unfold year_start
    omega
  exact ⟨_, year + years, by omega, by omega, rfl, by decide, by omega⟩

/-- Every day of every month comes back within eight years. -/
theorem exists_day {m d : Nat} (hm : 1 ≤ m ∧ m ≤ 12) (hd : 1 ≤ d ∧ d ≤ max_days m) (days : Int) :
    ∃ days' year day_of_year, days < days' ∧ days' ≤ days + 2922 ∧ DayOf days' year day_of_year ∧
      month day_of_year = m ∧ day day_of_year = d := by
  obtain ⟨hmonth, hday, hnonneg, hle⟩ := month_day_month_start hm hd
  generalize month_start m + (d - 1 : Nat) = day_of_year at hmonth hday hnonneg hle
  rcases hle.lt_or_eq with hlt | rfl
  · obtain ⟨days', year, hafter, hwithin, hof⟩ := exists_common_day hnonneg hlt days
    exact ⟨days', year, day_of_year, hafter, by omega, hof, hmonth, hday⟩
  · obtain ⟨days', year, hafter, hwithin, hof⟩ := exists_leap_day days
    exact ⟨days', year, 365, hafter, hwithin, hof, hmonth, hday⟩

theorem month_of_first_days {m : Nat} (hm : 1 ≤ m ∧ m ≤ 12) {k : Nat} (hk : k < 7) :
    month (month_start m + k) = m ∧ 0 ≤ month_start m ∧ month_start m + k < 365 := by
  have h : ∀ m : Fin 13, 1 ≤ m.val → ∀ k : Fin 7, month (month_start m.val + k.val) = m.val ∧
      0 ≤ month_start m.val ∧ month_start m.val + k.val < 365 := by decide +kernel
  exact h ⟨m, by omega⟩ hm.1 ⟨k, hk⟩

/-- Every day of the week comes back in every month, among its first seven days. -/
theorem exists_weekday {m : Nat} (hm : 1 ≤ m ∧ m ≤ 12) {weekday : Int} (hweekday : 0 ≤ weekday ∧ weekday < 7)
    (offset days : Int) : ∃ days' year day_of_year, days < days' ∧ days' ≤ days + 738 ∧
      DayOf days' year day_of_year ∧ month day_of_year = m ∧ (days' + offset) % 7 = weekday := by
  obtain ⟨_, hnonneg, hlt⟩ := month_of_first_days hm (show 0 < 7 by decide)
  obtain ⟨first, year, hafter, hwithin, hof⟩ := exists_common_day hnonneg (by omega) days
  obtain ⟨k, hk, hday⟩ : ∃ k : Nat, k < 7 ∧ (first + k + offset) % 7 = weekday :=
    ⟨((weekday - first - offset) % 7).toNat, by omega, by omega⟩
  obtain ⟨hmonth, _, hlt'⟩ := month_of_first_days hm hk
  have heq := hof.eq
  have hlength := year_start_add_one year
  exact ⟨first + k, year, month_start m + k, by omega, by omega, ⟨by omega, by omega, by omega⟩, hmonth, hday⟩

/-- A date, with January as the first month. -/
structure Date where
  year : Int
  month : Nat
  day : Nat
  deriving DecidableEq

def is_leap_year (year : Int) : Bool := year % 4 = 0 ∧ (year % 100 ≠ 0 ∨ year % 400 = 0)

def days_in_month (year : Int) (m : Nat) : Nat := if m = 2 ∧ !is_leap_year year then 28 else max_days m

/-- Whether the calendar has the date. -/
def Date.Valid (date : Date) : Prop :=
  1 ≤ date.month ∧ date.month ≤ 12 ∧ 1 ≤ date.day ∧ date.day ≤ days_in_month date.year date.month

/-- The date of the day after. -/
def Date.next (date : Date) : Date :=
  if date.day < days_in_month date.year date.month then ⟨date.year, date.month, date.day + 1⟩
  else if date.month < 12 then ⟨date.year, date.month + 1, 1⟩
  else ⟨date.year + 1, 1, 1⟩

/-- The dates of all days, counted from 1 January 1970: each day has the date after that of the day before. -/
structure Gregorian (date : Int → Date) : Prop where
  epoch : date 0 = ⟨1970, 1, 1⟩
  valid : ∀ days, (date days).Valid
  next : ∀ days, date (days + 1) = (date days).next

theorem days_in_month_pos (year : Int) (m : Nat) : 28 ≤ days_in_month year m := by
  unfold days_in_month max_days
  split
  · decide
  · split <;> decide

theorem days_in_month_of_ne {m : Nat} (h : m ≠ 2) (year : Int) : days_in_month year m = max_days m :=
  if_neg fun hfeb => h hfeb.1

/-- Different dates have different next dates. -/
theorem Date.next_inj {a b : Date} (ha : a.Valid) (hb : b.Valid) (h : a.next = b.next) : a = b := by
  obtain ⟨year, month, day⟩ := a
  obtain ⟨year', month', day'⟩ := b
  unfold Date.Valid at ha hb
  unfold Date.next at h
  dsimp only at ha hb h
  have hpos := days_in_month_pos year month
  have hpos' := days_in_month_pos year' month'
  by_cases hlast : day < days_in_month year month
  · rw [if_pos hlast] at h
    by_cases hlast' : day' < days_in_month year' month'
    · rw [if_pos hlast'] at h
      obtain ⟨rfl, rfl, hday⟩ := Date.mk.inj h
      rw [Nat.succ.inj hday]
    · rw [if_neg hlast'] at h
      split at h <;> rw [Date.mk.injEq] at h <;> omega
  · rw [if_neg hlast] at h
    by_cases hlast' : day' < days_in_month year' month'
    · rw [if_pos hlast'] at h
      split at h <;> rw [Date.mk.injEq] at h <;> omega
    -- Both days end their month.
    · rw [if_neg hlast'] at h
      have hsame : year = year' ∧ month = month' := by
        split at h <;> split at h <;> rw [Date.mk.injEq] at h <;> omega
      obtain ⟨rfl, rfl⟩ := hsame
      have hday : day = day' := by omega
      rw [hday]

/-- There is one assignment of dates to days. -/
theorem Gregorian.unique {date date' : Int → Date} (h : Gregorian date) (h' : Gregorian date') (days : Int) :
    date days = date' days := by
  induction days using Int.induction_on with
  | zero => rw [h.epoch, h'.epoch]
  | succ days ih => rw [h.next, h'.next, ih]
  | pred days ih =>
    refine Date.next_inj (h.valid _) (h'.valid _) ?_
    rw [← h.next, ← h'.next, Int.sub_add_cancel, ih]

/-- The date of a day of a year that is counted from March. -/
def date_of (year day_of_year : Int) : Date :=
  ⟨year + if month day_of_year ≤ 2 then 1 else 0, (month day_of_year).toNat, (day day_of_year).toNat⟩

theorem is_leap_year_iff (year : Int) : is_leap_year (year + 1) = true ↔ Leap year := by
  simp [is_leap_year, Leap]

/-- What follows a day before the last days of February: the next day of the month, or the first of the next one. -/
theorem month_day_succ {day_of_year : Int} (h : 0 ≤ day_of_year) (h' : day_of_year < 364) :
    (month (day_of_year + 1) = month day_of_year ∧ day (day_of_year + 1) = day day_of_year + 1 ∧
        day day_of_year < if month day_of_year = 2 then 28 else max_days (month day_of_year).toNat) ∨
      (month day_of_year ≠ 2 ∧ day day_of_year = max_days (month day_of_year).toNat ∧ day (day_of_year + 1) = 1 ∧
        (2 < month day_of_year ∧ month day_of_year < 12 ∧ month (day_of_year + 1) = month day_of_year + 1 ∨
          month day_of_year = 1 ∧ month (day_of_year + 1) = 2 ∨
          month day_of_year = 12 ∧ month (day_of_year + 1) = 1)) := by
  have hall : ∀ doy : Fin 364,
      (month ((doy.val : Int) + 1) = month (doy.val : Int) ∧ day ((doy.val : Int) + 1) = day (doy.val : Int) + 1 ∧
        day (doy.val : Int) < if month (doy.val : Int) = 2 then 28 else max_days (month (doy.val : Int)).toNat) ∨
      (month (doy.val : Int) ≠ 2 ∧ day (doy.val : Int) = max_days (month (doy.val : Int)).toNat ∧
        day ((doy.val : Int) + 1) = 1 ∧
        (2 < month (doy.val : Int) ∧ month (doy.val : Int) < 12 ∧
            month ((doy.val : Int) + 1) = month (doy.val : Int) + 1 ∨
          month (doy.val : Int) = 1 ∧ month ((doy.val : Int) + 1) = 2 ∨
          month (doy.val : Int) = 12 ∧ month ((doy.val : Int) + 1) = 1)) := by decide +kernel
  have := hall ⟨day_of_year.toNat, by omega⟩
  rwa [Int.toNat_of_nonneg h] at this

/-- The days of a year follow one another. -/
theorem date_of_next {year day_of_year : Int} (h : 0 ≤ day_of_year) (h' : day_of_year < 364 ∨ day_of_year = 364 ∧ Leap year) :
    (date_of year day_of_year).next = date_of year (day_of_year + 1) := by
  rcases h' with hlt | ⟨rfl, hleap⟩
  · obtain ⟨hmonth, hmonth', hday, _⟩ := month_day_range h (by omega)
    rcases month_day_succ h hlt with ⟨hsame, hsucc, hshort⟩ | ⟨hfeb, hlast, hfirst, hnext⟩
    · have hbefore : (day day_of_year).toNat <
          days_in_month (year + if month day_of_year ≤ 2 then 1 else 0) (month day_of_year).toNat := by
        by_cases hfeb : month day_of_year = 2
        · have hpos := days_in_month_pos (year + if month day_of_year ≤ 2 then 1 else 0) (month day_of_year).toNat
          rw [if_pos hfeb] at hshort
          omega
        · rw [if_neg hfeb] at hshort
          rw [days_in_month_of_ne (by omega)]
          omega
      rw [Date.next, date_of, date_of, if_pos hbefore, hsame, hsucc, Date.mk.injEq]
      dsimp only
      exact ⟨rfl, rfl, by omega⟩
    · have hend : ¬(day day_of_year).toNat <
          days_in_month (year + if month day_of_year ≤ 2 then 1 else 0) (month day_of_year).toNat := by
        rw [days_in_month_of_ne (by omega)]
        omega
      rw [Date.next, date_of, date_of, if_neg hend, hfirst]
      dsimp only
      rcases hnext with ⟨hlow, hhigh, hsucc⟩ | ⟨hone, hsucc⟩ | ⟨htwelve, hsucc⟩
      · rw [if_pos (by omega), hsucc, if_neg (by omega), if_neg (by omega), Date.mk.injEq]
        exact ⟨rfl, by omega, rfl⟩
      · rw [hsucc, hone]
        rfl
      · rw [hsucc, htwelve]
        simp
  · -- 28 February is followed by a leap day.
    have hyear := (is_leap_year_iff year).mpr hleap
    have hdate : date_of year 364 = ⟨year + 1, 2, 28⟩ := rfl
    have hdate' : date_of year (364 + 1) = ⟨year + 1, 2, 29⟩ := rfl
    rw [hdate, hdate', Date.next]
    simp [days_in_month, hyear, max_days]

/-- The last day of February is followed by the first of March. -/
theorem date_of_next_year {year day_of_year : Int} (h : day_of_year = 364 ∧ ¬Leap year ∨ day_of_year = 365 ∧ Leap year) :
    (date_of year day_of_year).next = date_of (year + 1) 0 := by
  have hmarch : date_of (year + 1) 0 = ⟨year + 1, 3, 1⟩ := by
    have : date_of (year + 1) 0 = ⟨year + 1 + 0, 3, 1⟩ := rfl
    rwa [Int.add_zero] at this
  rw [hmarch]
  rcases h with ⟨rfl, hleap⟩ | ⟨rfl, hleap⟩
  · rw [← is_leap_year_iff] at hleap
    have hdate : date_of year 364 = ⟨year + 1, 2, 28⟩ := rfl
    rw [hdate, Date.next]
    simp [days_in_month, hleap]
  · have hyear := (is_leap_year_iff year).mpr hleap
    have hdate : date_of year 365 = ⟨year + 1, 2, 29⟩ := rfl
    rw [hdate, Date.next]
    simp [days_in_month, hyear, max_days]

/-- Whatever finds the date of every day of every year assigns the dates of the calendar. -/
theorem gregorian_of_date_of {date : Int → Date}
    (h : ∀ days year day_of_year, DayOf (days + 719468) year day_of_year → date days = date_of year day_of_year) :
    Gregorian date where
  epoch := by
    rw [h 0 1969 306 ⟨by decide, by decide, by decide⟩]
    decide
  valid days := by
    obtain ⟨year, day_of_year, hof⟩ := exists_dayOf (days + 719468)
    obtain ⟨hmonth, hmonth', hday, hday'⟩ := month_day_range hof.nonneg hof.le
    rw [h days year day_of_year hof]
    refine ⟨?_, ?_, ?_, ?_⟩
    · simp only [date_of]
      omega
    · simp only [date_of]
      omega
    · simp only [date_of]
      omega
    · have hlast : day_of_year < 365 ∨ Leap year := by
        have heq := hof.eq
        have hlt := hof.lt
        rcases year_start_add_one year with ⟨hlength, _⟩ | ⟨_, hleap⟩
        · exact .inl (by omega)
        · exact .inr hleap
      by_cases hfeb : month day_of_year = 2
      · have hdate : date_of year day_of_year = ⟨year + 1, 2, (day day_of_year).toNat⟩ := by
          rw [date_of, hfeb]
          rfl
        rw [hdate]
        unfold days_in_month
        by_cases hleap : Leap year
        · rw [if_neg (by simp [(is_leap_year_iff year).mpr hleap])]
          have hmax : max_days (month day_of_year).toNat = 29 := by rw [hfeb]; rfl
          have hmax' : max_days 2 = 29 := rfl
          dsimp only
          omega
        · rw [← is_leap_year_iff] at hleap
          rw [if_pos (by simp [hleap])]
          have hall : ∀ doy : Fin 365, month (doy.val : Int) = 2 → day (doy.val : Int) ≤ 28 := by decide +kernel
          rw [is_leap_year_iff] at hleap
          have hcommon := hlast.resolve_right hleap
          have hnonneg := hof.nonneg
          have hshort := hall ⟨day_of_year.toNat, by omega⟩
          rw [Int.toNat_of_nonneg hnonneg] at hshort
          have := hshort hfeb
          dsimp only
          omega
      · rw [date_of, days_in_month_of_ne (by dsimp only; omega)]
        dsimp only
        omega
  next days := by
    obtain ⟨year, day_of_year, hof⟩ := exists_dayOf (days + 719468)
    have heq := hof.eq
    have hnonneg := hof.nonneg
    have hlt := hof.lt
    rw [h days year day_of_year hof]
    by_cases hend : days + 719468 + 1 < year_start (year + 1)
    · rw [h (days + 1) year (day_of_year + 1) ⟨by omega, by omega, by omega⟩]
      refine (date_of_next hnonneg ?_).symm
      rcases year_start_add_one year with ⟨hlength, _⟩ | ⟨hlength, hleap⟩
      · omega
      · rcases Int.lt_or_eq_of_le (show day_of_year ≤ 364 by omega) with hlt' | heq'
        · exact .inl hlt'
        · exact .inr ⟨heq', hleap⟩
    · have hlength := year_start_add_one (year + 1)
      rw [h (days + 1) (year + 1) 0 ⟨by omega, le_rfl, by omega⟩]
      refine (date_of_next_year ?_).symm
      rcases year_start_add_one year with ⟨hlength', hleap⟩ | ⟨hlength', hleap⟩
      · exact .inl ⟨by omega, hleap⟩
      · exact .inr ⟨by omega, hleap⟩

end calendar
