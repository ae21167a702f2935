import Mathlib.Order.Bounds.Basic
import Runku.Releases.NextAfter

namespace runku.releases

open runku.value (TimestampMicros)
open calendar (Date Gregorian)
open fallible

/-- The date that the conversion gives. -/
def civil_date (days : Int) : Date := ⟨(civil_from_days days).1, (civil_from_days days).2.1, (civil_from_days days).2.2⟩

/-- The conversion is the Gregorian calendar, before and after the epoch. -/
theorem civil_date_gregorian : Gregorian civil_date := by
  refine calendar.gregorian_of_date_of fun days year day_of_year hof => ?_
  obtain ⟨hmonth, hmonth', hday, hday'⟩ := calendar.month_day_range hof.nonneg hof.le
  have hmax : calendar.max_days (calendar.month day_of_year).toNat ≤ 31 := by
    unfold calendar.max_days
    split <;> decide
  rw [civil_date, civil_from_days_of_dayOf hof, calendar.date_of,
    to_u8_or_eq (n := (calendar.month day_of_year).toNat) (by omega) (by omega),
    to_u8_or_eq (n := (calendar.day day_of_year).toNat) (by omega) (by omega)]

/-- Whether the schedule asks for a minute, given the dates of the days: the day fits by its number or by its day of
the week if both are restricted, and by the restricted one otherwise. Day zero was a Thursday. -/
def CronSchedule.AsksFor (schedule : CronSchedule) (date : Int → Date) (unix_minute : Int) : Prop :=
  schedule.minute.contains (unix_minute % 60).toNat ∧ schedule.hour.contains (unix_minute / 60 % 24).toNat ∧
    schedule.month.contains (date (unix_minute / 1440)).month ∧
    (schedule.day_of_month.is_wildcard ∧ schedule.day_of_week.is_wildcard ∨
      !schedule.day_of_month.is_wildcard ∧ schedule.day_of_month.contains (date (unix_minute / 1440)).day ∨
      !schedule.day_of_week.is_wildcard ∧ schedule.day_of_week.contains ((unix_minute / 1440 + 4) % 7).toNat)

theorem CronSchedule.matches_minute_iff_asksFor (schedule : CronSchedule) {date : Int → Date} (hdate : Gregorian date)
    (unix_minute : Int) : schedule.matches_minute unix_minute ↔ schedule.AsksFor date unix_minute := by
  have hminute : to_u8_or 0 (unix_minute % MINUTES_PER_DAY % 60) = (unix_minute % 60).toNat := by
    simp only [MINUTES_PER_DAY]
    exact to_u8_or_eq (by omega) (by omega)
  have hhour : to_u8_or 0 (unix_minute % MINUTES_PER_DAY / 60) = (unix_minute / 60 % 24).toNat := by
    simp only [MINUTES_PER_DAY]
    exact to_u8_or_eq (by omega) (by omega)
  have hweekday : to_u8_or 0 ((unix_minute / MINUTES_PER_DAY + 4) % 7) = ((unix_minute / 1440 + 4) % 7).toNat := by
    simp only [MINUTES_PER_DAY]
    exact to_u8_or_eq (by omega) (by omega)
  rw [schedule.matches_minute_iff, CronSchedule.MatchesDay, hminute, hhour, hweekday, CronSchedule.AsksFor,
    hdate.unique civil_date_gregorian]
  exact Iff.rfl

/-- Every error of the search is the limit error. -/
theorem CronSchedule.search_failsWith (schedule : CronSchedule) (current_minute : Int) (remaining offset : Nat) :
    FailsWith .LimitExceeded (schedule.search current_minute remaining offset) := by
  have hchecked : ∀ value, FailsWith .LimitExceeded (checked_i64 value) := by
    intro value
    unfold checked_i64
    split
    · exact .ok _
    · exact .error
  induction remaining generalizing offset with
  | zero => exact .error
  | succ remaining ih =>
    rw [CronSchedule.search]
    refine (hchecked _).bind fun candidate => ?_
    split
    · exact (hchecked _).bind fun _ => .ok _
    · exact ih (offset + 1)

/-- The minutes after a time that the schedule asks for. -/
def CronSchedule.minutes_after (schedule : CronSchedule) (date : Int → Date) (time : TimestampMicros) : Set Int :=
  {minute | time.toInt < minute * MICROS_PER_MINUTE ∧ schedule.AsksFor date minute}

/-- The first minute that the schedule asks for is no timestamp any more. -/
def CronSchedule.Overflows (schedule : CronSchedule) (date : Int → Date) (time : TimestampMicros) : Prop :=
  ∃ minute, IsLeast (schedule.minutes_after date time) minute ∧ 2 ^ 63 ≤ minute * MICROS_PER_MINUTE

section
variable {schedule : CronSchedule} {date : Int → Date} {time : TimestampMicros}

/-- The minutes after a time are those after its own minute. -/
theorem CronSchedule.mem_minutes_after (hdate : Gregorian date) {k : Int} :
    time.toInt / MICROS_PER_MINUTE + k ∈ schedule.minutes_after date time ↔
      1 ≤ k ∧ schedule.matches_minute (time.toInt / MICROS_PER_MINUTE + k) := by
  rw [CronSchedule.minutes_after, Set.mem_ofPred_eq, schedule.matches_minute_iff_asksFor hdate]
  simp only [MICROS_PER_MINUTE]
  exact and_congr_left fun _ => by omega

/-- What the search returns is the first minute that the schedule asks for. -/
theorem CronSchedule.isLeast_of_next_after (hdate : Gregorian date) {next : TimestampMicros}
    (h : schedule.next_after time = .ok next) :
    ∃ minute, next.toInt = minute * MICROS_PER_MINUTE ∧ IsLeast (schedule.minutes_after date time) minute := by
  obtain ⟨k, hk, hnext, hmatches, hnone⟩ := CronSchedule.search_eq_ok h
  refine ⟨_, hnext, (CronSchedule.mem_minutes_after hdate).mpr ⟨by omega, hmatches⟩, fun minute hminute => ?_⟩
  by_contra hbefore
  obtain ⟨hpos, hmatch⟩ := (CronSchedule.mem_minutes_after (k := minute - time.toInt / MICROS_PER_MINUTE) hdate).mp
    (by rwa [add_sub_cancel])
  have hno := hnone (minute - time.toInt / MICROS_PER_MINUTE).toNat (by omega) (by omega)
  rw [Int.toNat_of_nonneg (by omega), hmatch] at hno
  cases hno

/-- A search fails only if the schedule asks for no minute any more. -/
theorem CronSchedule.next_after_isOk (hdate : Gregorian date) (hfits : ¬schedule.Overflows date time)
    (hsome : (schedule.minutes_after date time).Nonempty) : ∃ next, schedule.next_after time = .ok next := by
  generalize hcurrent : time.toInt / MICROS_PER_MINUTE = current_minute
  obtain ⟨minute, hminute⟩ := hsome
  have hmatches := (schedule.matches_minute_iff_asksFor hdate minute).mpr hminute.2
  have hsatisfiable := CronSchedule.satisfiable_of_matchesDay ((schedule.matches_minute_iff _).mp hmatches).2.2
  obtain ⟨k', hpos', hwithin, hk'⟩ := hsatisfiable.exists_matches current_minute
  have hexists : ∃ k : Nat, 1 ≤ k ∧ schedule.matches_minute (current_minute + k) := ⟨k', hpos', hk'⟩
  -- The first match is within the bound, and its time is a timestamp.
  obtain ⟨hpos, hk⟩ := Nat.find_spec hexists
  have hleast := fun i => @Nat.find_min' _ _ hexists i
  generalize Nat.find hexists = k at hpos hk hleast
  have hfirst : IsLeast (schedule.minutes_after date time) (current_minute + k) := by
    subst hcurrent
    refine ⟨(CronSchedule.mem_minutes_after hdate).mpr ⟨by omega, hk⟩, fun other hother => ?_⟩
    obtain ⟨hpos', hmatch⟩ := (CronSchedule.mem_minutes_after (k := other - time.toInt / MICROS_PER_MINUTE) hdate).mp
      (by rwa [add_sub_cancel])
    have := hleast (other - time.toInt / MICROS_PER_MINUTE).toNat
      ⟨by omega, by rwa [Int.toNat_of_nonneg (by omega)]⟩
    omega
  have hupper : (current_minute + k) * MICROS_PER_MINUTE < 2 ^ 63 := by
    by_contra hover
    exact hfits ⟨_, hfirst, not_lt.mp hover⟩
  have hlower := time.le_toInt
  rw [CronSchedule.next_after, hcurrent]
  refine CronSchedule.search_isOk (k := k) hpos ((hleast k' ⟨hpos', hk'⟩).trans_lt hwithin) hk fun i hi hle => ?_
  simp only [MICROS_PER_MINUTE] at hcurrent hupper ⊢
  omega

end

/-- Unless the next occurrence is no timestamp, the search returns the first minute after the time that the schedule
asks for in the Gregorian calendar, and it fails, with the limit error, exactly if there is no such minute. -/
theorem next_occurrence_correct (schedule : CronSchedule) {date : Int → Date} (hdate : Gregorian date)
    {time : TimestampMicros} (hfits : ¬schedule.Overflows date time) :
    (∃ next minute, schedule.next_after time = .ok next ∧ next.toInt = minute * MICROS_PER_MINUTE ∧
        IsLeast (schedule.minutes_after date time) minute) ∨
      schedule.next_after time = .error .LimitExceeded ∧ schedule.minutes_after date time = ∅ := by
  rcases (schedule.minutes_after date time).eq_empty_or_nonempty with hnone | hsome
  · refine .inr ⟨?_, hnone⟩
    cases hresult : schedule.next_after time with
    | error error => rw [schedule.search_failsWith _ _ _ error hresult]
    | ok next =>
      obtain ⟨minute, _, hleast⟩ := CronSchedule.isLeast_of_next_after hdate hresult
      rw [hnone] at hleast
      exact hleast.1.elim
  · obtain ⟨next, hnext⟩ := CronSchedule.next_after_isOk hdate hfits hsome
    obtain ⟨minute, htime, hleast⟩ := CronSchedule.isLeast_of_next_after hdate hnext
    exact .inl ⟨next, minute, hnext, htime, hleast⟩

/-- From 29 February 1896 the next 29 February comes eight years later, as 1900 was no leap year. -/
theorem leap_day_after_1896 :
    ∃ next minute, (CronSchedule.of_text "0 0 29 2 *" (by decide +kernel)).next_after (Int64.ofInt (-2330121600000000)) =
        .ok next ∧ next.toInt = minute * MICROS_PER_MINUTE ∧
      IsLeast ((CronSchedule.of_text "0 0 29 2 *" (by decide +kernel)).minutes_after civil_date
        (Int64.ofInt (-2330121600000000))) minute ∧ minute ≤ -34629120 := by
  generalize hschedule : CronSchedule.of_text "0 0 29 2 *" (by decide +kernel) = schedule
  have hmatches : schedule.matches_minute (-34629120) = true := by
    rw [← hschedule]
    decide +kernel
  have hmem : (-34629120 : Int) ∈ schedule.minutes_after civil_date (Int64.ofInt (-2330121600000000)) :=
    ⟨by decide +kernel, (schedule.matches_minute_iff_asksFor civil_date_gregorian _).mp hmatches⟩
  have hfits : ¬schedule.Overflows civil_date (Int64.ofInt (-2330121600000000)) := by
    rintro ⟨minute, hleast, hover⟩
    have := hleast.2 hmem
    simp only [MICROS_PER_MINUTE] at hover
    omega
  rcases next_occurrence_correct schedule civil_date_gregorian hfits with
    ⟨next, minute, hnext, htime, hleast⟩ | ⟨_, hnone⟩
  · exact ⟨next, minute, hnext, htime, hleast, hleast.2 hmem⟩
  · rw [hnone] at hmem
    exact hmem.elim

end runku.releases
