import Runku.Lib.Calendar
import Runku.Releases.Cron

/-! `runku-releases/src/cron.rs`: the search for the next matching minute. -/

namespace runku.releases

open runku.value (TimestampMicros)
open fallible

/-- `u8::try_from(value).unwrap_or(default)`. -/
def to_u8_or (default : Nat) (value : Int) : Nat := if 0 ≤ value ∧ value < 256 then value.toNat else default

/-- Year, month and day of a day since the Unix epoch. -/
def civil_from_days (days_since_epoch : Int) : Int × Nat × Nat :=
  let shifted := days_since_epoch + 719468
  let era := shifted / 146097
  let day_of_era := shifted - era * 146097
  let year_of_era := (day_of_era - day_of_era / 1460 + day_of_era / 36524 - day_of_era / 146096) / 365
  let year := year_of_era + era * 400
  let day_of_year := day_of_era - (365 * year_of_era + year_of_era / 4 - year_of_era / 100)
  let month_prime := (5 * day_of_year + 2) / 153
  let day := day_of_year - (153 * month_prime + 2) / 5 + 1
  let month := month_prime + if month_prime < 10 then 3 else -9
  let year := year + if month ≤ 2 then 1 else 0
  (year, to_u8_or 1 month, to_u8_or 1 day)

def CronSchedule.matches_minute (schedule : CronSchedule) (unix_minute : Int) : Bool :=
  let days := unix_minute / MINUTES_PER_DAY
  let minute_of_day := unix_minute % MINUTES_PER_DAY
  let hour := to_u8_or 0 (minute_of_day / 60)
  let minute := to_u8_or 0 (minute_of_day % 60)
  let (_, month, day) := civil_from_days days
  let weekday := to_u8_or 0 ((days + 4) % 7)
  let month_matches := schedule.month.contains month
  let day_of_month_matches := schedule.day_of_month.contains day
  let day_of_week_matches := schedule.day_of_week.contains weekday
  let day_matches := match schedule.day_of_month.is_wildcard, schedule.day_of_week.is_wildcard with
    | true, true => true
    | true, false => day_of_week_matches
    | false, true => day_of_month_matches
    | false, false => day_of_month_matches || day_of_week_matches
  schedule.minute.contains minute && schedule.hour.contains hour && month_matches && day_matches

/-- A checked operation on signed 64-bit integers. -/
def checked_i64 (value : Int) : Except ReleaseError Int :=
  if -2 ^ 63 ≤ value ∧ value < 2 ^ 63 then .ok value else .error .LimitExceeded

/-- The loop over the offsets, from `offset` on. -/
def CronSchedule.search (schedule : CronSchedule) (current_minute : Int) :
    Nat → Nat → Except ReleaseError TimestampMicros
  | 0, _ => .error .LimitExceeded
  | remaining + 1, offset => do
    let candidate_minute ← checked_i64 (current_minute + offset)
    if schedule.matches_minute candidate_minute then do
      let micros ← checked_i64 (candidate_minute * MICROS_PER_MINUTE)
      return Int64.ofInt micros
    else schedule.search current_minute remaining (offset + 1)

def CronSchedule.next_after (schedule : CronSchedule) (timestamp : TimestampMicros) :
    Except ReleaseError TimestampMicros :=
  schedule.search (timestamp.toInt / MICROS_PER_MINUTE) MAX_SEARCH_MINUTES 1

theorem checked_i64_eq_ok_iff {value result : Int} :
    checked_i64 value = .ok result ↔ (-2 ^ 63 ≤ value ∧ value < 2 ^ 63) ∧ result = value := by
  unfold checked_i64
  split
  · rename_i h
    rw [Except.ok.injEq, eq_comm]
    exact (and_iff_right h).symm
  · rename_i h
    exact ⟨nofun, fun h' => absurd h'.1 h⟩

theorem toInt_ofInt {value : Int} (h : -2 ^ 63 ≤ value ∧ value < 2 ^ 63) : (Int64.ofInt value).toInt = value :=
  Int64.toInt_ofInt_of_le (by omega) (by omega)

section
variable {schedule : CronSchedule} {current_minute : Int}

/-- What the search returns is the first match. -/
theorem CronSchedule.search_eq_ok {remaining offset : Nat} {time : TimestampMicros}
    (h : schedule.search current_minute remaining offset = .ok time) :
    ∃ k : Nat, offset ≤ k ∧ time.toInt = (current_minute + k) * MICROS_PER_MINUTE ∧
      schedule.matches_minute (current_minute + k) ∧
      ∀ i : Nat, offset ≤ i → i < k → schedule.matches_minute (current_minute + i) = false := by
  induction remaining generalizing offset with
  | zero => cases h
  | succ remaining ih =>
    obtain ⟨candidate, hcandidate, h⟩ := bind_eq_ok_iff.mp h
    obtain ⟨_, rfl⟩ := checked_i64_eq_ok_iff.mp hcandidate
    split at h
    · rename_i hmatches
      obtain ⟨micros, hmicros, h⟩ := bind_eq_ok_iff.mp h
      obtain ⟨hrange, rfl⟩ := checked_i64_eq_ok_iff.mp hmicros
      cases h
      refine ⟨offset, le_rfl, toInt_ofInt hrange, hmatches, fun i hi hlt => ?_⟩
      omega
    · rename_i hmatches
      obtain ⟨k, hk, htime, hmatch, hnone⟩ := ih h
      refine ⟨k, by omega, htime, hmatch, fun i hi hlt => ?_⟩
      rcases hi.lt_or_eq with hlater | rfl
      · exact hnone i hlater hlt
      · exact Bool.not_eq_true _ ▸ hmatches

/-- A search that reaches a matching minute succeeds, unless a time leaves the range of an `i64`. -/
theorem CronSchedule.search_isOk {remaining offset k : Nat} (hk : offset ≤ k) (hlt : k < offset + remaining)
    (hmatches : schedule.matches_minute (current_minute + k))
    (hrange : ∀ i : Nat, offset ≤ i → i ≤ k → -2 ^ 63 ≤ (current_minute + i) * MICROS_PER_MINUTE ∧
      (current_minute + i) * MICROS_PER_MINUTE < 2 ^ 63) :
    ∃ time, schedule.search current_minute remaining offset = .ok time := by
  induction remaining generalizing offset with
  | zero => omega
  | succ remaining ih =>
    have hin := hrange offset le_rfl hk
    have hminute : -2 ^ 63 ≤ current_minute + offset ∧ current_minute + offset < 2 ^ 63 := by
      simp only [MICROS_PER_MINUTE] at hin
      omega
    rw [CronSchedule.search, checked_i64_eq_ok_iff.mpr ⟨hminute, rfl⟩, ok_bind]
    split
    · rw [checked_i64_eq_ok_iff.mpr ⟨hin, rfl⟩]
      exact ⟨_, rfl⟩
    · rename_i hno
      exact ih (Nat.lt_of_le_of_ne hk fun heq => hno (heq ▸ hmatches)) (by omega) fun i hi =>
        hrange i (Nat.le_of_succ_le hi)

end

variable {schedule : CronSchedule}

open calendar (DayOf year_start max_days)

theorem to_u8_or_eq {default : Nat} {value : Int} {n : Nat} (h : value = n) (hn : n < 256) :
    to_u8_or default value = n := by
  unfold to_u8_or
  rw [if_pos (by omega), h, Int.toNat_natCast]

/-- The conversion finds year, month and day of every day of the calendar. -/
theorem civil_from_days_of_dayOf {days year day_of_year : Int} (h : DayOf (days + 719468) year day_of_year) :
    civil_from_days days = (year + (if calendar.month day_of_year ≤ 2 then 1 else 0),
      to_u8_or 1 (calendar.month day_of_year), to_u8_or 1 (calendar.day day_of_year)) := by
  obtain ⟨heq, hnonneg, hlt⟩ := h
  -- In the first era the formula of the source gives the year of the day.
  have hstart := calendar.year_start_era (year / 400) (year % 400)
  have hend := calendar.year_start_era (year / 400) (year % 400 + 1)
  rw [show 400 * (year / 400) + year % 400 = year by omega] at hstart
  rw [show 400 * (year / 400) + (year % 400 + 1) = year + 1 by omega] at hend
  have hwithin : 0 ≤ year_start (year % 400) ∧ year_start (year % 400 + 1) ≤ 146097 := by
    unfold year_start
    omega
  have hera : (days + 719468) / 146097 = year / 400 := by omega
  have hyear : calendar.year_of_era (days + 719468 - year / 400 * 146097) = year % 400 :=
    calendar.year_of_era_eq (by omega) (by omega) (by omega) (by omega)
  have hday : days + 719468 - year / 400 * 146097 -
      (365 * (year % 400) + year % 400 / 4 - year % 400 / 100) = day_of_year := by
    have : year_start (year % 400) = 365 * (year % 400) + year % 400 / 4 - year % 400 / 100 := by
      unfold year_start
      omega
    omega
  unfold calendar.year_of_era at hyear
  simp only [civil_from_days, hera, hyear, hday]
  rw [show year % 400 + year / 400 * 400 = year by omega]
  rfl

theorem civil_from_days_eq {days year day_of_year : Int} (h : DayOf (days + 719468) year day_of_year) :
    (civil_from_days days).2 = (to_u8_or 1 (calendar.month day_of_year), to_u8_or 1 (calendar.day day_of_year)) := by
  rw [civil_from_days_of_dayOf h]

/-- Whether the schedule has occurrences on a day: the month fits, and the day fits by its number, by its day
of the week, or by either of them if both are restricted. -/
def CronSchedule.MatchesDay (schedule : CronSchedule) (days : Int) : Prop :=
  schedule.month.contains (civil_from_days days).2.1 ∧
    (schedule.day_of_month.is_wildcard ∧ schedule.day_of_week.is_wildcard ∨
      !schedule.day_of_month.is_wildcard ∧ schedule.day_of_month.contains (civil_from_days days).2.2 ∨
      !schedule.day_of_week.is_wildcard ∧ schedule.day_of_week.contains (to_u8_or 0 ((days + 4) % 7)))

theorem CronSchedule.matches_minute_iff (schedule : CronSchedule) (unix_minute : Int) :
    schedule.matches_minute unix_minute ↔ schedule.minute.contains (to_u8_or 0 (unix_minute % MINUTES_PER_DAY % 60)) ∧
        schedule.hour.contains (to_u8_or 0 (unix_minute % MINUTES_PER_DAY / 60)) ∧
        schedule.MatchesDay (unix_minute / MINUTES_PER_DAY) := by
  simp only [CronSchedule.matches_minute, CronSchedule.MatchesDay, Bool.and_eq_true, and_assoc]
  cases schedule.day_of_month.is_wildcard <;> cases schedule.day_of_week.is_wildcard <;> simp

/-- The calendar has a day that the schedule asks for. -/
def CronSchedule.Satisfiable (schedule : CronSchedule) : Prop :=
  ∃ month ∈ CronField.values 1 12, schedule.month.contains month ∧
    (!schedule.day_of_week.is_wildcard ∨
      ∃ day ∈ CronField.values 1 31, day ≤ max_days month ∧ schedule.day_of_month.contains day)

instance (schedule : CronSchedule) : Decidable schedule.Satisfiable :=
  inferInstanceAs (Decidable (∃ month ∈ CronField.values 1 12, _ ∧ _))

theorem CronField.exists_contains {minimum maximum : Nat} (field : CronField minimum maximum) :
    ∃ value, minimum ≤ value ∧ value ≤ maximum ∧ field.contains value := by
  obtain ⟨value, hvalue⟩ := Nat.exists_testBit_of_ne_zero field.nonempty
  exact ⟨value, (field.bounded value hvalue).1, (field.bounded value hvalue).2, CronField.contains_iff.mpr hvalue⟩

theorem CronField.contains_of_is_wildcard {minimum maximum value : Nat} {field : CronField minimum maximum}
    (h : field.is_wildcard) (hmin : minimum ≤ value) (hmax : value ≤ maximum) : field.contains value :=
  List.all_eq_true.mp h value ((CronField.mem_values (hmin.trans hmax)).mpr ⟨hmin, hmax⟩)

/-- The numbers of month and day that the conversion gives. -/
theorem civil_from_days_range (days : Int) :
    (civil_from_days days).2.1 ∈ CronField.values 1 12 ∧ (civil_from_days days).2.2 ∈ CronField.values 1 31 ∧
      (civil_from_days days).2.2 ≤ max_days (civil_from_days days).2.1 := by
  obtain ⟨year, day_of_year, hof⟩ := calendar.exists_dayOf (days + 719468)
  obtain ⟨hmonth, hmonth', hday, hday'⟩ := calendar.month_day_range hof.nonneg hof.le
  have hmax : max_days (calendar.month day_of_year).toNat ≤ 31 := by
    unfold max_days
    split <;> decide
  rw [civil_from_days_eq hof, to_u8_or_eq (n := (calendar.month day_of_year).toNat) (by omega) (by omega),
    to_u8_or_eq (n := (calendar.day day_of_year).toNat) (by omega) (by omega), CronField.mem_values (by decide),
    CronField.mem_values (by decide)]
  dsimp only
  omega

/-- A schedule with an occurrence asks for a day that the calendar has. -/
theorem CronSchedule.satisfiable_of_matchesDay {days : Int} (h : schedule.MatchesDay days) :
    schedule.Satisfiable := by
  obtain ⟨hmonth, hday, hle⟩ := civil_from_days_range days
  refine ⟨_, hmonth, h.1, ?_⟩
  rcases h.2 with ⟨hwildcard, _⟩ | ⟨_, hcontains⟩ | ⟨hweek, _⟩
  · exact .inr ⟨_, hday, hle, CronField.contains_of_is_wildcard hwildcard ((CronField.mem_values (by decide)).mp hday).1
      ((CronField.mem_values (by decide)).mp hday).2⟩
  · exact .inr ⟨_, hday, hle, hcontains⟩
  · exact .inl hweek

/-- A day that the schedule asks for comes within eight years. -/
theorem CronSchedule.Satisfiable.exists_matchesDay (h : schedule.Satisfiable) (days : Int) :
    ∃ days', days < days' ∧ days' ≤ days + 2922 ∧ schedule.MatchesDay days' := by
  obtain ⟨month, hmonth, hcontains, hday⟩ := h
  rw [CronField.mem_values (by decide)] at hmonth
  by_cases hweek : schedule.day_of_week.is_wildcard
  · obtain ⟨day, hrange, hle, hcontains'⟩ := hday.resolve_left (by simp [hweek])
    rw [CronField.mem_values (by decide)] at hrange
    obtain ⟨days', year, day_of_year, hafter, hwithin, hof, hm, hd⟩ :=
      calendar.exists_day hmonth ⟨hrange.1, hle⟩ (days + 719468)
    refine ⟨days' - 719468, by omega, by omega, ?_⟩
    rw [CronSchedule.MatchesDay, civil_from_days_eq (by rwa [Int.sub_add_cancel]), hm, hd,
      to_u8_or_eq rfl (by omega), to_u8_or_eq rfl (by omega)]
    refine ⟨hcontains, ?_⟩
    by_cases hmonthday : schedule.day_of_month.is_wildcard
    · exact .inl ⟨hmonthday, hweek⟩
    · exact .inr (.inl ⟨by simp [hmonthday], hcontains'⟩)
  · obtain ⟨weekday, _, hle, hcontains'⟩ := schedule.day_of_week.exists_contains
    obtain ⟨days', year, day_of_year, hafter, hwithin, hof, hm, hw⟩ :=
      @calendar.exists_weekday month hmonth weekday (by omega) (4 - 719468) (days + 719468)
    refine ⟨days' - 719468, by omega, by omega, ?_⟩
    have hday : to_u8_or 0 ((days' - 719468 + 4) % 7) = weekday := to_u8_or_eq (by omega) (by omega)
    rw [CronSchedule.MatchesDay, civil_from_days_eq (by rwa [Int.sub_add_cancel]), hm, to_u8_or_eq rfl (by omega), hday]
    exact ⟨hcontains, .inr (.inr ⟨by simp [hweek], hcontains'⟩)⟩

/-- A schedule that the calendar can satisfy has an occurrence within the bound of the search. -/
theorem CronSchedule.Satisfiable.exists_matches (h : schedule.Satisfiable)
    (current_minute : Int) : ∃ k : Nat, 1 ≤ k ∧ k < 1 + MAX_SEARCH_MINUTES ∧
      schedule.matches_minute (current_minute + k) := by
  obtain ⟨days, hafter, hwithin, hday⟩ := h.exists_matchesDay (current_minute / MINUTES_PER_DAY)
  obtain ⟨hour, _, hhour, hhour'⟩ := schedule.hour.exists_contains
  obtain ⟨minute, _, hmin, hmin'⟩ := schedule.minute.exists_contains
  obtain ⟨k, hk⟩ : ∃ k : Nat, current_minute + k = days * MINUTES_PER_DAY + (hour * 60 + minute : Nat) :=
    ⟨(days * MINUTES_PER_DAY + (hour * 60 + minute : Nat) - current_minute).toNat, by
      simp only [MINUTES_PER_DAY] at hafter ⊢
      omega⟩
  have hdivide : (current_minute + k) / MINUTES_PER_DAY = days := by
    rw [hk]
    simp only [MINUTES_PER_DAY]
    omega
  have hrest : (current_minute + k) % MINUTES_PER_DAY = (hour * 60 + minute : Nat) := by
    rw [hk]
    simp only [MINUTES_PER_DAY]
    omega
  refine ⟨k, ?_, ?_, ?_⟩
  · simp only [MINUTES_PER_DAY] at hafter hk
    omega
  · simp only [MINUTES_PER_DAY, MAX_SEARCH_MINUTES] at hwithin hk ⊢
    omega
  · rw [CronSchedule.matches_minute_iff, hdivide, hrest, to_u8_or_eq (n := minute) (by omega) (by omega),
      to_u8_or_eq (n := hour) (by omega) (by omega)]
    exact ⟨hmin', hhour', hday⟩

/-- The times whose next occurrence, within the bound of the search, is a timestamp. -/
def Supported (time : TimestampMicros) : Prop :=
  0 ≤ time.toInt ∧ time.toInt + (MAX_SEARCH_MINUTES + 1) * MICROS_PER_MINUTE < 2 ^ 63

/-- From a supported time, the search succeeds exactly for the schedules that the calendar can satisfy. -/
theorem CronSchedule.next_after_isOk_iff {time : TimestampMicros} (htime : Supported time) :
    (∃ next, schedule.next_after time = .ok next) ↔ schedule.Satisfiable := by
  constructor
  · rintro ⟨next, h⟩
    obtain ⟨k, _, _, hmatches, _⟩ := CronSchedule.search_eq_ok h
    exact CronSchedule.satisfiable_of_matchesDay ((schedule.matches_minute_iff _).mp hmatches).2.2
  · intro hsatisfiable
    generalize hminute : time.toInt / MICROS_PER_MINUTE = current_minute
    obtain ⟨k, hpos, hwithin, hmatches⟩ := hsatisfiable.exists_matches current_minute
    rw [CronSchedule.next_after, hminute]
    refine CronSchedule.search_isOk (k := k) hpos hwithin hmatches fun i hi hle => ?_
    obtain ⟨hnonneg, hbound⟩ := htime
    simp only [MAX_SEARCH_MINUTES, MICROS_PER_MINUTE] at hnonneg hbound hminute hwithin ⊢
    omega

/-- The calendar has no 30 February. -/
theorem february_30_never_comes :
    Supported 0 ∧ ¬∃ next, (CronSchedule.of_text "0 0 30 2 *" (by decide +kernel)).next_after 0 = .ok next :=
  ⟨⟨by decide, by decide⟩, fun h =>
    absurd ((CronSchedule.next_after_isOk_iff ⟨by decide, by decide⟩).mp h) (by decide +kernel)⟩

end runku.releases
