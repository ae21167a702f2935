import Mathlib.Data.Nat.Bitwise
import Runku.Lib.Fallible
import Runku.Lib.Text
import Runku.Value.Canonical

/-! `runku-releases/src/cron.rs`. -/

namespace runku.releases

open bytes fallible

inductive ReleaseError
  | InvalidManifest
  | InvalidArtifact
  | Unsupported
  | LimitExceeded
  | DigestMismatch
  | DescriptorMismatch
  | NotFound
  | Corruption
  | ProductionBackendUnsupported
  | Busy
  | Unavailable
  | Internal
  | InvalidTransition
  | InvalidSnapshot
  | ReleaseNotFound
  | ReleaseNotServable
  | ReleaseRetired
  | ChannelNotFound
  | DefaultChannelMissing
  | EnvironmentServingPolicyMissing
  | EnvironmentServingPolicyNotReady
  | WorkspaceUnsupported
  | OperationIdReused
  | RepositoryConflict
  | ResultUncertain
  deriving DecidableEq

def MAX_CRON_NAME_BYTES : Nat := 64
def MAX_EXPRESSION_BYTES : Nat := 512
def MICROS_PER_MINUTE : Int := 60000000
def MINUTES_PER_DAY : Int := 1440
def MAX_SEARCH_MINUTES : Nat := 8 * 366 * 24 * 60

/-- The check every Cron name passes. -/
def CronName.validate (value : String) : Except ReleaseError Unit :=
  match as_bytes value with
  | [] => .error .InvalidManifest
  | first :: rest =>
    if (as_bytes value).length > MAX_CRON_NAME_BYTES || !is_ascii_lowercase first ||
        !rest.all fun byte => is_ascii_lowercase byte || is_ascii_digit byte || byte ∈ [45, 95, 46] then
      .error .InvalidManifest
    else .ok ()

/-- The stable logical name of one Cron definition. -/
structure CronName where
  as_str : String
  valid : CronName.validate as_str = .ok ()
  deriving DecidableEq

instance : LinearOrder CronName :=
  LinearOrder.lift' CronName.as_str fun a b h => by cases a; cases b; simp_all

def CronName.from_str (value : String) : Except ReleaseError CronName :=
  match h : CronName.validate value with
  | .ok () => .ok ⟨value, h⟩
  | .error error => .error error

theorem CronName.from_str_eq_ok_iff {value : String} {name : CronName} :
    CronName.from_str value = .ok name ↔ value = name.as_str := by
  unfold CronName.from_str
  constructor
  · intro h
    split at h
    · rw [← Except.ok.inj h]
    · cases h
  · rintro rfl
    split
    · rfl
    · rename_i error herror
      cases herror.symm.trans name.valid

/-- Unicode white space. -/
def is_whitespace (c : Char) : Bool :=
  9 ≤ c.toNat && c.toNat ≤ 13 || 0x2000 ≤ c.toNat && c.toNat ≤ 0x200a ||
    c.toNat ∈ [0x20, 0x85, 0xa0, 0x1680, 0x2028, 0x2029, 0x202f, 0x205f, 0x3000]

def trim (text : List Char) : List Char := (text.dropWhile is_whitespace).rdropWhile is_whitespace

/-- Splits at the first separator. -/
def split_once (separator : Char) : List Char → Option (List Char × List Char)
  | [] => none
  | c :: cs => if c = separator then some ([], cs) else (split_once separator cs).map fun p => (c :: p.1, p.2)

/-- One or two decimal digits without a leading zero. -/
def parse_number (value : List Char) : Except ReleaseError Nat :=
  if value = [] ∨ (as_bytes (String.ofList value)).length > 2 ∨
      (as_bytes (String.ofList value)).length > 1 ∧ value.head? = some '0' ∨ !value.all Char.isDigit then
    .error .InvalidManifest
  else .ok (value.foldl (fun number digit => 10 * number + (digit.toNat - 48)) 0)

/-- A nonempty set of values between the bounds of a field. -/
structure CronField (minimum maximum : Nat) where
  bits : Nat
  nonempty : bits ≠ 0
  bounded : ∀ value, bits.testBit value → minimum ≤ value ∧ value ≤ maximum
  deriving DecidableEq

/-- The loop that sets the bits of every `step`-th value from `start` to `stop`. -/
def set_bits (start stop step bits : Nat) : Nat :=
  (List.range' start ((stop - start) / step + 1) step).foldl (fun bits current => bits ||| 1 <<< current) bits

/-- The first and the last value of an item. -/
def CronField.parse_range (minimum maximum step : Nat) (base : List Char) : Except ReleaseError (Nat × Nat) :=
  if base = ['*'] then .ok (minimum, maximum)
  else
    match split_once '-' base with
    | some (start, stop) => do
      let start ← parse_number start
      let stop ← parse_number stop
      if start < minimum ∨ stop > maximum ∨ start ≥ stop then .error .InvalidManifest
      else .ok (start, stop)
    | none =>
      if step ≠ 1 then .error .InvalidManifest
      else do
        let number ← parse_number base
        if number < minimum ∨ number > maximum then .error .InvalidManifest else .ok (number, number)

/-- The step of an item, one by default. -/
def CronField.parse_step : List (List Char) → Except ReleaseError Nat
  | [] => .ok 1
  | step :: _ => parse_number step

/-- One item between commas. -/
def CronField.parse_item (minimum maximum bits : Nat) (item : List Char) : Except ReleaseError Nat :=
  match item.splitOn '/' with
  | [] => .error .InvalidManifest
  | base :: steps => do
    let step ← CronField.parse_step steps
    if steps.length > 1 ∨ step = 0 ∨ step > maximum - minimum + 1 then .error .InvalidManifest
    else do
      let (start, stop) ← CronField.parse_range minimum maximum step base
      return set_bits start stop step bits

/-- The loop over the items. -/
def CronField.parse_items (minimum maximum : Nat) : Nat → List (List Char) → Except ReleaseError Nat
  | bits, [] => .ok bits
  | bits, item :: items => do
    let bits ← CronField.parse_item minimum maximum bits item
    CronField.parse_items minimum maximum bits items

def CronField.parse_bits (minimum maximum : Nat) (value : List Char) : Except ReleaseError Nat :=
  if value = [] then .error .InvalidManifest
  else do
    let bits ← CronField.parse_items minimum maximum 0 (value.splitOn ',')
    if bits = 0 then .error .InvalidManifest else .ok bits

theorem testBit_one_shiftLeft (current value : Nat) : (1 <<< current).testBit value ↔ value = current := by
  rw [Nat.one_shiftLeft, Nat.testBit_two_pow, decide_eq_true_iff, eq_comm]

theorem testBit_foldl_or (values : List Nat) (bits value : Nat) :
    (values.foldl (fun bits current => bits ||| 1 <<< current) bits).testBit value ↔
      bits.testBit value ∨ value ∈ values := by
  induction values generalizing bits with
  | nil => simp
  | cons current values ih =>
    rw [List.foldl_cons, ih, Nat.testBit_or, Bool.or_eq_true, testBit_one_shiftLeft, List.mem_cons, or_assoc]

theorem testBit_set_bits (start stop step bits value : Nat) : (set_bits start stop step bits).testBit value ↔
    bits.testBit value ∨ value ∈ List.range' start ((stop - start) / step + 1) step :=
  testBit_foldl_or _ _ _

theorem CronField.parse_range_eq_ok {minimum maximum step : Nat} (hbounds : minimum ≤ maximum) {base : List Char}
    {start stop : Nat} (h : CronField.parse_range minimum maximum step base = .ok (start, stop)) :
    minimum ≤ start ∧ start ≤ stop ∧ stop ≤ maximum := by
  unfold CronField.parse_range at h
  split at h
  · cases h
    exact ⟨le_rfl, hbounds, le_rfl⟩
  · split at h
    · obtain ⟨start', _, h⟩ := bind_eq_ok_iff.mp h
      obtain ⟨stop', _, h⟩ := bind_eq_ok_iff.mp h
      obtain ⟨hrange, h⟩ := ite_error_eq_ok_iff.mp h
      cases h
      omega
    · obtain ⟨_, h⟩ := ite_error_eq_ok_iff.mp h
      obtain ⟨number, _, h⟩ := bind_eq_ok_iff.mp h
      obtain ⟨hrange, h⟩ := ite_error_eq_ok_iff.mp h
      cases h
      omega

variable {value : Nat}

/-- An item sets bits within the bounds only. -/
theorem CronField.parse_item_bounded {minimum maximum bits bits' : Nat} (hbounds : minimum ≤ maximum)
    {item : List Char} (h : CronField.parse_item minimum maximum bits item = .ok bits')
    (hvalue : bits'.testBit value) : bits.testBit value ∨ minimum ≤ value ∧ value ≤ maximum := by
  unfold CronField.parse_item at h
  split at h
  · cases h
  · obtain ⟨step, _, h⟩ := bind_eq_ok_iff.mp h
    obtain ⟨hstep, h⟩ := ite_error_eq_ok_iff.mp h
    obtain ⟨⟨start, stop⟩, hrange, h⟩ := bind_eq_ok_iff.mp h
    cases h
    obtain ⟨hstart, hle, hstop⟩ := CronField.parse_range_eq_ok hbounds hrange
    refine ((testBit_set_bits _ _ _ _ _).mp hvalue).imp_right fun hmem => ?_
    obtain ⟨i, hi, rfl⟩ := List.mem_range'.mp hmem
    -- The last value the loop reaches is at most `stop`.
    have hlast : step * i ≤ stop - start :=
      (Nat.mul_le_mul_left step (Nat.le_of_lt_succ hi)).trans (Nat.mul_div_le _ _)
    omega

theorem CronField.parse_items_bounded {minimum maximum bits bits' : Nat} (hbounds : minimum ≤ maximum)
    {items : List (List Char)} (h : CronField.parse_items minimum maximum bits items = .ok bits')
    (hvalue : bits'.testBit value) : bits.testBit value ∨ minimum ≤ value ∧ value ≤ maximum := by
  induction items generalizing bits with
  | nil =>
    cases h
    exact .inl hvalue
  | cons item items ih =>
    obtain ⟨bits₁, hitem, h⟩ := bind_eq_ok_iff.mp h
    rcases ih h with hold | hnew
    · exact CronField.parse_item_bounded hbounds hitem hold
    · exact .inr hnew

theorem CronField.parse_bits_eq_ok {minimum maximum bits : Nat} (hbounds : minimum ≤ maximum) {value : List Char}
    (h : CronField.parse_bits minimum maximum value = .ok bits) :
    bits ≠ 0 ∧ ∀ value, bits.testBit value → minimum ≤ value ∧ value ≤ maximum := by
  obtain ⟨_, h⟩ := ite_error_eq_ok_iff.mp h
  obtain ⟨bits', hitems, h⟩ := bind_eq_ok_iff.mp h
  obtain ⟨hne, h⟩ := ite_error_eq_ok_iff.mp h
  cases h
  refine ⟨hne, fun value hvalue => ?_⟩
  exact (CronField.parse_items_bounded hbounds hitems hvalue).resolve_left (by simp)

def CronField.parse (minimum maximum : Nat) (hbounds : minimum ≤ maximum) (value : List Char) :
    Except ReleaseError (CronField minimum maximum) :=
  match h : CronField.parse_bits minimum maximum value with
  | .ok bits => .ok ⟨bits, (CronField.parse_bits_eq_ok hbounds h).1, (CronField.parse_bits_eq_ok hbounds h).2⟩
  | .error error => .error error

section
variable {minimum maximum : Nat}

def CronField.contains (field : CronField minimum maximum) (value : Nat) : Bool :=
  field.bits &&& 1 <<< value ≠ 0

/-- The values between the bounds. -/
def CronField.values (minimum maximum : Nat) : List Nat := List.range' minimum (maximum + 1 - minimum)

def CronField.is_wildcard (field : CronField minimum maximum) : Bool :=
  (CronField.values minimum maximum).all field.contains

def CronField.canonical (field : CronField minimum maximum) : List Char :=
  if field.is_wildcard then ['*']
  else [','].intercalate (((CronField.values minimum maximum).filter field.contains).map (Nat.toDigits 10))

variable {value : Nat}

theorem CronField.contains_iff {field : CronField minimum maximum} :
    field.contains value ↔ field.bits.testBit value := by
  rw [CronField.contains, decide_eq_true_iff, Nat.one_shiftLeft, Nat.and_two_pow, ne_eq, mul_eq_zero, not_or]
  cases field.bits.testBit value <;> simp

theorem CronField.mem_values (hbounds : minimum ≤ maximum) :
    value ∈ CronField.values minimum maximum ↔ minimum ≤ value ∧ value ≤ maximum := by
  rw [CronField.values, List.mem_range'_1]
  omega

/-- The values a field contains are the bits that are set. -/
theorem CronField.mem_filter_values (hbounds : minimum ≤ maximum) (field : CronField minimum maximum) :
    value ∈ (CronField.values minimum maximum).filter field.contains ↔ field.bits.testBit value := by
  rw [List.mem_filter, CronField.mem_values hbounds, CronField.contains_iff]
  exact and_iff_right_of_imp (field.bounded value)

theorem CronField.filter_values_ne_nil (hbounds : minimum ≤ maximum) (field : CronField minimum maximum) :
    (CronField.values minimum maximum).filter field.contains ≠ [] := by
  obtain ⟨value, hvalue⟩ := Nat.exists_testBit_of_ne_zero field.nonempty
  exact List.ne_nil_of_mem ((field.mem_filter_values hbounds).mpr hvalue)

theorem CronField.ext_testBit {a b : CronField minimum maximum}
    (h : ∀ value, a.bits.testBit value ↔ b.bits.testBit value) : a = b := by
  have hbits : a.bits = b.bits := Nat.eq_of_testBit_eq fun value => Bool.eq_iff_iff.mpr (h value)
  cases a
  cases b
  simp_all

end

/-- The characters of a field's text. -/
def is_field_char (c : Char) : Bool := c.isDigit || c = ',' || c = '*'

/-- The decimal text of a value of a field. -/
theorem toDigits_value (hvalue : value < 60) :
    parse_number (Nat.toDigits 10 value) = .ok value ∧ (Nat.toDigits 10 value).all Char.isDigit ∧
      Nat.toDigits 10 value ≠ [] ∧ (Nat.toDigits 10 value).length ≤ 2 := by
  have h : ∀ value : Fin 60, parse_number (Nat.toDigits 10 value) = .ok value.val ∧
      (Nat.toDigits 10 value.val).all Char.isDigit ∧ Nat.toDigits 10 value.val ≠ [] ∧
      (Nat.toDigits 10 value.val).length ≤ 2 := by decide +kernel
  exact h ⟨value, hvalue⟩

variable {c : Char}

theorem notMem_toDigits (hvalue : value < 60) (hc : c.isDigit = false) : c ∉ Nat.toDigits 10 value := by
  intro hmem
  have hdigit := List.all_eq_true.mp (toDigits_value hvalue).2.1 c hmem
  rw [hc] at hdigit
  cases hdigit

theorem split_once_eq_none {separator : Char} {text : List Char} (h : separator ∉ text) :
    split_once separator text = none := by
  induction text with
  | nil => rfl
  | cons c text ih =>
    rw [List.mem_cons, not_or] at h
    rw [split_once, if_neg (Ne.symm h.1), ih h.2]
    rfl

section
variable {minimum maximum : Nat}

/-- A single value sets its bit. -/
theorem CronField.parse_item_toDigits {bits value : Nat} (hmin : minimum ≤ value) (hmax : value ≤ maximum)
    (hlt : maximum < 60) :
    CronField.parse_item minimum maximum bits (Nat.toDigits 10 value) = .ok (bits ||| 1 <<< value) := by
  have hvalue : value < 60 := by omega
  have hstar : Nat.toDigits 10 value ≠ ['*'] := fun heq =>
    notMem_toDigits hvalue (c := '*') (by decide) (heq ▸ List.mem_singleton_self _)
  have hrange : CronField.parse_range minimum maximum 1 (Nat.toDigits 10 value) = .ok (value, value) := by
    rw [CronField.parse_range, if_neg hstar, split_once_eq_none (notMem_toDigits hvalue (by decide))]
    simp only [ne_eq, not_true_eq_false, if_false, (toDigits_value hvalue).1, ok_bind]
    rw [if_neg (by omega)]
  have hstep : ¬(1 > maximum - minimum + 1) := by omega
  rw [CronField.parse_item, text.splitOn_eq_singleton (notMem_toDigits hvalue (by decide))]
  simp [CronField.parse_step, hstep, hrange, set_bits]

theorem CronField.parse_items_toDigits (hlt : maximum < 60) {values : List Nat}
    (hvalues : ∀ value ∈ values, minimum ≤ value ∧ value ≤ maximum) (bits : Nat) :
    CronField.parse_items minimum maximum bits (values.map (Nat.toDigits 10)) =
      .ok (values.foldl (fun bits current => bits ||| 1 <<< current) bits) := by
  induction values generalizing bits with
  | nil => rfl
  | cons value values ih =>
    rw [List.forall_mem_cons] at hvalues
    rw [List.map_cons, CronField.parse_items,
      CronField.parse_item_toDigits hvalues.1.1 hvalues.1.2 hlt, ok_bind, ih hvalues.2, List.foldl_cons]

/-- Whatever sets exactly the bits of a field is read as the field. -/
theorem CronField.parse_eq_ok (hbounds : minimum ≤ maximum) {field : CronField minimum maximum} {value : List Char}
    {bits : Nat} (hparse : CronField.parse_bits minimum maximum value = .ok bits)
    (hbits : ∀ value, bits.testBit value ↔ field.bits.testBit value) :
    CronField.parse minimum maximum hbounds value = .ok field := by
  unfold CronField.parse
  split
  · rename_i bits' hparse'
    cases hparse'.symm.trans hparse
    exact congrArg Except.ok (CronField.ext_testBit hbits)
  · rename_i error hparse'
    cases hparse'.symm.trans hparse

theorem CronField.parse_bits_star (hbounds : minimum ≤ maximum) :
    ∃ bits, CronField.parse_bits minimum maximum ['*'] = .ok bits ∧
      ∀ value, bits.testBit value ↔ minimum ≤ value ∧ value ≤ maximum := by
  have hrange : CronField.parse_range minimum maximum 1 ['*'] = .ok (minimum, maximum) := rfl
  have hstep : ¬(1 > maximum - minimum + 1) := by omega
  have hbits : ∀ value, (set_bits minimum maximum 1 0).testBit value ↔ minimum ≤ value ∧ value ≤ maximum := by
    intro value
    rw [testBit_set_bits, Nat.zero_testBit, List.mem_range'_1]
    simp only [Bool.false_eq_true, false_or, Nat.div_one]
    omega
  have hne : set_bits minimum maximum 1 0 ≠ 0 := by
    intro hzero
    have := (hbits minimum).mpr ⟨le_rfl, hbounds⟩
    rw [hzero, Nat.zero_testBit] at this
    cases this
  refine ⟨_, ?_, hbits⟩
  have hitem : CronField.parse_item minimum maximum 0 ['*'] = .ok (set_bits minimum maximum 1 0) := by
    rw [CronField.parse_item, text.splitOn_eq_singleton (by decide)]
    simp [CronField.parse_step, hstep, hrange]
  rw [CronField.parse_bits, if_neg (by simp), text.splitOn_eq_singleton (by decide), CronField.parse_items, hitem]
  simp [CronField.parse_items, hne]

/-- A field is read back from its canonical text. -/
theorem CronField.parse_canonical (hbounds : minimum ≤ maximum) (hlt : maximum < 60)
    (field : CronField minimum maximum) : CronField.parse minimum maximum hbounds field.canonical = .ok field := by
  unfold CronField.canonical
  split
  · rename_i hwildcard
    obtain ⟨bits, hparse, hbits⟩ := CronField.parse_bits_star hbounds
    refine CronField.parse_eq_ok hbounds hparse fun value => (hbits value).trans ⟨fun hvalue => ?_, field.bounded value⟩
    exact CronField.contains_iff.mp
      (List.all_eq_true.mp hwildcard value ((CronField.mem_values hbounds).mpr hvalue))
  · have hvalues : ∀ value ∈ (CronField.values minimum maximum).filter field.contains,
        minimum ≤ value ∧ value ≤ maximum := fun value hvalue =>
      (CronField.mem_values hbounds).mp (List.mem_filter.mp hvalue).1
    have hne := field.filter_values_ne_nil hbounds
    generalize hset : (CronField.values minimum maximum).filter field.contains = set at hvalues hne
    have hbits (value : Nat) : (set.foldl (fun bits current => bits ||| 1 <<< current) 0).testBit value ↔
        field.bits.testBit value := by
      rw [testBit_foldl_or, Nat.zero_testBit, ← hset, field.mem_filter_values hbounds]
      simp
    refine CronField.parse_eq_ok hbounds ?_ hbits
    have hsplit : ([','].intercalate (set.map (Nat.toDigits 10))).splitOn ',' = set.map (Nat.toDigits 10) := by
      refine List.splitOn_intercalate ',' (List.forall_mem_map.mpr fun value hvalue => ?_) (by simpa using hne)
      exact notMem_toDigits (by have := hvalues value hvalue; omega) (by decide)
    have htext : [','].intercalate (set.map (Nat.toDigits 10)) ≠ [] :=
      text.intercalate_ne_nil (by simpa using hne) (List.forall_mem_map.mpr fun value hvalue =>
        (toDigits_value (by have := hvalues value hvalue; omega)).2.2.1)
    have hzero : set.foldl (fun bits current => bits ||| 1 <<< current) 0 ≠ 0 := by
      obtain ⟨value, hvalue⟩ := Nat.exists_testBit_of_ne_zero field.nonempty
      intro hzero
      rw [← hbits, hzero, Nat.zero_testBit] at hvalue
      cases hvalue
    rw [CronField.parse_bits, if_neg htext, hsplit, CronField.parse_items_toDigits hlt hvalues, ok_bind,
      if_neg hzero]

/-- What the canonical text of a field is made of. -/
theorem CronField.mem_canonical (hlt : maximum < 60) (field : CronField minimum maximum) {c : Char}
    (h : c ∈ field.canonical) : is_field_char c := by
  unfold CronField.canonical at h
  split at h
  · rw [List.mem_singleton.mp h]
    decide
  · rcases text.mem_intercalate h with rfl | ⟨word, hword, hc⟩
    · decide
    · obtain ⟨value, hvalue, rfl⟩ := List.mem_map.mp hword
      have hvalue : value < 60 := by
        have := List.mem_range'_1.mp (List.mem_filter.mp hvalue).1
        omega
      simp [is_field_char, List.all_eq_true.mp (toDigits_value hvalue).2.1 c hc]

theorem CronField.canonical_ne_nil (hbounds : minimum ≤ maximum) (hlt : maximum < 60)
    (field : CronField minimum maximum) : field.canonical ≠ [] := by
  intro hnil
  have hparse := CronField.parse_canonical hbounds hlt field
  rw [hnil] at hparse
  unfold CronField.parse at hparse
  split at hparse
  · rename_i h
    cases h
  · cases hparse

theorem CronField.length_canonical_le (hbounds : minimum ≤ maximum) (hlt : maximum < 60)
    (field : CronField minimum maximum) : field.canonical.length ≤ (maximum + 1 - minimum) * 3 := by
  unfold CronField.canonical
  split
  · rw [List.length_singleton]
    omega
  · have hcount : ((CronField.values minimum maximum).filter field.contains).length ≤ maximum + 1 - minimum :=
      (List.length_filter_le _ _).trans_eq (by rw [CronField.values, List.length_range'])
    have hlen := @text.length_intercalate_le _ ','
      (((CronField.values minimum maximum).filter field.contains).map (Nat.toDigits 10)) 2
      (List.forall_mem_map.mpr fun value hvalue => (toDigits_value (by
        have := List.mem_range'_1.mp (List.mem_filter.mp hvalue).1
        omega)).2.2.2)
    rw [List.length_map] at hlen
    omega

end

/-- A five-field schedule of minute granularity, evaluated in UTC. Its canonical text is computed from its
fields. -/
structure CronSchedule where
  minute : CronField 0 59
  hour : CronField 0 23
  day_of_month : CronField 1 31
  month : CronField 1 12
  day_of_week : CronField 0 6
  deriving DecidableEq

/-- The canonical texts of the five fields. -/
def CronSchedule.fields (schedule : CronSchedule) : List (List Char) :=
  [schedule.minute.canonical, schedule.hour.canonical, schedule.day_of_month.canonical, schedule.month.canonical,
    schedule.day_of_week.canonical]

/-- The canonical expression. -/
def CronSchedule.as_str (schedule : CronSchedule) : String := String.ofList ([' '].intercalate schedule.fields)

def CronSchedule.from_str (value : String) : Except ReleaseError CronSchedule :=
  if (as_bytes value).length > MAX_EXPRESSION_BYTES ∨ trim value.toList ≠ value.toList ∨
      [' ', ' '] <:+: value.toList then .error .InvalidManifest
  else
    match value.toList.splitOn ' ' with
    | [minute, hour, day_of_month, month, day_of_week] => do
      let minute ← CronField.parse 0 59 (by decide) minute
      let hour ← CronField.parse 0 23 (by decide) hour
      let day_of_month ← CronField.parse 1 31 (by decide) day_of_month
      let month ← CronField.parse 1 12 (by decide) month
      let day_of_week ← CronField.parse 0 6 (by decide) day_of_week
      let schedule : CronSchedule := ⟨minute, hour, day_of_month, month, day_of_week⟩
      if (as_bytes schedule.as_str).length > MAX_EXPRESSION_BYTES then .error .LimitExceeded else .ok schedule
    | _ => .error .InvalidManifest

/-- The schedule of a valid expression. -/
def CronSchedule.of_text (value : String) (h : (CronSchedule.from_str value).toOption.isSome) : CronSchedule :=
  (CronSchedule.from_str value).toOption.get h

example : (CronSchedule.of_text "*/15 0-2 * 1,12 1-5" (by decide +kernel)).as_str =
    "0,15,30,45 0,1,2 * 1,12 1,2,3,4,5" := by decide +kernel

theorem CronSchedule.fields_spec (schedule : CronSchedule) {word : List Char} (h : word ∈ schedule.fields) :
    word ≠ [] ∧ ∀ c ∈ word, is_field_char c := by
  simp only [CronSchedule.fields, List.mem_cons, List.not_mem_nil, or_false] at h
  rcases h with rfl | rfl | rfl | rfl | rfl <;>
    exact ⟨CronField.canonical_ne_nil (by decide) (by decide) _, fun c hc =>
      CronField.mem_canonical (by decide) _ hc⟩

theorem is_field_char_ne_space (h : is_field_char c) : c ≠ ' ' := by
  rintro rfl
  revert h
  decide

/-- A character of the canonical expression. -/
theorem CronSchedule.mem_text (schedule : CronSchedule) (h : c ∈ [' '].intercalate schedule.fields) :
    c = ' ' ∨ is_field_char c := by
  refine (text.mem_intercalate h).imp_right ?_
  rintro ⟨word, hword, hc⟩
  exact (schedule.fields_spec hword).2 c hc

theorem is_field_char_range (h : is_field_char c) : 42 ≤ c.toNat ∧ c.toNat ≤ 57 := by
  simp only [is_field_char, Char.isDigit, Bool.or_eq_true, Bool.and_eq_true, decide_eq_true_eq] at h
  rcases h with (h | rfl) | rfl
  · have hlow : 48 ≤ c.toNat := UInt32.le_iff_toNat_le.mp h.1
    have hhigh : c.toNat ≤ 57 := UInt32.le_iff_toNat_le.mp h.2
    omega
  · decide
  · decide

theorem is_field_char_not_whitespace (h : is_field_char c) : is_whitespace c = false := by
  have hrange := is_field_char_range h
  simp only [is_whitespace, List.mem_cons, List.not_mem_nil, or_false, Bool.or_eq_false_iff, Bool.and_eq_false_iff,
    decide_eq_false_iff_not]
  omega

/-- Canonical text is ASCII. -/
theorem CronSchedule.utf8Size_of_mem_text (schedule : CronSchedule) (h : c ∈ schedule.as_str.toList) :
    c.utf8Size = 1 := by
  rw [CronSchedule.as_str, String.toList_ofList] at h
  have hle : c.toNat ≤ 127 := by
    rcases schedule.mem_text h with rfl | hc
    · decide
    · exact (is_field_char_range hc).2.trans (by decide)
  exact Char.utf8Size_eq_one_iff.mpr (UInt32.le_iff_toNat_le.mpr hle)

theorem trim_eq_self {first last : Char} {rest init : List Char} (hfirst : is_whitespace first = false)
    (hlast : is_whitespace last = false) (h : first :: rest = init ++ [last]) :
    trim (first :: rest) = first :: rest := by
  rw [trim, List.dropWhile_cons_of_neg (by simp [hfirst]), h, List.rdropWhile_concat_neg _ _ _ (by simp [hlast])]

theorem CronSchedule.trim_text (schedule : CronSchedule) :
    trim ([' '].intercalate schedule.fields) = [' '].intercalate schedule.fields := by
  have hminute := schedule.fields_spec (show schedule.minute.canonical ∈ _ by simp [CronSchedule.fields])
  have hday := schedule.fields_spec (show schedule.day_of_week.canonical ∈ _ by simp [CronSchedule.fields])
  obtain ⟨first, rest, hfirst⟩ := List.exists_cons_of_ne_nil hminute.1
  have hlast := List.dropLast_append_getLast hday.1
  generalize schedule.day_of_week.canonical.getLast hday.1 = last at hlast
  have hfield (c : Char) (hc : c ∈ schedule.minute.canonical ∨ c ∈ schedule.day_of_week.canonical) :
      is_whitespace c = false :=
    is_field_char_not_whitespace (hc.elim (hminute.2 c) (hday.2 c))
  have hbegin : [' '].intercalate schedule.fields = first :: (rest ++ ' ' ::
      [' '].intercalate [schedule.hour.canonical, schedule.day_of_month.canonical, schedule.month.canonical,
        schedule.day_of_week.canonical]) := by
    rw [CronSchedule.fields, List.intercalate_cons_cons, hfirst]
    simp
  have hend : [' '].intercalate schedule.fields = schedule.minute.canonical ++ [' '] ++
      (schedule.hour.canonical ++ [' '] ++ (schedule.day_of_month.canonical ++ [' '] ++
        (schedule.month.canonical ++ [' '] ++ schedule.day_of_week.canonical.dropLast))) ++ [last] := by
    simp only [CronSchedule.fields, List.intercalate_cons_cons, List.intercalate_singleton, List.append_assoc, hlast]
  rw [hbegin]
  refine trim_eq_self (hfield first (.inl (by rw [hfirst]; exact List.mem_cons_self)))
    (hfield last (.inr ?_)) (hbegin.symm.trans hend)
  rw [← hlast]
  exact List.mem_append_right _ (List.mem_singleton_self _)

theorem CronSchedule.length_text_le (schedule : CronSchedule) :
    (as_bytes schedule.as_str).length ≤ MAX_EXPRESSION_BYTES := by
  have hminute := CronField.length_canonical_le (by decide) (by decide) schedule.minute
  have hhour := CronField.length_canonical_le (by decide) (by decide) schedule.hour
  have hday := CronField.length_canonical_le (by decide) (by decide) schedule.day_of_month
  have hmonth := CronField.length_canonical_le (by decide) (by decide) schedule.month
  have hweek := CronField.length_canonical_le (by decide) (by decide) schedule.day_of_week
  rw [length_as_bytes_of_ascii fun c => schedule.utf8Size_of_mem_text, CronSchedule.as_str, String.toList_ofList,
    CronSchedule.fields]
  simp only [List.intercalate_cons_cons, List.intercalate_singleton, List.length_append, List.length_singleton,
    MAX_EXPRESSION_BYTES]
  omega

/-- A schedule is read back from its canonical text. -/
theorem CronSchedule.from_str_as_str (schedule : CronSchedule) :
    CronSchedule.from_str schedule.as_str = .ok schedule := by
  have htext : schedule.as_str.toList = [' '].intercalate schedule.fields := String.toList_ofList
  have hspec : ∀ word ∈ schedule.fields, word ≠ [] ∧ ' ' ∉ word := fun word hword =>
    ⟨(schedule.fields_spec hword).1, fun hmem => is_field_char_ne_space ((schedule.fields_spec hword).2 _ hmem) rfl⟩
  have hdouble := text.not_infix_intercalate (List.cons_ne_nil _ _) hspec
  have hsplit : schedule.as_str.toList.splitOn ' ' = schedule.fields := by
    rw [htext]
    exact List.splitOn_intercalate ' ' (fun word hword => (hspec word hword).2) (List.cons_ne_nil _ _)
  rw [CronSchedule.from_str, if_neg, hsplit]
  · dsimp only [CronSchedule.fields]
    rw [CronField.parse_canonical (by decide) (by decide), ok_bind,
      CronField.parse_canonical (by decide) (by decide), ok_bind,
      CronField.parse_canonical (by decide) (by decide), ok_bind,
      CronField.parse_canonical (by decide) (by decide), ok_bind,
      CronField.parse_canonical (by decide) (by decide), ok_bind]
    exact if_neg (not_lt.mpr schedule.length_text_le)
  · rw [htext, schedule.trim_text]
    have hlen := schedule.length_text_le
    simp only [ne_eq, not_true_eq_false, false_or, not_or, not_lt]
    exact ⟨hlen, hdouble⟩

end runku.releases
