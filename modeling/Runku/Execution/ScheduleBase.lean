import Runku.Execution.Executor

/-!
A Mutation schedules relative to the timestamp of its operation identity. Those of `runku-gateway/src/service.rs` and of
`runku-execution/src/action.rs` are made of a digest, and so is their timestamp.
-/

namespace runku.execution.mutation

open runku.core runku.value runku.data runku.runtime bytes

/-- Who runs a Mutation without an identity of its own. -/
inductive MutationSource
  | Scheduled (id : ScheduledInvocationId)
  | Nested (invocation : InvocationId) (ordinal : UInt64)
  deriving DecidableEq

/-- The bytes that the identity is a digest of. -/
def MutationSource.material : MutationSource → List UInt8
  | .Scheduled id => as_bytes "RUNKU_SCHEDULED_MUTATION_OPERATION_V1" ++ to_be_bytes 16 id.ulid.val.val
  | .Nested invocation ordinal => as_bytes "RUNKU_ACTION_NESTED_MUTATION_OPERATION_V1" ++
      as_bytes invocation.to_string ++ to_be_bytes 8 ordinal.toNat

def MutationSource.operation_id (sha256 : List UInt8 → Sha256Digest) (source : MutationSource) : OperationId :=
  ⟨ulid_of_digest (sha256 source.material)⟩

def scheduled_mutation_operation_id (sha256 : List UInt8 → Sha256Digest) (id : ScheduledInvocationId) : OperationId :=
  MutationSource.operation_id sha256 (.Scheduled id)

def nested_operation_id (sha256 : List UInt8 → Sha256Digest) (invocation : InvocationId) (ordinal : UInt64) :
    OperationId :=
  MutationSource.operation_id sha256 (.Nested invocation ordinal)

/-- The first six bytes of a digest, read as a number. -/
def digest_millis (digest : Sha256Digest) : Nat := from_be_bytes (digest.toList.take 6)

theorem timestamp_ms_ulid_of_digest (digest : Sha256Digest) :
    (ulid_of_digest digest).timestamp_ms = digest_millis digest := by
  have hlength : digest.toList.length = 32 := by simp
  have hlt : from_be_bytes (digest.toList.take 16) < 2 ^ 128 := by
    have := from_be_bytes_lt (digest.toList.take 16)
    rw [List.length_take, hlength] at this
    exact this
  have hsplit : digest.toList.take 16 = digest.toList.take 6 ++ (digest.toList.drop 6).take 10 := by
    rw [← List.take_add]
  have hrest : ((digest.toList.drop 6).take 10).length = 10 := by
    rw [List.length_take, List.length_drop, hlength]
    rfl
  have hdiv := from_be_bytes_append_div (digest.toList.take 6) ((digest.toList.drop 6).take 10)
  rw [← hsplit, hrest] at hdiv
  rw [Ulid.timestamp_ms, ulid_of_digest, Ulid.from_nat, digest_millis, ← hdiv]
  exact congrArg (· / 2 ^ 80) (Nat.mod_eq_of_lt hlt)

theorem MutationSource.timestamp_ms (sha256 : List UInt8 → Sha256Digest) (source : MutationSource) :
    (source.operation_id sha256).ulid.timestamp_ms = digest_millis (sha256 source.material) :=
  timestamp_ms_ulid_of_digest _

theorem timestamp_ms_lt (ulid : Ulid) : ulid.timestamp_ms < 2 ^ 48 := by
  have hlt := ulid.val.isLt
  unfold Ulid.timestamp_ms
  omega

/-- Forty-eight bits of milliseconds always make a timestamp. -/
theorem operation_time_micros_eq_ok {operation_id : OperationId} {base : TimestampMicros}
    (h : operation_time_micros operation_id = .ok base) : base.toInt = operation_id.ulid.timestamp_ms * 1000 := by
  have hmillis := timestamp_ms_lt operation_id.ulid
  have hmicros : operation_id.ulid.timestamp_ms * 1000 < 2 ^ 63 := by omega
  rw [operation_time_micros, if_pos hmicros] at h
  rw [← Except.ok.inj h, Int64.toInt_ofNat_of_lt hmicros]
  rfl

theorem checked_add_micros_eq {now : TimestampMicros} {delay : Nat} (hdelay : delay < 2 ^ 63)
    (hsum : now.toInt + delay < 2 ^ 63) : ∃ sum, checked_add_micros now delay = some sum ∧
      sum.toInt = now.toInt + delay := by
  have hle := Int64.le_toInt now
  exact ⟨_, if_pos ⟨hdelay, hsum⟩, Int64.toInt_ofInt_of_le (by omega) hsum⟩

section
variable {base : TimestampMicros}

theorem schedule_time_after (hbase : base.toInt < 2 ^ 48 * 1000) {delay : UInt64}
    (hdelay : delay.toNat ≤ MAX_SCHEDULE_DELAY_MICROS) :
    ∃ execute_at, schedule_time base (.AfterMicros delay) = .ok execute_at ∧
      execute_at.toInt = base.toInt + delay.toNat := by
  have hmax : MAX_SCHEDULE_DELAY_MICROS < 2 ^ 49 := by decide
  obtain ⟨maximum, hmaximum, _⟩ := @checked_add_micros_eq base MAX_SCHEDULE_DELAY_MICROS (by omega) (by omega)
  obtain ⟨execute_at, hexecute, hvalue⟩ := @checked_add_micros_eq base delay.toNat (by omega) (by omega)
  refine ⟨execute_at, ?_, hvalue⟩
  simp only [schedule_time, hmaximum, hexecute, if_neg (not_lt.mpr hdelay)]

theorem schedule_time_at (hbase : base.toInt < 2 ^ 48 * 1000) (timestamp execute_at : TimestampMicros) :
    schedule_time base (.At timestamp) = .ok execute_at ↔
      execute_at = timestamp ∧ timestamp.toInt ≤ base.toInt + MAX_SCHEDULE_DELAY_MICROS := by
  have hmax : MAX_SCHEDULE_DELAY_MICROS < 2 ^ 49 := by decide
  obtain ⟨maximum, hmaximum, hvalue⟩ := @checked_add_micros_eq base MAX_SCHEDULE_DELAY_MICROS (by omega) (by omega)
  simp only [schedule_time, hmaximum, Int64.le_iff_toInt_le, hvalue]
  split
  · rename_i hle
    simp [hle, eq_comm]
  · rename_i hle
    simp [hle]

end

/-- A request that a session accepts whatever its time. -/
structure MutationSession.Acceptable (session : MutationSession) (request : ScheduleRequest) (state : MutationState) :
    Prop where
  function : request.function ∈ session.allowed_schedules
  arguments : (encode_stored_value request.arguments).isOk
  open' : state.closed = false ∧ state.failure = none
  room : state.schedules.length < MAX_SCHEDULES
  key : ∀ key ∈ request.idempotency_key, valid_schedule_key state key

/-- What a schedule asks of a Mutation that executes at `now`: a delay counts from now at the latest,
and every time within the maximal delay from now can be named. -/
structure RelativeToNow (session : MutationSession) (now : TimestampMicros) : Prop where
  after : ∀ (request : ScheduleRequest) (delay : UInt64) (state state' : MutationState) (id : ScheduledInvocationId),
    request.time = .AfterMicros delay → delay.toNat ≤ MAX_SCHEDULE_DELAY_MICROS →
      session.create request state = (.ok id, state') → ∃ schedule, state'.schedules = state.schedules ++ [schedule] ∧
        schedule.execute_at.toInt ≤ now.toInt + delay.toNat
  at_time : ∀ (request : ScheduleRequest) (timestamp : TimestampMicros) (state : MutationState),
    request.time = .At timestamp → now ≤ timestamp → timestamp.toInt ≤ now.toInt + MAX_SCHEDULE_DELAY_MICROS →
      session.Acceptable request state → ∃ id state', session.create request state = (.ok id, state')

section
variable {session : MutationSession} {request : ScheduleRequest} {state : MutationState}

theorem create_of_acceptable (h : session.Acceptable request state) {execute_at : TimestampMicros}
    (htime : schedule_time session.schedule_base request.time = .ok execute_at) : ∃ id state' schedule,
      session.create request state = (.ok id, state') ∧ state'.schedules = state.schedules ++ [schedule] ∧
      schedule.execute_at = execute_at := by
  have hkey : ¬(request.idempotency_key.any fun key => !valid_schedule_key state key) = true := by
    intro hany
    obtain ⟨key, hmem, hinvalid⟩ := (Option.any_eq_true _ _).mp hany
    rw [h.key key hmem] at hinvalid
    cases hinvalid
  unfold MutationSession.create
  rw [if_neg (by simp [h.function, h.arguments])]
  simp only [htime]
  rw [if_neg (by simp [h.open'.1, h.open'.2]), if_neg (not_le.mpr h.room), if_neg hkey]
  exact ⟨_, _, _, rfl, rfl, rfl⟩

theorem create_eq_ok {id : ScheduledInvocationId} {state' : MutationState}
    (h : session.create request state = (.ok id, state')) : ∃ schedule execute_at,
      state'.schedules = state.schedules ++ [schedule] ∧ schedule.execute_at = execute_at ∧
      schedule_time session.schedule_base request.time = .ok execute_at := by
  unfold MutationSession.create at h
  split at h
  · cases h
  · split at h
    · cases h
    · rename_i execute_at htime
      split at h
      · cases h
      · split at h
        · cases h
        · split at h
          · cases h
          · obtain ⟨_, rfl⟩ := Prod.mk.inj h
            exact ⟨_, execute_at, rfl, rfl, htime⟩

/-- Nothing but the exact base keeps both promises. -/
theorem relativeToNow_iff_base (hbase : session.schedule_base.toInt < 2 ^ 48 * 1000) {function : FunctionName}
    (hfunction : function ∈ session.allowed_schedules) (now : TimestampMicros) :
    RelativeToNow session now ↔ session.schedule_base = now := by
  have hmax : MAX_SCHEDULE_DELAY_MICROS < 2 ^ 49 := by decide
  have hacceptable (time : ScheduleTime) : session.Acceptable ⟨function, .Null, time, none⟩ .new :=
    ⟨hfunction, show (encode_stored_value .Null).isOk by decide, ⟨rfl, rfl⟩, by decide, nofun⟩
  constructor
  · intro h
    have hle : session.schedule_base.toInt ≤ now.toInt := by
      obtain ⟨execute_at, htime, hvalue⟩ := @schedule_time_after _ hbase 0 (Nat.zero_le _)
      obtain ⟨id, state', schedule, hcreate, hschedules, hat⟩ := create_of_acceptable (hacceptable (.AfterMicros 0)) htime
      obtain ⟨schedule', hschedules', hbound⟩ := h.after _ 0 _ _ _ rfl (Nat.zero_le _) hcreate
      obtain rfl := List.singleton_inj.mp (List.append_cancel_left (hschedules.symm.trans hschedules'))
      rw [hat, hvalue] at hbound
      simpa using hbound
    -- The latest nameable time is the maximal delay from now, or the last timestamp there is.
    have haccepts (timestamp : TimestampMicros) (hnow : now.toInt ≤ timestamp.toInt)
        (hwithin : timestamp.toInt ≤ now.toInt + MAX_SCHEDULE_DELAY_MICROS) :
        timestamp.toInt ≤ session.schedule_base.toInt + MAX_SCHEDULE_DELAY_MICROS := by
      obtain ⟨id, state', hcreate⟩ := h.at_time ⟨function, .Null, .At timestamp, none⟩ timestamp .new rfl
        (Int64.le_iff_toInt_le.mpr hnow) hwithin (hacceptable _)
      obtain ⟨_, execute_at, _, _, htime⟩ := create_eq_ok hcreate
      exact ((schedule_time_at hbase timestamp execute_at).mp htime).2
    have hlower := Int64.le_toInt now
    have hge : now.toInt ≤ session.schedule_base.toInt := by
      by_cases hroom : now.toInt + MAX_SCHEDULE_DELAY_MICROS < 2 ^ 63
      · obtain ⟨timestamp, _, hvalue⟩ := @checked_add_micros_eq now MAX_SCHEDULE_DELAY_MICROS (by omega) hroom
        have := haccepts timestamp (by omega) (by omega)
        omega
      · have := haccepts now le_rfl (by omega)
        omega
    exact Int64.toInt_inj.mp (le_antisymm hle hge)
  · rintro rfl
    constructor
    · intro request delay state state' id htime hdelay hcreate
      obtain ⟨schedule, execute_at, hschedules, rfl, htime'⟩ := create_eq_ok hcreate
      rw [htime] at htime'
      obtain ⟨execute_at, hexecute, hvalue⟩ := schedule_time_after hbase hdelay
      rw [Except.ok.inj (hexecute.symm.trans htime')] at hvalue
      exact ⟨schedule, hschedules, le_of_eq hvalue⟩
    · intro request timestamp state htime _ hwithin hacceptable
      have htime' : schedule_time session.schedule_base request.time = .ok timestamp := by
        rw [htime, schedule_time_at hbase]
        exact ⟨rfl, hwithin⟩
      obtain ⟨id, state', _, hcreate, _⟩ := create_of_acceptable hacceptable htime'
      exact ⟨id, state', hcreate⟩

end

theorem prepare_eq_ok {executor : MutationExecutor} {request : InvocationRequest} {operation_id : OperationId}
    {schedule_base : TimestampMicros} (h : executor.prepare request operation_id = .ok schedule_base) :
    operation_time_micros operation_id = .ok schedule_base := by
  unfold MutationExecutor.prepare at h
  split at h
  · cases h
  · obtain ⟨base, hbase, h⟩ := fallible.bind_eq_ok_iff.mp h
    split at h
    · cases h
    · split at h
      · cases h
      · rw [hbase, ← Except.ok.inj h]

/-- The schedules of a Mutation under a derived identity are relative to the time it executes at exactly
if the digest happens to start with that time. -/
theorem derived_relativeToNow_iff {executor : MutationExecutor} {request : InvocationRequest} (source : MutationSource)
    {schedule_base : TimestampMicros} (begin_read : Except StoreError ReadSnapshot)
    (hprepare : executor.prepare request (source.operation_id executor.sha256) = .ok schedule_base)
    (hfunction : allowed_schedules request.functions ≠ []) (now : TimestampMicros) :
    RelativeToNow (executor.session request (source.operation_id executor.sha256) schedule_base begin_read) now ↔
      (digest_millis (executor.sha256 source.material) * 1000 : Int) = now.toInt := by
  have hvalue := operation_time_micros_eq_ok (prepare_eq_ok hprepare)
  have hmillis := timestamp_ms_lt (source.operation_id executor.sha256).ulid
  rw [source.timestamp_ms] at hvalue hmillis
  have hbase : schedule_base.toInt < 2 ^ 48 * 1000 := by omega
  obtain ⟨function, hfunction⟩ := List.exists_mem_of_ne_nil _ hfunction
  rw [← hvalue, Int64.toInt_inj]
  exact @relativeToNow_iff_base (executor.session request (source.operation_id executor.sha256) schedule_base begin_read)
    hbase function hfunction now

/-- The session of a Scheduled Invocation, with the base that its identity gives it. -/
def scheduled_session : MutationSession :=
  MutationExecutor.session ⟨checksum, none⟩ (mutation_request (.done (.ok .Null)))
    (MutationSource.operation_id checksum (.Scheduled ⟨.from_nat 1⟩)) 83890581294156000 (.error .Unavailable)

theorem derived_relativeToNow_iff_scheduled : RelativeToNow scheduled_session 83890581294156000 :=
  (@derived_relativeToNow_iff ⟨checksum, none⟩ (mutation_request (.done (.ok .Null))) (.Scheduled ⟨.from_nat 1⟩)
    83890581294156000 (.error .Unavailable) (by decide +kernel) (by decide +kernel) 83890581294156000).mpr
    (by decide +kernel)

/-- Executed in the year 2023, a delay of this session ends centuries later. -/
theorem scheduled_session_not_relativeToNow :
    MutationExecutor.prepare ⟨checksum, none⟩ (mutation_request (.done (.ok .Null)))
        (MutationSource.operation_id checksum (.Scheduled ⟨.from_nat 1⟩)) = .ok scheduled_session.schedule_base ∧
      ¬RelativeToNow scheduled_session 1700000000000000 := by
  refine ⟨by decide +kernel, fun h => ?_⟩
  rw [@relativeToNow_iff_base scheduled_session (by decide +kernel) ⟨"write", by decide⟩ (by decide +kernel)] at h
  exact absurd h (by decide +kernel)

end runku.execution.mutation
