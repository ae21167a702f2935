import Runku.DataSqlite.Outbox

/-!
`runku-data-sqlite/src/adapter.rs`: the claim, completion and cancellation of Scheduled Invocations. PostgreSQL claims by
one `UPDATE` over rows that it locks and skips when locked, which is not modelled.
-/

namespace runku.data_sqlite

open runku.core runku.data transaction bytes

def Environment.put_schedule (env : Environment) (id : ScheduledInvocationId) (row : ScheduledRow) : Environment :=
  { env with scheduled_invocations := env.scheduled_invocations.insert id row }

/-- The rows that a claim selects. A null lease is never expired. -/
def ScheduledRow.due (row : ScheduledRow) (now : Int64) : Bool :=
  row.execute_at_micros ≤ now && (row.status = .Pending ||
    row.status = .Running && row.lease_until_micros.any fun lease_until => lease_until ≤ now)

/-- `ORDER BY execute_at_micros, scheduled_id`, where identities are compared as text. -/
def due_order (a b : ScheduledInvocationId × ScheduledRow) : Prop :=
  a.2.execute_at_micros < b.2.execute_at_micros ∨
    a.2.execute_at_micros = b.2.execute_at_micros ∧ ¬b.1.to_string < a.1.to_string

instance : DecidableRel due_order := fun _ _ => inferInstanceAs (Decidable (_ ∨ _))

def Environment.due_ids (env : Environment) (now : Int64) (limit : Nat) : List ScheduledInvocationId :=
  (((env.scheduled_invocations.toList.filter fun row => row.2.due now).insertionSort due_order).take limit).map
    Prod.fst

/-- The row that a claim leaves. -/
def ScheduledRow.claim (row : ScheduledRow) (request : ClaimRequest) : Except StoreError ScheduledRow := do
  let attempts ← increment row.attempts
  let lease_generation ← increment row.lease_generation
  return { row with
    status := .Running
    attempts
    lease_generation
    lease_owner := some request.worker_id
    lease_until_micros := some request.lease_until
    updated_at_micros := request.now }

/-- Attempts are read back as a machine word of 32 bits. -/
def decode_schedule_row (id : ScheduledInvocationId) (row : ScheduledRow) :
    Except StoreError ScheduledInvocationRecord :=
  if row.attempts ≥ 2 ^ 32 then .error .Corruption
  else .ok {
    id
    pinned_code := row.pinned_code
    function := row.function_name
    args := row.args
    execute_at := row.execute_at_micros
    status := row.status
    attempts := row.attempts
    lease_generation := row.lease_generation
    lease_owner := row.lease_owner
    lease_until := row.lease_until_micros
    idempotency_key := row.idempotency_key
    last_error_code := row.last_error_code
    commit_sequence := row.commit_sequence }

/-- The turn of one row in a claim. -/
def claim_schedule (request : ClaimRequest) (id : ScheduledInvocationId) : Sql ScheduledInvocationRecord := do
  statement fun env =>
    match env.scheduled_invocations[id]? with
    | none => .ok ((), env)
    | some row => do
      let row ← row.claim request
      return ((), env.put_schedule id row)
  let row ← select fun env => env.scheduled_invocations[id]?
  match row with
  | none => lift (.error .Corruption)
  | some row => lift (decode_schedule_row id row)

def claim_due_body (request : ClaimRequest) : Sql (List ScheduledInvocationRecord) := do
  let ids ← select fun env => env.due_ids request.now request.limit
  collect (claim_schedule request) ids

def Environment.claim_due_scheduled (world : CommitWorld) (request : ClaimRequest) (env : Environment) :
    Except StoreError (List ScheduledInvocationRecord) × Environment :=
  if request.limit = 0 ∨ request.limit > 100 ∨ request.lease_until ≤ request.now then (.error .LimitExceeded, env)
  else transact (claim_due_body request) world.faults world.outcome env

def validate_error_code (error : String) : Except StoreError Unit :=
  if (as_bytes error).isEmpty ∨ (as_bytes error).length > 64 ∨
      !(as_bytes error).all fun byte => is_ascii_uppercase byte || is_ascii_digit byte || byte = 95 then
    .error .LimitExceeded
  else .ok ()

def validate_completion : ScheduleCompletion → Except StoreError Unit
  | .Succeeded => .ok ()
  | .Retry _ error_code | .Failed error_code => validate_error_code error_code

structure CompleteRequest where
  id : ScheduledInvocationId
  worker_id : WorkerId
  lease_generation : Nat
  completion : ScheduleCompletion

/-- The row that a completion leaves: done, or pending again. -/
def ScheduledRow.complete (row : ScheduledRow) (now : Int64) : ScheduleCompletion → ScheduledRow
  | .Succeeded => { row with
      status := .Succeeded
      lease_owner := none
      lease_until_micros := none
      last_error_code := none
      updated_at_micros := now }
  | .Retry execute_at error_code => { row with
      status := .Pending
      execute_at_micros := execute_at
      lease_owner := none
      lease_until_micros := none
      last_error_code := some error_code
      updated_at_micros := now }
  | .Failed error_code => { row with
      status := .Failed
      lease_owner := none
      lease_until_micros := none
      last_error_code := some error_code
      updated_at_micros := now }

/-- Whether a completion finds the row under the lease it names. -/
def CompleteRequest.Holds (request : CompleteRequest) (row : ScheduledRow) : Prop :=
  row.status = .Running ∧ row.lease_owner = some request.worker_id ∧
    row.lease_generation = request.lease_generation

instance (request : CompleteRequest) (row : ScheduledRow) : Decidable (request.Holds row) :=
  inferInstanceAs (Decidable (_ ∧ _ ∧ _))

/-- The three statements differ in what they set, not in the row they find. -/
def complete_schedule_update (request : CompleteRequest) (now : Int64) : Sql Nat :=
  statement fun env =>
    match env.scheduled_invocations[request.id]? with
    | none => .ok (0, env)
    | some row =>
      if request.Holds row then .ok (1, env.put_schedule request.id (row.complete now request.completion))
      else .ok (0, env)

def complete_scheduled_body (clock : Except StoreError Int64) (request : CompleteRequest) : Sql Unit := do
  lift (validate_completion request.completion)
  let _generation ← lift (positive_i64 request.lease_generation)
  let now ← lift clock
  let rows_affected ← complete_schedule_update request now
  lift (if rows_affected ≠ 1 then .error .LeaseLost else .ok ())

def Environment.complete_scheduled (world : CommitWorld) (request : CompleteRequest) (env : Environment) :
    Except StoreError Unit × Environment :=
  transact (complete_scheduled_body world.clock request) world.faults world.outcome env

def ScheduledRow.cancel (row : ScheduledRow) (now : Int64) : ScheduledRow :=
  { row with status := .Cancelled, updated_at_micros := now }

def cancel_result : ScheduleStatus → Except StoreError ScheduleCancelResult
  | .Pending => .error .Corruption
  | .Running => .ok .Running
  | .Cancelled => .ok .AlreadyCancelled
  | .Succeeded | .Failed => .ok .Terminal

def cancel_schedule_update (id : ScheduledInvocationId) (now : Int64) : Sql Nat :=
  statement fun env =>
    match env.scheduled_invocations[id]? with
    | none => .ok (0, env)
    | some row =>
      if row.status = .Pending then .ok (1, env.put_schedule id (row.cancel now)) else .ok (0, env)

def cancel_scheduled_body (clock : Except StoreError Int64) (id : ScheduledInvocationId) :
    Sql ScheduleCancelResult := do
  let now ← lift clock
  let rows_affected ← cancel_schedule_update id now
  if rows_affected = 1 then return .Cancelled
  else do
    let status ← select fun env => (env.scheduled_invocations[id]?).map ScheduledRow.status
    match status with
    | none => lift (.error .NotFound)
    | some status => lift (cancel_result status)

def Environment.cancel_scheduled (world : CommitWorld) (id : ScheduledInvocationId) (env : Environment) :
    Except StoreError ScheduleCancelResult × Environment :=
  transact (cancel_scheduled_body world.clock id) world.faults world.outcome env

section
variable {env env' : Environment}

theorem put_schedule_getElem? (env : Environment) (id key : ScheduledInvocationId) (row : ScheduledRow) :
    (env.put_schedule id row).scheduled_invocations[key]? =
      if id = key then some row else env.scheduled_invocations[key]? := by
  simp [Environment.put_schedule]

theorem due_ids_nodup (env : Environment) (now : Int64) (limit : Nat) : (env.due_ids now limit).Nodup :=
  ordered_map.nodup_map_fst_of_subperm <| (List.take_sublist _ _).subperm.trans <|
    (List.perm_insertionSort due_order _).subperm.trans List.filter_sublist.subperm

variable {id : ScheduledInvocationId}

/-- A claim selects rows that are due. -/
theorem mem_due_ids {now : Int64} {limit : Nat} (h : id ∈ env.due_ids now limit) :
    ∃ row, env.scheduled_invocations[id]? = some row ∧ row.due now := by
  obtain ⟨⟨key, row⟩, hmem, rfl⟩ := List.mem_map.mp h
  have hmem := List.mem_of_mem_take hmem
  rw [List.mem_insertionSort, List.mem_filter, Std.ExtTreeMap.mem_toList_iff_getElem?_eq_some] at hmem
  exact ⟨row, hmem⟩

variable {request : ClaimRequest}

theorem claim_eq_ok {row row' : ScheduledRow} (h : row.claim request = .ok row') :
    row' = { row with
      status := .Running
      attempts := row.attempts + 1
      lease_generation := row.lease_generation + 1
      lease_owner := some request.worker_id
      lease_until_micros := some request.lease_until
      updated_at_micros := request.now } := by
  obtain ⟨attempts, hattempts, h⟩ := fallible.bind_eq_ok_iff.mp h
  obtain ⟨generation, hgeneration, h⟩ := fallible.bind_eq_ok_iff.mp h
  rw [(increment_eq_ok_iff.mp hattempts).2, (increment_eq_ok_iff.mp hgeneration).2] at h
  exact (Except.ok.inj h).symm

/-- What a claim did to one row, and what it returned for it. -/
structure ClaimsRow (request : ClaimRequest) (env env' : Environment) (record : ScheduledInvocationRecord) : Prop where
  claimed : ∃ row row', env.scheduled_invocations[record.id]? = some row ∧ row.claim request = .ok row' ∧
    env'.scheduled_invocations[record.id]? = some row' ∧ record.lease_generation = row'.lease_generation

/-- A claim changes the row it claims. -/
theorem claim_schedule_runs {record : ScheduledInvocationRecord}
    (hpresent : id ∈ env.scheduled_invocations) (h : Runs (claim_schedule request id) env record env') :
    record.id = id ∧ ClaimsRow request env env' record ∧
      ∀ key, key ≠ id → env'.scheduled_invocations[key]? = env.scheduled_invocations[key]? := by
  obtain ⟨row, hrow⟩ := Option.isSome_iff_exists.mp (Std.ExtTreeMap.mem_iff_isSome_getElem?.mp hpresent)
  obtain ⟨_, env₁, hupdate, h⟩ := h.statement_bind
  rw [hrow] at hupdate
  obtain ⟨row', hclaim, hput⟩ := fallible.bind_eq_ok_iff.mp hupdate
  obtain ⟨_, rfl⟩ := Prod.mk.inj (Except.ok.inj hput)
  obtain ⟨found, env₂, hselect, h⟩ := h.bind
  obtain ⟨hfound, rfl⟩ := runs_select hselect
  rw [put_schedule_getElem?, if_pos rfl] at hfound
  subst hfound
  obtain ⟨hdecode, rfl⟩ := h.lift
  have hrecord : record.id = id ∧ record.lease_generation = row'.lease_generation := by
    unfold decode_schedule_row at hdecode
    split at hdecode
    · cases hdecode
    · cases hdecode
      exact ⟨rfl, rfl⟩
  refine ⟨hrecord.1, ⟨row, row', hrecord.1 ▸ hrow, hclaim, ?_, hrecord.2⟩, fun key hkey => ?_⟩
  · rw [put_schedule_getElem?, if_pos hrecord.1.symm]
  · rw [put_schedule_getElem?, if_neg (Ne.symm hkey)]

/-- A claim of distinct rows claims each of them as it was before. -/
theorem claim_schedules_runs {ids : List ScheduledInvocationId} (hnodup : ids.Nodup)
    (hpresent : ∀ id ∈ ids, id ∈ env.scheduled_invocations) {records : List ScheduledInvocationRecord}
    (h : Runs (collect (claim_schedule request) ids) env records env') :
    records.map ScheduledInvocationRecord.id = ids ∧ (∀ record ∈ records, ClaimsRow request env env' record) ∧
      ∀ key, key ∉ ids → env'.scheduled_invocations[key]? = env.scheduled_invocations[key]? := by
  induction ids generalizing env records with
  | nil =>
    obtain ⟨rfl, rfl⟩ := h.pure
    exact ⟨rfl, nofun, fun _ _ => rfl⟩
  | cons id ids ih =>
    obtain ⟨record, env₁, rest, hone, hrest, rfl⟩ := h.collect_cons
    obtain ⟨hfresh, hnodup⟩ := List.nodup_cons.mp hnodup
    obtain ⟨hid, ⟨row, row', hrow, hclaim, hrow', hgeneration⟩, hother⟩ :=
      claim_schedule_runs (hpresent id List.mem_cons_self) hone
    have hbefore (key : ScheduledInvocationId) (hkey : key ∈ ids) :
        env₁.scheduled_invocations[key]? = env.scheduled_invocations[key]? :=
      hother key fun heq => hfresh (heq ▸ hkey)
    obtain ⟨hids, hclaims, hothers⟩ := ih hnodup (fun key hkey => by
      rw [Std.ExtTreeMap.mem_iff_isSome_getElem?, hbefore key hkey, ← Std.ExtTreeMap.mem_iff_isSome_getElem?]
      exact hpresent key (List.mem_cons_of_mem id hkey)) hrest
    refine ⟨by rw [List.map_cons, hid, hids], fun claimed hclaimed => ?_, fun key hkey => ?_⟩
    · rcases List.mem_cons.mp hclaimed with rfl | hmem
      · exact ⟨row, row', hrow, hclaim, (hothers _ (hid.symm ▸ hfresh)).trans hrow', hgeneration⟩
      · obtain ⟨before, after, hbefore', hclaim', hafter, hgeneration'⟩ := (hclaims claimed hmem).claimed
        refine ⟨before, after, ?_, hclaim', hafter, hgeneration'⟩
        rw [← hbefore claimed.id (hids ▸ List.mem_map_of_mem hmem)]
        exact hbefore'
    · rw [List.mem_cons, not_or] at hkey
      rw [hothers key hkey.2, hother key hkey.1]

theorem claim_due_runs {records : List ScheduledInvocationRecord}
    (h : Runs (claim_due_body request) env records env') :
    records.map ScheduledInvocationRecord.id = env.due_ids request.now request.limit ∧
      (∀ record ∈ records, ClaimsRow request env env' record) ∧ ∀ key, key ∉ env.due_ids request.now request.limit →
        env'.scheduled_invocations[key]? = env.scheduled_invocations[key]? := by
  obtain ⟨ids, env₁, hselect, h⟩ := h.bind
  obtain ⟨rfl, rfl⟩ := runs_select hselect
  refine claim_schedules_runs (due_ids_nodup _ _ _) (fun id hid => ?_) h
  obtain ⟨row, hrow, _⟩ := mem_due_ids hid
  rw [Std.ExtTreeMap.mem_iff_isSome_getElem?, hrow]
  rfl

/-- All that a completion does. -/
theorem complete_scheduled_runs {clock : Except StoreError Int64} {request : CompleteRequest} {u : Unit}
    (h : Runs (complete_scheduled_body clock request) env u env') :
    ∃ now row, env.scheduled_invocations[request.id]? = some row ∧ request.Holds row ∧
      env' = env.put_schedule request.id (row.complete now request.completion) := by
  obtain ⟨_, _, h⟩ := h.lift_bind
  obtain ⟨_, _, h⟩ := h.lift_bind
  obtain ⟨now, _, h⟩ := h.lift_bind
  obtain ⟨rows_affected, env₁, hupdate, h⟩ := h.statement_bind
  obtain ⟨hone, rfl⟩ := h.lift
  have hrows : rows_affected = 1 := by
    by_contra hne
    rw [if_pos hne] at hone
    cases hone
  rw [hrows] at hupdate
  split at hupdate
  · cases hupdate
  · rename_i row hrow
    split at hupdate
    · rename_i hholds
      exact ⟨now, row, hrow, hholds, (Prod.mk.inj (Except.ok.inj hupdate)).2.symm⟩
    · cases hupdate

/-- A cancellation changes nothing, or cancels a row that is pending. -/
theorem cancel_scheduled_runs {clock : Except StoreError Int64}
    {result : ScheduleCancelResult} (h : Runs (cancel_scheduled_body clock id) env result env') :
    env' = env ∨ ∃ now row, env.scheduled_invocations[id]? = some row ∧ row.status = .Pending ∧
      env' = env.put_schedule id (row.cancel now) := by
  obtain ⟨now, _, h⟩ := h.lift_bind
  obtain ⟨rows_affected, env₁, hupdate, h⟩ := h.statement_bind
  have hafter : env' = env₁ := by
    split at h
    · exact h.pure.2
    · obtain ⟨status, env₂, hselect, hresult⟩ := h.bind
      obtain ⟨_, rfl⟩ := runs_select hselect
      split at hresult <;> exact hresult.lift.2
  subst hafter
  split at hupdate
  · exact .inl (Prod.mk.inj (Except.ok.inj hupdate)).2.symm
  · rename_i row hrow
    split at hupdate
    · rename_i hpending
      exact .inr ⟨now, row, hrow, hpending, (Prod.mk.inj (Except.ok.inj hupdate)).2.symm⟩
    · exact .inl (Prod.mk.inj (Except.ok.inj hupdate)).2.symm

end

end runku.data_sqlite
