import Runku.DataSqlite.Applied
import Runku.Lib.LeasedCursor

/-! `runku-data-sqlite/src/adapter.rs`: `claim_outbox` and `ack_outbox`. PostgreSQL runs the same statements. -/

namespace runku.data_sqlite

open runku.core runku.data transaction

/-- `commit_sequence > ? OR (commit_sequence = ? AND event_id > COALESCE(?, ''))`, where a consumer
without a cursor binds sequence zero and no event. -/
def after_cursor (cursor : Option OutboxCursor) (event : OutboxEventRecord) : Bool :=
  let sequence := (cursor.map OutboxCursor.commit_sequence).getD 0
  let event_id := (cursor.map fun cursor => cursor.event_id.to_string).getD ""
  event.commit_sequence > sequence ||
    event.commit_sequence = sequence && event_id < event.event_id.to_string

/-- `ORDER BY commit_sequence, event_id`. -/
def outbox_order (a b : OutboxEventRecord) : Prop :=
  a.commit_sequence < b.commit_sequence ∨
    a.commit_sequence = b.commit_sequence ∧ a.event_id.to_string ≤ b.event_id.to_string

instance : DecidableRel outbox_order := fun _ _ => inferInstanceAs (Decidable (_ ∨ _))

/-- All events of the Environment. -/
def Environment.outbox_events (env : Environment) : List OutboxEventRecord :=
  env.outbox.toList.map fun row => ⟨row.1, row.2.commit_sequence, row.2.payload⟩

/-- The query of a claim. -/
def Environment.events_after (env : Environment) (cursor : Option OutboxCursor) (limit : Nat) :
    List OutboxEventRecord :=
  ((env.outbox_events.filter (after_cursor cursor)).insertionSort outbox_order).take limit

/-- A consumer seen for the first time. -/
def OutboxConsumerRow.new (now : Int64) : OutboxConsumerRow := ⟨none, none, 0, none, now⟩

/-- `lease_owner IS NULL OR lease_owner = ? OR lease_until_micros <= ?`. -/
def OutboxConsumerRow.claimable (row : OutboxConsumerRow) (worker_id : WorkerId) (now : Int64) : Bool :=
  match row.lease with
  | none => true
  | some (lease_owner, lease_until) => lease_owner = worker_id || lease_until ≤ now

def Environment.put_consumer (env : Environment) (consumer : OutboxConsumerName) (row : OutboxConsumerRow) :
    Environment :=
  { env with outbox_consumers := env.outbox_consumers.insert consumer row }

/-- `ON CONFLICT DO NOTHING` keeps the sequence of an Environment that has one. -/
def Environment.insert_sequence (env : Environment) : Environment :=
  { env with commit_sequence := some env.sequence }

def Environment.insert_consumer (env : Environment) (consumer : OutboxConsumerName) (now : Int64) : Environment :=
  if consumer ∈ env.outbox_consumers then env else env.put_consumer consumer (.new now)

structure ClaimRequest where
  worker_id : WorkerId
  now : Int64
  lease_until : Int64
  limit : Nat

/-- Takes the lease and the next generation, or finds the consumer leased to another worker. -/
def take_lease (consumer : OutboxConsumerName) (request : ClaimRequest) : Sql (Option OutboxConsumerRow) :=
  statement fun env =>
    match env.outbox_consumers[consumer]? with
    | none => .ok (none, env)
    | some row =>
      if row.claimable request.worker_id request.now then do
        let lease_generation ← increment row.lease_generation
        let row := { row with
          lease := some (request.worker_id, request.lease_until)
          lease_generation
          updated_at_micros := request.now }
        return (some row, env.put_consumer consumer row)
      else return (none, env)

/-- Remembers the last event claimed; a claim without events gives the lease back. -/
def record_claim (consumer : OutboxConsumerName) (row : OutboxConsumerRow) : Option OutboxEventRecord → Sql Unit
  | some last => do
    let _sequence ← lift (positive_i64 last.commit_sequence)
    statement fun env => .ok ((), env.put_consumer consumer { row with claimed := some last.cursor })
  | none => statement fun env => .ok ((), env.put_consumer consumer { row with lease := none })

def claim_outbox_body (consumer : OutboxConsumerName) (request : ClaimRequest) : Sql ClaimedOutboxBatch := do
  statement fun env => .ok ((), env.insert_sequence)
  statement fun env => .ok ((), env.insert_consumer consumer request.now)
  let lease ← take_lease consumer request
  match lease with
  | none => lift (.error .Busy)
  | some row => do
    let events ← select fun env => env.events_after row.cursor request.limit
    record_claim consumer row events.getLast?
    return ⟨row.lease_generation, row.cursor, events⟩

/-- What the world contributes to a call against the outbox. -/
structure OutboxWorld where
  clock : Except StoreError Int64
  faults : List (Option StoreError)
  outcome : CommitOutcome StoreError

def Environment.claim_outbox (consumer : OutboxConsumerName) (world : OutboxWorld) (request : ClaimRequest)
    (env : Environment) : Except StoreError ClaimedOutboxBatch × Environment :=
  if request.limit = 0 ∨ request.limit > 1000 ∨ request.lease_until ≤ request.now then
    (.error .LimitExceeded, env)
  else transact (claim_outbox_body consumer request) world.faults world.outcome env

structure AckRequest where
  worker_id : WorkerId
  lease_generation : Nat
  through : OutboxCursor

/-- Moves the cursor if the row is still leased to this worker and generation and claimed exactly up
to `through`. -/
def release_lease (consumer : OutboxConsumerName) (request : AckRequest) (now : Int64) : Sql Nat :=
  statement fun env =>
    match env.outbox_consumers[consumer]? with
    | none => .ok (0, env)
    | some row =>
      if row.lease.map Prod.fst = some request.worker_id ∧ row.lease_generation = request.lease_generation ∧
          row.claimed = some request.through then
        .ok (1, env.put_consumer consumer
          ⟨some request.through, none, row.lease_generation, none, now⟩)
      else .ok (0, env)

def ack_outbox_body (consumer : OutboxConsumerName) (clock : Except StoreError Int64) (request : AckRequest) :
    Sql Unit := do
  let _sequence ← lift (positive_i64 request.through.commit_sequence)
  let now ← lift clock
  let _generation ← lift (positive_i64 request.lease_generation)
  let rows_affected ← release_lease consumer request now
  lift (if rows_affected ≠ 1 then .error .OutboxLeaseLost else .ok ())

def Environment.ack_outbox (consumer : OutboxConsumerName) (world : OutboxWorld) (request : AckRequest)
    (env : Environment) : Except StoreError Unit × Environment :=
  if request.lease_generation = 0 ∨ request.through.commit_sequence = 0 then (.error .OutboxLeaseLost, env)
  else transact (ack_outbox_body consumer world.clock request) world.faults world.outcome env

theorem outbox_order_iff {a b : OutboxEventRecord} : outbox_order a b ↔ a.cursor ≤ b.cursor := by
  rw [outbox_order, ← not_lt, ← not_lt, ResourceId.to_string_lt_to_string_iff, OutboxCursor.lt_iff]
  simp only [OutboxEventRecord.cursor, not_or, not_and]
  constructor
  · rintro (hlt | ⟨heq, hle⟩)
    · exact ⟨hlt.not_gt, fun heq => absurd heq hlt.ne'⟩
    · exact ⟨heq.not_gt, fun _ => hle⟩
  · rintro ⟨hle, htext⟩
    rcases (not_lt.mp hle).lt_or_eq with hlt | heq
    · exact .inl hlt
    · exact .inr ⟨heq, htext heq.symm⟩

instance : Std.Total outbox_order :=
  ⟨fun a b => by rw [outbox_order_iff, outbox_order_iff]; exact le_total _ _⟩

instance : IsTrans OutboxEventRecord outbox_order :=
  ⟨fun a b c => by rw [outbox_order_iff, outbox_order_iff, outbox_order_iff]; exact le_trans⟩

/-- The position of a cursor; a consumer without one stands before every event. -/
def position (cursor : Option OutboxCursor) : WithBot OutboxCursor := cursor.elim ⊥ WithBot.some

theorem after_cursor_iff {cursor : Option OutboxCursor} {event : OutboxEventRecord}
    (hpos : 0 < event.commit_sequence) : after_cursor cursor event ↔ position cursor < event.cursor := by
  cases cursor with
  | none => simp [after_cursor, position, hpos, WithBot.bot_lt_coe]
  | some cursor =>
    have hiff : position (some cursor) < event.cursor ↔ cursor < event.cursor := WithBot.coe_lt_coe
    rw [hiff, OutboxCursor.lt_iff]
    simp only [after_cursor, OutboxEventRecord.cursor, Option.map_some, Option.getD_some, gt_iff_lt,
      Bool.or_eq_true, Bool.and_eq_true, decide_eq_true_eq, ResourceId.to_string_lt_to_string_iff]
    rw [eq_comm (a := event.commit_sequence)]

theorem mem_outbox_events {env : Environment} {event : OutboxEventRecord} :
    event ∈ env.outbox_events ↔ ∃ row, env.outbox[event.event_id]? = some row ∧
      event = ⟨event.event_id, row.commit_sequence, row.payload⟩ := by
  simp only [Environment.outbox_events, List.mem_map, Prod.exists,
    Std.ExtTreeMap.mem_toList_iff_getElem?_eq_some]
  constructor
  · rintro ⟨event_id, row, hrow, rfl⟩
    exact ⟨row, hrow, rfl⟩
  · rintro ⟨row, hrow, heq⟩
    exact ⟨event.event_id, row, hrow, heq.symm⟩

/-- Distinct events of an Environment stand at distinct positions. -/
theorem outbox_events_pairwise (env : Environment) : env.outbox_events.Pairwise fun a b => a.cursor ≠ b.cursor := by
  rw [Environment.outbox_events, List.pairwise_map]
  exact Std.ExtTreeMap.distinct_keys_toList.imp fun hne heq =>
    hne (compare_eq_iff_eq.mpr (congrArg OutboxCursor.event_id heq))

/-- Any selection of events is listed strictly by position. -/
theorem sorted_events_pairwise (env : Environment) (p : OutboxEventRecord → Bool) :
    ((env.outbox_events.filter p).insertionSort outbox_order).Pairwise fun a b => a.cursor < b.cursor := by
  have hne := ((outbox_events_pairwise env).filter p).perm
    (List.perm_insertionSort outbox_order _).symm fun h => h.symm
  refine ((List.pairwise_insertionSort outbox_order _).and hne).imp fun h => ?_
  exact lt_of_le_of_ne (outbox_order_iff.mp h.1) h.2

section
variable {env : Environment} {cursor : Option OutboxCursor} {limit : Nat} {event : OutboxEventRecord}

theorem mem_events_after (hmem : event ∈ env.events_after cursor limit) :
    event ∈ env.outbox_events ∧ after_cursor cursor event := by
  have hsorted := List.mem_of_mem_take hmem
  rwa [List.mem_insertionSort, List.mem_filter] at hsorted

/-- What a limited query leaves out stands beyond everything it returns. -/
theorem mem_events_after_or_lt (hmem : event ∈ env.outbox_events) (hafter : after_cursor cursor event) :
    event ∈ env.events_after cursor limit ∨ ∀ e ∈ env.events_after cursor limit, e.cursor < event.cursor := by
  have hsplit := List.take_append_drop limit
    ((env.outbox_events.filter (after_cursor cursor)).insertionSort outbox_order)
  have hsorted := sorted_events_pairwise env (after_cursor cursor)
  rw [← hsplit, List.pairwise_append] at hsorted
  have hevent : event ∈ (env.outbox_events.filter (after_cursor cursor)).insertionSort outbox_order := by
    rw [List.mem_insertionSort, List.mem_filter]
    exact ⟨hmem, hafter⟩
  rw [← hsplit, List.mem_append] at hevent
  exact hevent.imp_right fun hdrop e he => hsorted.2.2 e he event hdrop

end

/-- The row a claim works on. -/
def Environment.consumer_row (env : Environment) (consumer : OutboxConsumerName) (now : Int64) : OutboxConsumerRow :=
  (env.outbox_consumers[consumer]?).getD (.new now)

/-- The row a claim leaves: with events it holds the lease up to the last of them, without it holds
none and keeps the claimed position as it was. -/
def OutboxConsumerRow.claim (row : OutboxConsumerRow) (request : ClaimRequest)
    (events : List OutboxEventRecord) : OutboxConsumerRow where
  cursor := row.cursor
  lease := events.getLast?.map fun _ => (request.worker_id, request.lease_until)
  lease_generation := row.lease_generation + 1
  claimed := (events.getLast?.map OutboxEventRecord.cursor).or row.claimed
  updated_at_micros := request.now

/-- What a successful claim did. -/
structure Claims (consumer : OutboxConsumerName) (request : ClaimRequest) (env : Environment)
    (batch : ClaimedOutboxBatch) (env' : Environment) : Prop where
  lease_generation : batch.lease_generation = (env.consumer_row consumer request.now).lease_generation + 1
  acknowledged_through : batch.acknowledged_through = (env.consumer_row consumer request.now).cursor
  events : batch.events = env.events_after (env.consumer_row consumer request.now).cursor request.limit
  env' : env' = env.insert_sequence.put_consumer consumer
    ((env.consumer_row consumer request.now).claim request batch.events)

theorem put_consumer_put_consumer (env : Environment) (consumer : OutboxConsumerName) (row row' : OutboxConsumerRow) :
    (env.put_consumer consumer row).put_consumer consumer row' = env.put_consumer consumer row' := by
  have hmap : (env.outbox_consumers.insert consumer row).insert consumer row' =
      env.outbox_consumers.insert consumer row' := by
    apply Std.ExtTreeMap.ext_getElem?
    intro name
    by_cases hname : consumer = name <;> simp [hname]
  simp only [Environment.put_consumer, hmap]

/-- Claiming works on the row of a known consumer and on a new row for any other. -/
theorem insert_consumer_spec (env : Environment) (consumer : OutboxConsumerName) (now : Int64) :
    (env.insert_consumer consumer now).outbox_consumers[consumer]? = some (env.consumer_row consumer now) ∧
    ∀ row, (env.insert_consumer consumer now).put_consumer consumer row = env.put_consumer consumer row := by
  unfold Environment.insert_consumer Environment.consumer_row
  split
  · rename_i hmem
    obtain ⟨row, hrow⟩ := Option.isSome_iff_exists.mp (Std.ExtTreeMap.mem_iff_isSome_getElem?.mp hmem)
    exact ⟨by rw [hrow]; rfl, fun _ => rfl⟩
  · rename_i hmem
    refine ⟨?_, put_consumer_put_consumer env consumer _⟩
    rw [Std.ExtTreeMap.getElem?_eq_none hmem]
    exact Std.ExtTreeMap.getElem?_insert_self

variable {consumer : OutboxConsumerName} {env env' : Environment}

theorem take_lease_runs {request : ClaimRequest}
    {result row : OutboxConsumerRow} (hrow : env.outbox_consumers[consumer]? = some row)
    (h : Runs (take_lease consumer request) env (some result) env') :
    row.lease_generation < I64_MAX ∧ env' = env.put_consumer consumer result ∧ result = { row with
      lease := some (request.worker_id, request.lease_until)
      lease_generation := row.lease_generation + 1
      updated_at_micros := request.now } := by
  have h := h.statement
  rw [hrow] at h
  dsimp only at h
  split at h
  · obtain ⟨generation, hgeneration, h⟩ := fallible.bind_eq_ok_iff.mp h
    obtain ⟨hlt, rfl⟩ := increment_eq_ok_iff.mp hgeneration
    obtain ⟨hresult, henv⟩ := Prod.mk.inj (Except.ok.inj h)
    rw [Option.some.injEq] at hresult
    exact ⟨hlt, by rw [← henv, hresult], hresult.symm⟩
  · cases h

theorem record_claim_runs {row : OutboxConsumerRow}
    {last : Option OutboxEventRecord} {u : Unit}
    (h : Runs (record_claim consumer row last) env u env') :
    env' = env.put_consumer consumer { row with
      lease := if last.isSome then row.lease else none
      claimed := (last.map OutboxEventRecord.cursor).or row.claimed } := by
  cases last with
  | some last =>
    obtain ⟨_, _, h⟩ := h.lift_bind
    exact (Prod.mk.inj (Except.ok.inj h.statement)).2.symm
  | none =>
    rw [record_claim] at h
    exact (Prod.mk.inj (Except.ok.inj h.statement)).2.symm

/-- All that a successful claim does. -/
theorem claim_outbox_runs {request : ClaimRequest}
    {batch : ClaimedOutboxBatch} (h : Runs (claim_outbox_body consumer request) env batch env') :
    Claims consumer request env batch env' := by
  obtain ⟨_, env₁, hsequence, h⟩ := h.statement_bind
  obtain ⟨_, env₂, hinsert, h⟩ := h.statement_bind
  obtain ⟨lease, env₃, hlease, h⟩ := h.bind
  replace hsequence := (Prod.mk.inj (Except.ok.inj hsequence)).2
  replace hinsert := (Prod.mk.inj (Except.ok.inj hinsert)).2
  obtain ⟨hrow, hput⟩ := insert_consumer_spec env₁ consumer request.now
  rw [hinsert] at hrow hput
  have hsame : env₁.consumer_row consumer request.now = env.consumer_row consumer request.now := by
    rw [← hsequence]
    rfl
  rw [hsame] at hrow
  cases lease with
  | none => cases h.lift.1
  | some row =>
    obtain ⟨_, henv₃, hlease⟩ := take_lease_runs hrow hlease
    obtain ⟨events, env₄, hselect, h⟩ := h.bind
    obtain ⟨hevents, heq⟩ := runs_select hselect
    rw [heq] at h
    obtain ⟨_, env₅, hrecord, h⟩ := h.bind
    obtain ⟨hbatch, henv⟩ := h.pure
    have houtbox : env₃.outbox = env.outbox := by
      rw [henv₃, ← hinsert, ← hsequence]
      unfold Environment.insert_consumer
      split <;> rfl
    have hevents : events = env.events_after row.cursor request.limit := by
      rw [hevents, Environment.events_after, Environment.outbox_events, houtbox]
      rfl
    rw [hbatch, henv]
    subst hlease
    refine ⟨rfl, rfl, hevents, ?_⟩
    rw [record_claim_runs hrecord, henv₃, put_consumer_put_consumer, hput, ← hsequence]
    congr 1
    cases hlast : events.getLast? <;> simp [OutboxConsumerRow.claim, hlast]

/-- All that a successful acknowledgement does. -/
theorem ack_outbox_runs {clock : Except StoreError Int64} {request : AckRequest} {u : Unit}
    (h : Runs (ack_outbox_body consumer clock request) env u env') :
    ∃ now row lease_until, env.outbox_consumers[consumer]? = some row ∧
      row.lease = some (request.worker_id, lease_until) ∧ row.lease_generation = request.lease_generation ∧
      row.claimed = some request.through ∧
      env' = env.put_consumer consumer ⟨some request.through, none, row.lease_generation, none, now⟩ := by
  obtain ⟨_, _, h⟩ := h.lift_bind
  obtain ⟨now, _, h⟩ := h.lift_bind
  obtain ⟨_, _, h⟩ := h.lift_bind
  obtain ⟨rows_affected, env₁, hrelease, h⟩ := h.statement_bind
  obtain ⟨hone, heq⟩ := h.lift
  have hrows : rows_affected = 1 := by
    by_contra hne
    rw [if_pos hne] at hone
    cases hone
  rw [hrows] at hrelease
  split at hrelease
  · cases hrelease
  · rename_i row hrow
    split at hrelease
    · rename_i hmatch
      obtain ⟨lease, hlease, howner⟩ := Option.map_eq_some_iff.mp hmatch.1
      refine ⟨now, row, lease.2, hrow, ?_, hmatch.2.1, hmatch.2.2, ?_⟩
      · rw [hlease, ← howner]
      · rw [heq]
        exact (Prod.mk.inj (Except.ok.inj hrelease)).2.symm
    · cases hrelease

end runku.data_sqlite
