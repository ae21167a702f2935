import Runku.DataSqlite.Environment
import Runku.Lib.Transaction

/-! `runku-data-sqlite/src/adapter.rs`: `apply_commit`, statement by statement. -/

namespace runku.data_sqlite

open runku.core runku.value runku.data transaction

/-- A transaction body of the adapter. -/
abbrev Sql (α : Type) := Body Environment StoreError α

/-- A statement that only reads. -/
def select {α : Type} (query : Environment → α) : Sql α :=
  statement fun env => .ok (query env, env)

/-- A write that has to affect exactly one row: `update` finds the row and changes it, or the commit is
refused because `rows_affected() != 1`. -/
def execute_one (update : Environment → Option Environment) : Sql Unit := do
  let rows_affected ← statement fun env =>
    match update env with
    | some env => .ok (1, env)
    | none => .ok (0, env)
  lift (if rows_affected ≠ 1 then .error .MutationConflict else .ok ())

/-- The journalled results of an operation, in the order of its mutations. -/
def Environment.operation_results (env : Environment) (operation_id : OperationId) : List DocumentRevisionResult :=
  (env.commit_document_results.toList.filter fun row => row.1.operation_id = operation_id).map Prod.snd

def load_operation (batch : CommitBatch) (digest : Sha256Digest) : Sql (Option CommitResult) := do
  let row ← select fun env => env.commit_operations[batch.operation_id]?
  match row with
  | none => return none
  | some row =>
    if row.batch_digest ≠ digest then lift (.error .OperationIdReused)
    else do
      let documents ← select fun env => env.operation_results batch.operation_id
      if documents.length ≠ batch.documents.length then lift (.error .Corruption)
      else return some ⟨row.commit_sequence, documents, true⟩

def validate_document_reads : List DocumentReadAssertion → Sql Unit
  | [] => return ()
  | assertion :: assertions => do
    let revision ← select fun env => env.documents[assertion.key]?.map fun row => row.revision.to_u64
    if revision ≠ assertion.observed_revision then lift (.error .MutationConflict)
    else validate_document_reads assertions

/-- Takes the next sequence, creating the row at one. -/
def next_sequence : Sql Nat :=
  statement fun env => do
    let sequence ← increment env.sequence
    return (sequence, { env with commit_sequence := some sequence })

/-- Journals the operation; its key was just seen to be free. -/
def insert_operation (operation_id : OperationId) (row : CommitOperationRow) : Sql Unit :=
  statement fun env =>
    if operation_id ∈ env.commit_operations then .error .Internal
    else .ok ((), { env with commit_operations := env.commit_operations.insert operation_id row })

/-- The next revision, checked in `u64` and again in `i64`. -/
def next_revision (expected : UInt64) : Except StoreError (UInt64 × PositiveI64) :=
  if expected.toNat + 1 < 2 ^ 64 then do
    let next ← positive_i64 (expected + 1).toNat
    return (expected + 1, next)
  else .error .LimitExceeded

/-- The row an insert creates. -/
def inserted_row (sequence : Nat) (now : Int64) (value : CanonicalValue) : DocumentRow :=
  ⟨⟨1, by decide, by decide⟩, sequence, now, now, value⟩

/-- The row an update leaves; the creation time stays. -/
def updated_row (row : DocumentRow) (revision : PositiveI64) (sequence : Nat) (now : Int64)
    (value : CanonicalValue) : DocumentRow :=
  { row with revision, commit_sequence := sequence, updated_at_micros := now, value }

def apply_document (sequence : Nat) (now : Int64) : DocumentMutation → Sql DocumentRevisionResult
  | .Upsert table_id document_id expected value => do
    let _encoded ← lift (encode_value value)
    match expected with
    | .Absent => do
      execute_one fun env =>
        match env.documents[(⟨table_id, document_id⟩ : DocumentKey)]? with
        | some _ => none
        | none => some { env with
            documents := env.documents.insert ⟨table_id, document_id⟩ (inserted_row sequence now value) }
      return ⟨table_id, document_id, some 1⟩
    | .Exact expected => do
      let expected_db ← lift (positive_i64 expected.toNat)
      let (next, next_db) ← lift (next_revision expected)
      execute_one fun env =>
        match env.documents[(⟨table_id, document_id⟩ : DocumentKey)]? with
        | some row =>
          if row.revision = expected_db then
            let row := updated_row row next_db sequence now value
            some { env with documents := env.documents.insert ⟨table_id, document_id⟩ row }
          else none
        | none => none
      return ⟨table_id, document_id, some next⟩
  | .Delete table_id document_id expected_revision => do
    let expected_db ← lift (positive_i64 expected_revision.toNat)
    execute_one fun env =>
      match env.documents[(⟨table_id, document_id⟩ : DocumentKey)]? with
      | some row =>
        if row.revision = expected_db then
          some { env with documents := env.documents.erase ⟨table_id, document_id⟩ }
        else none
      | none => none
    return ⟨table_id, document_id, none⟩

/-- Journals the result of one document mutation; its revision already passed `positive_i64`. -/
def insert_document_result (operation_id : OperationId) (ordinal : Nat) (result : DocumentRevisionResult) :
    Sql Unit :=
  statement fun env =>
    if (⟨operation_id, ordinal⟩ : DocumentResultKey) ∈ env.commit_document_results then .error .Internal
    else .ok ((), { env with
      commit_document_results := env.commit_document_results.insert ⟨operation_id, ordinal⟩ result })

/-- The loop over the document mutations; `ordinal` counts them. -/
def apply_documents (operation_id : OperationId) (sequence : Nat) (now : Int64) :
    Nat → List DocumentMutation → Sql (List DocumentRevisionResult)
  | _, [] => return []
  | ordinal, mutation :: mutations => do
    let result ← apply_document sequence now mutation
    insert_document_result operation_id ordinal result
    let results ← apply_documents operation_id sequence now (ordinal + 1) mutations
    return result :: results

def apply_index (sequence : Nat) : IndexMutation → Sql Unit
  | .Put index_id key table_id document_id document_revision => do
    let revision ← lift (positive_i64 document_revision.toNat)
    let exists_ ← select fun env =>
      env.documents[(⟨table_id, document_id⟩ : DocumentKey)]?.any fun row => row.revision = revision
    if exists_ then
      let row : IndexEntryRow := ⟨table_id, revision, sequence⟩
      statement fun env => .ok ((), { env with
        index_entries := env.index_entries.insert ⟨index_id, key.as_bytes, document_id⟩ row })
    else lift (.error .MutationConflict)
  | .Delete index_id key document_id =>
    statement fun env => .ok ((), { env with
      index_entries := env.index_entries.erase ⟨index_id, key.as_bytes, document_id⟩ })

def append_event (sequence : Nat) (now : Int64) (event : OutboxAppend) : Sql Unit := do
  let _payload ← lift (encode_value event.payload)
  execute_one fun env =>
    if event.event_id ∈ env.outbox then none
    else
      let row : OutboxRow := ⟨sequence, event.payload, now⟩
      some { env with outbox := env.outbox.insert event.event_id row }

/-- The row a new schedule starts with. -/
def scheduled_row (schedule : ScheduledInvocationInsert) (sequence : Nat) (now : Int64) : ScheduledRow where
  pinned_code := schedule.pinned_code
  function_name := schedule.function
  args := schedule.args
  execute_at_micros := schedule.execute_at
  status := .Pending
  attempts := 0
  lease_generation := 0
  lease_owner := none
  lease_until_micros := none
  idempotency_key := schedule.idempotency_key
  last_error_code := none
  commit_sequence := sequence
  created_at_micros := now
  updated_at_micros := now

/-- The primary key and the partial unique index on idempotency keys. -/
def Environment.schedule_conflicts (env : Environment) (schedule : ScheduledInvocationInsert) : Bool :=
  schedule.id ∈ env.scheduled_invocations ||
    schedule.idempotency_key.any fun key =>
      env.scheduled_invocations.toList.any fun row => row.2.idempotency_key = some key

def insert_schedule (sequence : Nat) (now : Int64) (schedule : ScheduledInvocationInsert) : Sql Unit := do
  let _args ← lift (encode_value schedule.args)
  execute_one fun env =>
    if env.schedule_conflicts schedule then none
    else some { env with scheduled_invocations :=
      env.scheduled_invocations.insert schedule.id (scheduled_row schedule sequence now) }

def apply_commit (batch : CommitBatch) (digest : Sha256Digest) (clock : Except StoreError Int64) :
    Sql CommitResult := do
  let replay ← load_operation batch digest
  match replay with
  | some result => return result
  | none => do
    validate_document_reads batch.reads
    let sequence ← next_sequence
    let now ← lift clock
    insert_operation batch.operation_id ⟨digest, sequence, now⟩
    let documents ← apply_documents batch.operation_id sequence now 0 batch.documents
    for_each (apply_index sequence) batch.indexes
    for_each (append_event sequence now) batch.outbox
    for_each (insert_schedule sequence now) batch.schedules
    return ⟨sequence, documents, false⟩

/-- What the world contributes to one commit call: the clock, backend failures, and the fate of the
final `COMMIT`. -/
structure CommitWorld where
  clock : Except StoreError Int64
  faults : List (Option StoreError)
  outcome : CommitOutcome StoreError

structure CommitCall where
  world : CommitWorld
  batch : CommitBatch

/-- A commit against the Environment of the batch's scope. -/
def Environment.commit (sha256 : List UInt8 → Sha256Digest) (world : CommitWorld) (batch : CommitBatch)
    (env : Environment) : Except StoreError CommitResult × Environment :=
  match batch.digest sha256 with
  | .error error => (.error error, env)
  | .ok digest => transact (apply_commit batch digest world.clock) world.faults world.outcome env

/-- `SqliteStore::commit`. -/
def SqliteStore.commit (sha256 : List UInt8 → Sha256Digest) (world : CommitWorld) (batch : CommitBatch)
    (store : SqliteStore) : Except StoreError CommitResult × SqliteStore :=
  let (result, env) := (store batch.scope).commit sha256 world batch
  (result, Function.update store batch.scope env)

end runku.data_sqlite
