import Runku.Core.Target
import Runku.Value.Index

/-! `runku-data/src/model.rs` and `error.rs`. Revisions are machine words because digests hash their bytes. -/

namespace runku.data

open runku.core runku.value bytes

inductive StoreError
  | EmptyBatch
  | LimitExceeded
  | DuplicateMutation
  | InvalidRange
  | OperationIdReused
  | MutationConflict
  | NotFound
  | LeaseLost
  | OutboxLeaseLost
  | ProductionBackendUnsupported
  | Busy
  | SerializationFailure
  | ResultUncertain
  | Corruption
  | MigrationFailed
  | Unavailable
  | Internal
  deriving DecidableEq

/-- The check every outbox consumer name passes. -/
def OutboxConsumerName.validate (value : String) : Except StoreError Unit :=
  match as_bytes value with
  | [] => .error .InvalidRange
  | first :: rest =>
    if (as_bytes value).length > 64 || !is_ascii_alphanumeric first ||
        !rest.all fun byte => is_ascii_alphanumeric byte || byte ∈ [95, 45, 46] then
      .error .InvalidRange
    else .ok ()

/-- The name of one independent durable outbox consumer. -/
structure OutboxConsumerName where
  as_str : String
  valid : OutboxConsumerName.validate as_str = .ok ()
  deriving DecidableEq

instance : LinearOrder OutboxConsumerName :=
  LinearOrder.lift' OutboxConsumerName.as_str fun a b h => by cases a; cases b; simp_all

/-- The identity of a document in its Environment. -/
structure DocumentKey where
  table_id : TableId
  document_id : DocumentId
  deriving DecidableEq

instance : LinearOrder DocumentKey :=
  LinearOrder.lift' (fun key => toLex (key.table_id, key.document_id)) fun a b h => by
    cases a; cases b; simpa using h

/-- A position in the durable outbox: by commit, then by event. -/
structure OutboxCursor where
  commit_sequence : Nat
  event_id : OutboxEventId
  deriving DecidableEq

instance : LinearOrder OutboxCursor :=
  LinearOrder.lift' (fun cursor => toLex (cursor.commit_sequence, cursor.event_id)) fun a b h => by
    cases a; cases b; simpa using h

theorem OutboxCursor.lt_iff {a b : OutboxCursor} : a < b ↔ a.commit_sequence < b.commit_sequence ∨
      a.commit_sequence = b.commit_sequence ∧ a.event_id < b.event_id :=
  Prod.Lex.toLex_lt_toLex

structure OutboxEventRecord where
  event_id : OutboxEventId
  commit_sequence : Nat
  payload : CanonicalValue
  deriving DecidableEq

def OutboxEventRecord.cursor (event : OutboxEventRecord) : OutboxCursor :=
  ⟨event.commit_sequence, event.event_id⟩

structure ClaimedOutboxBatch where
  lease_generation : Nat
  acknowledged_through : Option OutboxCursor
  events : List OutboxEventRecord
  deriving DecidableEq

structure DocumentRecord where
  table_id : TableId
  document_id : DocumentId
  revision : UInt64
  commit_sequence : Nat
  created_at : TimestampMicros
  updated_at : TimestampMicros
  value : CanonicalValue
  deriving DecidableEq

structure IndexEntry where
  index_id : IndexId
  key : IndexKey
  table_id : TableId
  document_id : DocumentId
  document_revision : UInt64
  commit_sequence : Nat
  deriving DecidableEq

inductive KeyBound
  | Unbounded
  | Inclusive (value : List UInt8)
  | Exclusive (value : List UInt8)
  deriving DecidableEq

def KeyBound.bytes : KeyBound → Option (List UInt8)
  | .Unbounded => none
  | .Inclusive value | .Exclusive value => some value

def KeyBound.is_inclusive : KeyBound → Bool
  | .Inclusive _ => true
  | _ => false

structure IndexRange where
  lower : KeyBound
  upper : KeyBound
  deriving DecidableEq

/-- Rejects a limit out of bounds and a range that is empty or inverted by construction. -/
def IndexRange.validate (range : IndexRange) (limit : Nat) : Except StoreError Unit :=
  if limit = 0 ∨ limit > 1000 then .error .InvalidRange
  else
    match range.lower.bytes, range.upper.bytes with
    | some lower, some upper =>
      if lower > upper ∨ lower = upper ∧ (!range.lower.is_inclusive ∨ !range.upper.is_inclusive) then
        .error .InvalidRange
      else .ok ()
    | _, _ => .ok ()

/-- What a consistent read of one Environment offers. -/
structure ReadSnapshot where
  commit_sequence : Nat
  get_document : TableId → DocumentId → Except StoreError (Option DocumentRecord)
  scan_index : IndexId → IndexRange → Nat → Except StoreError (List IndexEntry)

inductive ScheduleStatus
  | Pending
  | Running
  | Succeeded
  | Failed
  | Cancelled
  deriving DecidableEq

def ScheduleStatus.is_terminal : ScheduleStatus → Bool
  | .Succeeded | .Failed | .Cancelled => true
  | .Pending | .Running => false

structure ScheduledInvocationRecord where
  id : ScheduledInvocationId
  pinned_code : PinnedCode
  function : FunctionName
  args : CanonicalValue
  execute_at : TimestampMicros
  status : ScheduleStatus
  attempts : Nat
  lease_generation : Nat
  lease_owner : Option WorkerId
  lease_until : Option TimestampMicros
  idempotency_key : Option String
  last_error_code : Option String
  commit_sequence : Nat
  deriving DecidableEq

/-- The transition that a lease owner asks for. -/
inductive ScheduleCompletion
  | Succeeded
  | Retry (execute_at : TimestampMicros) (error_code : String)
  | Failed (error_code : String)
  deriving DecidableEq

inductive ScheduleCancelResult
  | Cancelled
  | AlreadyCancelled
  | Running
  | Terminal
  deriving DecidableEq

structure DocumentRevisionResult where
  table_id : TableId
  document_id : DocumentId
  revision : Option UInt64
  deriving DecidableEq

structure CommitResult where
  commit_sequence : Nat
  documents : List DocumentRevisionResult
  replayed : Bool
  deriving DecidableEq

end runku.data
