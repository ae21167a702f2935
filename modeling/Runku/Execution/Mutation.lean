import Runku.Execution.Query
import Runku.Schema.Catalog

/-!
`runku-execution/src/mutation.rs`: a Mutation is any deterministic code against its session. Deadlines, cancellation and a
snapshot that fails to close make the execution fail and are left out.
-/

namespace runku.execution.mutation

open runku.core runku.value runku.data runku.runtime bytes
open Std (ExtTreeMap)

def MAX_DOCUMENT_READS : Nat := 10000
def MAX_DOCUMENT_WRITES : Nat := 1000
def MAX_SCHEDULES : Nat := 100
def MAX_SCHEDULE_DELAY_MICROS : Nat := 10 * 365 * 24 * 60 * 60 * 1000000

inductive MutationExecutionError
  | Runtime (error : RuntimeError)
  | Storage (error : StoreError)
  | Data (error : DataReadError)
  | Schema (error : schema.SchemaError)
  | Schedule (error : ScheduleError)
  deriving DecidableEq

inductive SessionFailure
  | Store (error : StoreError)
  | Data (error : DataReadError)
  | Schedule (error : ScheduleError)
  deriving DecidableEq

def SessionFailure.public : SessionFailure → MutationExecutionError
  | .Store error => .Storage error
  | .Data error => .Data error
  | .Schedule error => .Schedule error

structure MutationState where
  reads : ExtTreeMap DocumentKey (Option DataDocument)
  writes : ExtTreeMap DocumentKey DocumentMutation
  schedules : List ScheduledInvocationInsert
  schedule_keys : List String
  failure : Option SessionFailure
  closed : Bool
  deriving DecidableEq

def MutationState.new : MutationState := ⟨∅, ∅, [], [], none, false⟩

/-- What a session is created with. The snapshot is opened on the first read that needs it. -/
structure MutationSession where
  sha256 : List UInt8 → Sha256Digest
  begin_read : Except StoreError ReadSnapshot
  operation_id : OperationId
  schedule_base : TimestampMicros
  pinned_code : PinnedCode
  allowed_schedules : List FunctionName

def MutationState.latch (failure : SessionFailure) (state : MutationState) : MutationState :=
  { state with failure := some failure }

def encode_mutation_value : DocumentMutation → Except StoredValueError Unit
  | .Upsert _ _ _ value => (encode_stored_value value).map fun _ => ()
  | .Delete .. => .ok ()

/-- Buffers a write. A document is written at most once. -/
def buffer (mutation : DocumentMutation) (state : MutationState) : Except DataReadError Unit × MutationState :=
  if state.closed || state.failure.isSome then (.error .Unavailable, state)
  else if state.writes.size ≥ MAX_DOCUMENT_WRITES ∨ !(encode_mutation_value mutation).isOk then
    (.error .LimitExceeded, state.latch (.Data .LimitExceeded))
  else if mutation.key ∈ state.writes then (.error .InvalidRequest, state.latch (.Data .InvalidRequest))
  else (.ok (), { state with writes := state.writes.insert mutation.key mutation })

def insert (table_id : TableId) (document_id : DocumentId) (value : CanonicalValue) (state : MutationState) :
    Except DataReadError Unit × MutationState :=
  buffer (.Upsert table_id document_id .Absent value) state

def replace (table_id : TableId) (document_id : DocumentId) (expected_revision : UInt64) (value : CanonicalValue)
    (state : MutationState) : Except DataReadError Unit × MutationState :=
  if expected_revision = 0 ∨ expected_revision.toNat = 2 ^ 64 - 1 then
    (.error .InvalidRequest, state.latch (.Data .InvalidRequest))
  else buffer (.Upsert table_id document_id (.Exact expected_revision) value) state

def delete (table_id : TableId) (document_id : DocumentId) (expected_revision : UInt64) (state : MutationState) :
    Except DataReadError Unit × MutationState :=
  if expected_revision = 0 then (.error .InvalidRequest, state.latch (.Data .InvalidRequest))
  else buffer (.Delete table_id document_id expected_revision) state

inductive BufferedRead
  | NotBuffered
  | Missing
  | Document (document : DataDocument)
  deriving DecidableEq

/-- `checked_add(1)`. -/
def checked_succ (revision : UInt64) : Option UInt64 :=
  if revision.toNat + 1 < 2 ^ 64 then some (revision + 1) else none

/-- The revision an upsert will have. -/
def ExpectedRevision.next : ExpectedRevision → Option UInt64
  | .Absent => some 1
  | .Exact revision => checked_succ revision

section
variable (session : MutationSession)

/-- A document as the session's own write leaves it; commit sequence zero marks it as not committed. -/
def MutationSession.buffered_read (state : MutationState) (request : DataGetRequest) :
    Except DataReadError BufferedRead :=
  match state.writes[(⟨request.table_id, request.document_id⟩ : DocumentKey)]? with
  | none => .ok .NotBuffered
  | some (.Delete ..) => .ok .Missing
  | some (.Upsert _ _ expected value) =>
    match ExpectedRevision.next expected with
    | none => .error .LimitExceeded
    | some revision => .ok (.Document ⟨request.table_id, request.document_id, revision, 0, session.schedule_base,
        session.schedule_base, value⟩)

/-- Reads a document from the snapshot and remembers it. -/
def snapshot_read (snapshot : ReadSnapshot) (request : DataGetRequest) (state : MutationState) :
    Except DataReadError (Option DataDocument) × MutationState :=
  match snapshot.get_document request.table_id request.document_id with
  | .error error => (.error .Storage, state.latch (.Store error))
  | .ok result =>
    if result.any fun record =>
        !valid_record request.table_id request.document_id snapshot.commit_sequence record then
      (.error .Storage, state.latch (.Store .Corruption))
    else
      let key : DocumentKey := ⟨request.table_id, request.document_id⟩
      let observed := result.map data_document
      if key ∉ state.reads ∧ state.reads.size ≥ MAX_DOCUMENT_READS then
        (.error .LimitExceeded, state.latch (.Data .LimitExceeded))
      else
        let after := { state with reads := state.reads.insert key observed }
        if (state.reads[key]?).any fun prior => prior ≠ observed then
          (.error .Storage, after.latch (.Store .Corruption))
        else (.ok observed, after)

def MutationSession.get (request : DataGetRequest) (state : MutationState) :
    Except DataReadError (Option DataDocument) × MutationState :=
  if state.closed || state.failure.isSome then (.error .Unavailable, state)
  else
    match session.buffered_read state request with
    | .error error => (.error error, state)
    | .ok .Missing => (.ok none, state)
    | .ok (.Document document) => (.ok (some document), state)
    | .ok .NotBuffered =>
      match session.begin_read with
      | .error error => (.error .Storage, state.latch (.Store error))
      | .ok snapshot => snapshot_read snapshot request state

def schedule_time (base : TimestampMicros) (requested : ScheduleTime) : Except ScheduleError TimestampMicros :=
  match checked_add_micros base MAX_SCHEDULE_DELAY_MICROS with
  | none => .error .LimitExceeded
  | some maximum =>
    match requested with
    | .AfterMicros delay =>
      if delay.toNat > MAX_SCHEDULE_DELAY_MICROS then .error .LimitExceeded
      else
        match checked_add_micros base delay.toNat with
        | none => .error .LimitExceeded
        | some timestamp => .ok timestamp
    | .At timestamp => if timestamp ≤ maximum then .ok timestamp else .error .LimitExceeded

/-- An identity made of the first sixteen bytes of a digest. -/
def ulid_of_digest (digest : Sha256Digest) : Ulid := Ulid.from_nat (from_be_bytes (digest.toList.take 16))

def derived_schedule_id (sha256 : List UInt8 → Sha256Digest) (operation_id : OperationId) (ordinal : Nat) :
    ScheduledInvocationId :=
  ⟨ulid_of_digest (sha256
    (as_bytes "RUNKU_MUTATION_SCHEDULE_V1" ++ as_bytes operation_id.to_string ++ to_be_bytes 8 ordinal))⟩

/-- The key of a schedule is short and not used twice by one Mutation. -/
def valid_schedule_key (state : MutationState) (key : String) : Bool :=
  key ≠ "" && (as_bytes key).length ≤ 128 && key ∉ state.schedule_keys

def MutationSession.create (request : ScheduleRequest) (state : MutationState) :
    Except ScheduleError ScheduledInvocationId × MutationState :=
  if request.function ∉ session.allowed_schedules ∨ !(encode_stored_value request.arguments).isOk then
    (.error .InvalidRequest, state.latch (.Schedule .InvalidRequest))
  else
    match schedule_time session.schedule_base request.time with
    | .error error => (.error error, state.latch (.Schedule error))
    | .ok execute_at =>
      if state.closed || state.failure.isSome then (.error .Unavailable, state)
      else if state.schedules.length ≥ MAX_SCHEDULES then
        (.error .LimitExceeded, state.latch (.Schedule .LimitExceeded))
      else if request.idempotency_key.any fun key => !valid_schedule_key state key then
        (.error .InvalidRequest, state.latch (.Schedule .InvalidRequest))
      else
        let id := derived_schedule_id session.sha256 session.operation_id state.schedules.length
        (.ok id, { state with
          schedules := state.schedules ++
            [⟨id, session.pinned_code, request.function, request.arguments, execute_at, request.idempotency_key⟩]
          schedule_keys := state.schedule_keys ++ request.idempotency_key.toList })

inductive MutationOp
  | Get (request : DataGetRequest)
  | Scan (request : DataScanRequest)
  | Insert (table_id : TableId) (document_id : DocumentId) (value : CanonicalValue)
  | Replace (table_id : TableId) (document_id : DocumentId) (expected_revision : UInt64) (value : CanonicalValue)
  | Delete (table_id : TableId) (document_id : DocumentId) (expected_revision : UInt64)
  | Schedule (request : ScheduleRequest)
  deriving DecidableEq

def MutationOp.Answer : MutationOp → Type
  | .Get _ => Except DataReadError (Option DataDocument)
  | .Scan _ => Except DataReadError (List DataIndexEntry)
  | .Insert .. | .Replace .. | .Delete .. => Except DataReadError Unit
  | .Schedule _ => Except ScheduleError ScheduledInvocationId

/-- A Mutation with its arguments, nested Mutations included. -/
abbrev Mutation := Program MutationOp MutationOp.Answer (Except RuntimeError CanonicalValue)

/-- Serves one call. Mutations cannot scan. -/
def MutationSession.serve : (op : MutationOp) → MutationState → op.Answer × MutationState
  | .Get request, state => session.get request state
  | .Scan _, state => (.error .InvalidRequest, state)
  | .Insert table_id document_id value, state => insert table_id document_id value state
  | .Replace table_id document_id expected_revision value, state =>
    replace table_id document_id expected_revision value state
  | .Delete table_id document_id expected_revision, state => delete table_id document_id expected_revision state
  | .Schedule request, state => session.create request state

/-- Replaces and deletes need the value they overwrite. -/
def needs_old : DocumentMutation → Bool
  | .Upsert _ _ .Absent _ => false
  | .Upsert _ _ (.Exact _) _ | .Delete .. => true

/-- The written documents whose base was not read by the code. -/
def missing_bases (state : MutationState) : List DocumentKey :=
  (state.writes.toList.filter fun write => needs_old write.2 && write.1 ∉ state.reads).map Prod.fst

def load_base (snapshot : ReadSnapshot) (reads : ExtTreeMap DocumentKey (Option DataDocument)) (key : DocumentKey) :
    Except SessionFailure (ExtTreeMap DocumentKey (Option DataDocument)) :=
  match snapshot.get_document key.table_id key.document_id with
  | .error error => .error (.Store error)
  | .ok record =>
    if record.any fun record => !valid_record key.table_id key.document_id snapshot.commit_sequence record then
      .error (.Store .Corruption)
    else .ok (reads.insert key (record.map data_document))

def MutationSession.load_write_bases (state : MutationState) :
    Except SessionFailure (ExtTreeMap DocumentKey (Option DataDocument)) :=
  if state.failure.isSome || state.closed then .ok state.reads
  else if (missing_bases state).isEmpty then .ok state.reads
  else
    match session.begin_read with
    | .error error => .error (.Store error)
    | .ok snapshot => (missing_bases state).foldlM (load_base snapshot) state.reads

structure BufferedMutation where
  reads : List DocumentReadAssertion
  old_values : ExtTreeMap DocumentKey (Option CanonicalValue)
  writes : List DocumentMutation
  schedules : List ScheduledInvocationInsert
  deriving DecidableEq

def read_assertion (read : DocumentKey × Option DataDocument) : DocumentReadAssertion :=
  ⟨read.1.table_id, read.1.document_id, read.2.map DataDocument.revision⟩

def MutationSession.finish (state : MutationState) : Except SessionFailure BufferedMutation :=
  match state.failure, session.load_write_bases state with
  | some failure, _ => .error failure
  | none, .error failure => .error failure
  | none, .ok reads => .ok {
      reads := reads.toList.map read_assertion
      old_values := reads.map fun _ document => document.map DataDocument.value
      writes := state.writes.toList.map Prod.snd
      schedules := state.schedules }

end

end runku.execution.mutation
