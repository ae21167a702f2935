import Runku.Data.Model
import Runku.Lib.Program
import Runku.Runtime.Data

/-!
`runku-execution/src/query.rs`: a Query is any deterministic code against its session. Deadlines and cancellation make the
execution fail and are left out.
-/

namespace runku.execution

open runku.core runku.value runku.data runku.runtime

def MAX_DEPENDENCIES : Nat := 10000
def MAX_SCAN_ROWS : Nat := 10000

inductive DependencyBound
  | Unbounded
  | Inclusive (value : List UInt8)
  | Exclusive (value : List UInt8)
  deriving DecidableEq

inductive ReadDependency
  | Point (table_id : TableId) (document_id : DocumentId) (observed_revision : Option UInt64)
      (snapshot_sequence : Nat)
  | Range (index_id : IndexId) (lower upper : DependencyBound) (snapshot_sequence : Nat)
  deriving DecidableEq

structure QueryOutcome where
  value : CanonicalValue
  snapshot_sequence : Option Nat
  dependencies : List ReadDependency
  deriving DecidableEq

inductive ExecutionError
  | Runtime (error : RuntimeError)
  | Storage (error : StoreError)
  | Data (error : DataReadError)
  deriving DecidableEq

inductive SessionFailure
  | Store (error : StoreError)
  | Data (error : DataReadError)
  deriving DecidableEq

def SessionFailure.into_execution : SessionFailure → ExecutionError
  | .Store error => .Storage error
  | .Data error => .Data error

/-- What a session has seen so far. The dependencies are a set; they are kept in the order of their
first read. -/
structure SessionState where
  snapshot_sequence : Option Nat
  dependencies : List ReadDependency
  scan_rows : Nat
  failure : Option SessionFailure
  deriving DecidableEq

def SessionState.new : SessionState := ⟨none, [], 0, none⟩

/-- The checks on a record that storage returned for a point read. -/
def valid_record (table_id : TableId) (document_id : DocumentId) (sequence : Nat) (record : DocumentRecord) : Bool :=
  record.table_id = table_id && record.document_id = document_id && record.revision ≠ 0 &&
    record.commit_sequence ≤ sequence && record.created_at ≤ record.updated_at

def data_document (record : DocumentRecord) : DataDocument :=
  ⟨record.table_id, record.document_id, record.revision, record.commit_sequence, record.created_at,
    record.updated_at, record.value⟩

def data_index_entry (entry : IndexEntry) : DataIndexEntry :=
  ⟨entry.index_id, entry.key.as_bytes, entry.table_id, entry.document_id, entry.document_revision,
    entry.commit_sequence⟩

def latch (failure : SessionFailure) (state : SessionState) : SessionState :=
  { state with failure := some failure }

/-- Opens the snapshot on the first read. -/
def ensure_snapshot (snapshot : ReadSnapshot) (state : SessionState) : SessionState :=
  { state with snapshot_sequence := some (state.snapshot_sequence.getD snapshot.commit_sequence) }

/-- Adds a dependency to the set, unless the set is full. -/
def record_dependency (dependency : ReadDependency) (state : SessionState) : Except DataReadError SessionState :=
  if dependency ∈ state.dependencies then .ok state
  else if state.dependencies.length ≥ MAX_DEPENDENCIES then .error .LimitExceeded
  else .ok { state with dependencies := state.dependencies ++ [dependency] }

def get_inner (snapshot : ReadSnapshot) (request : DataGetRequest) (state : SessionState) :
    Except DataReadError (Option DataDocument) × SessionState :=
  if state.failure.isSome then (.error .Unavailable, state)
  else
    let state := ensure_snapshot snapshot state
    let sequence := state.snapshot_sequence.getD snapshot.commit_sequence
    match snapshot.get_document request.table_id request.document_id with
    | .error error => (.error .Storage, latch (.Store error) state)
    | .ok document =>
      if document.any fun record => !valid_record request.table_id request.document_id sequence record then
        (.error .Storage, latch (.Store .Corruption) state)
      else
        let dependency :=
          .Point request.table_id request.document_id (document.map DocumentRecord.revision) sequence
        match record_dependency dependency state with
        | .error error => (.error error, latch (.Data error) state)
        | .ok state => (.ok (document.map data_document), state)

def convert_bound : Option DataKeyBound → Except DataReadError (KeyBound × DependencyBound)
  | none => .ok (.Unbounded, .Unbounded)
  | some value =>
    match IndexKey.decode value.key with
    | .error _ => .error .InvalidRequest
    | .ok canonical =>
      match value.kind with
      | .Inclusive => .ok (.Inclusive canonical.as_bytes, .Inclusive canonical.as_bytes)
      | .Exclusive => .ok (.Exclusive canonical.as_bytes, .Exclusive canonical.as_bytes)

def key_in_range (key : List UInt8) (range : IndexRange) : Bool :=
  let lower := match range.lower with
    | .Unbounded => true
    | .Inclusive value => decide (key ≥ value)
    | .Exclusive value => decide (key > value)
  let upper := match range.upper with
    | .Unbounded => true
    | .Inclusive value => decide (key ≤ value)
    | .Exclusive value => decide (key < value)
  lower && upper

/-- The checks on the entries after `previous`: of the index and the range, and strictly ascending. -/
def valid_entries_after (index_id : IndexId) (range : IndexRange) (snapshot_sequence : Nat) :
    Option (List UInt8 × DocumentId) → List IndexEntry → Bool
  | _, [] => true
  | previous, entry :: entries =>
    let key := entry.key.as_bytes
    entry.index_id = index_id && entry.document_revision ≠ 0 && entry.commit_sequence ≤ snapshot_sequence &&
      key_in_range key range &&
      !(previous.any fun value => value.1 > key || value.1 = key && value.2 ≥ entry.document_id) &&
      valid_entries_after index_id range snapshot_sequence (some (key, entry.document_id)) entries

def valid_entries (entries : List IndexEntry) (index_id : IndexId) (range : IndexRange) (limit : Nat)
    (snapshot_sequence : Nat) : Bool :=
  entries.length ≤ limit && valid_entries_after index_id range snapshot_sequence none entries

def scan_inner (snapshot : ReadSnapshot) (request : DataScanRequest) (state : SessionState) :
    Except DataReadError (List DataIndexEntry) × SessionState :=
  match convert_bound request.lower, convert_bound request.upper with
  | .error error, _ => (.error error, state)
  | .ok _, .error error => (.error error, state)
  | .ok (lower, lower_dependency), .ok (upper, upper_dependency) =>
    let range : IndexRange := ⟨lower, upper⟩
    match range.validate request.limit with
    | .error _ => (.error .InvalidRequest, state)
    | .ok _ =>
      if state.failure.isSome then (.error .Unavailable, state)
      else
        let state := ensure_snapshot snapshot state
        let sequence := state.snapshot_sequence.getD snapshot.commit_sequence
        match snapshot.scan_index request.index_id range request.limit with
        | .error error => (.error .Storage, latch (.Store error) state)
        | .ok entries =>
          if !valid_entries entries request.index_id range request.limit sequence then
            (.error .Storage, latch (.Store .Corruption) state)
          else if state.scan_rows + entries.length > MAX_SCAN_ROWS then
            (.error .LimitExceeded, latch (.Data .LimitExceeded) state)
          else
            let state := { state with scan_rows := state.scan_rows + entries.length }
            let dependency := .Range request.index_id lower_dependency upper_dependency sequence
            match record_dependency dependency state with
            | .error error => (.error error, latch (.Data error) state)
            | .ok state => (.ok (entries.map data_index_entry), state)

/-- The reads a Query can make. -/
inductive QueryOp
  | Get (request : DataGetRequest)
  | Scan (request : DataScanRequest)
  deriving DecidableEq

def QueryOp.Answer : QueryOp → Type
  | .Get _ => Except DataReadError (Option DataDocument)
  | .Scan _ => Except DataReadError (List DataIndexEntry)

/-- A Query with its arguments: what it reads, and what it returns or fails with. -/
abbrev Query := Program QueryOp QueryOp.Answer (Except RuntimeError CanonicalValue)

/-- Serves one read of a Query from its snapshot. -/
def serve_query (snapshot : ReadSnapshot) : (op : QueryOp) → SessionState → op.Answer × SessionState
  | .Get request, state => get_inner snapshot request state
  | .Scan request, state => scan_inner snapshot request state

/-- Executes a Query on a snapshot. A latched failure wins over whatever the code returned. -/
def QueryExecutor.execute (query : Query) (snapshot : ReadSnapshot) : Except ExecutionError QueryOutcome :=
  let (result, state) := query.run (serve_query snapshot) .new
  match state.failure with
  | some failure => .error failure.into_execution
  | none =>
    match result with
    | .error error => .error (.Runtime error)
    | .ok value => .ok ⟨value, state.snapshot_sequence, state.dependencies⟩

end runku.execution
