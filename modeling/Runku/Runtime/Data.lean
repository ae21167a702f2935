import Runku.Core.Target
import Runku.Value.Canonical

/-! `runku-runtime/src/data.rs` and `runku-runtime/src/scheduling.rs`. -/

namespace runku.runtime

open runku.core runku.value

inductive RuntimeError
  | InvalidConfiguration
  | InvalidInvocation
  | InvalidArguments
  | UnsupportedRuntime
  | InvalidArtifact
  | FunctionNotFound
  | Busy
  | Unavailable
  | DeadlineExceeded
  | Cancelled
  | HeapLimitExceeded
  | JavaScript
  | InvalidResult
  | Internal
  deriving DecidableEq

def RuntimeError.code : RuntimeError → String
  | .InvalidConfiguration => "RUNTIME_CONFIGURATION_INVALID"
  | .InvalidInvocation => "RUNTIME_INVOCATION_INVALID"
  | .InvalidArguments => "RUNTIME_ARGUMENTS_INVALID"
  | .UnsupportedRuntime => "RUNTIME_VERSION_UNSUPPORTED"
  | .InvalidArtifact => "RUNTIME_ARTIFACT_INVALID"
  | .FunctionNotFound => "RUNTIME_FUNCTION_NOT_FOUND"
  | .Busy => "RUNTIME_BUSY"
  | .Unavailable => "RUNTIME_UNAVAILABLE"
  | .DeadlineExceeded => "RUNTIME_DEADLINE_EXCEEDED"
  | .Cancelled => "RUNTIME_CANCELLED"
  | .HeapLimitExceeded => "RUNTIME_HEAP_LIMIT_EXCEEDED"
  | .JavaScript => "RUNTIME_JAVASCRIPT_ERROR"
  | .InvalidResult => "RUNTIME_RESULT_INVALID"
  | .Internal => "RUNTIME_INTERNAL_ERROR"

inductive DataReadError
  | InvalidRequest
  | Unavailable
  | Storage
  | Timeout
  | Cancelled
  | LimitExceeded
  deriving DecidableEq

inductive DataBoundKind
  | Inclusive
  | Exclusive
  deriving DecidableEq

structure DataKeyBound where
  kind : DataBoundKind
  key : List UInt8
  deriving DecidableEq

structure DataGetRequest where
  table_id : TableId
  document_id : DocumentId
  deriving DecidableEq

structure DataScanRequest where
  index_id : IndexId
  lower : Option DataKeyBound
  upper : Option DataKeyBound
  limit : Nat
  deriving DecidableEq

/-- A document as an invocation sees it. -/
structure DataDocument where
  table_id : TableId
  document_id : DocumentId
  revision : UInt64
  commit_sequence : Nat
  created_at : TimestampMicros
  updated_at : TimestampMicros
  value : CanonicalValue
  deriving DecidableEq

/-- An index entry as an invocation sees it. -/
structure DataIndexEntry where
  index_id : IndexId
  key : List UInt8
  table_id : TableId
  document_id : DocumentId
  document_revision : UInt64
  commit_sequence : Nat
  deriving DecidableEq

inductive ScheduleTime
  | AfterMicros (delay : UInt64)
  | At (timestamp : TimestampMicros)
  deriving DecidableEq

structure ScheduleRequest where
  function : FunctionName
  arguments : CanonicalValue
  time : ScheduleTime
  idempotency_key : Option String
  deriving DecidableEq

inductive ScheduleError
  | InvalidRequest
  | LimitExceeded
  | Storage
  | Unavailable
  | Timeout
  | ResultUncertain
  | Cancelled
  deriving DecidableEq

end runku.runtime
