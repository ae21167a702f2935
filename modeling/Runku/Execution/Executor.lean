import Runku.DataSqlite.Commit
import Runku.DataSqlite.Snapshot
import Runku.Execution.Plan

/-!
`runku-execution/src/mutation.rs`: other commits can land between the snapshot of an attempt and each of its commit calls.
The catalog that a Release bundles is the executor's own here, and code without a capability does not make its calls.
-/

namespace runku.execution.mutation

open runku.core runku.value runku.data runku.data_sqlite runku.schema

def MAX_ATTEMPTS : Nat := 3

structure MutationOutcome where
  value : CanonicalValue
  commit_sequence : Option Nat
  replayed : Bool
  attempts : Nat
  deriving DecidableEq

inductive FunctionType
  | Query
  | Mutation
  | Action
  deriving DecidableEq

inductive FunctionVisibility
  | Public
  | Internal
  deriving DecidableEq

structure FunctionManifest where
  id : FunctionId
  name : FunctionName
  function_type : FunctionType
  visibility : FunctionVisibility
  deriving DecidableEq

/-- What an invocation asks for: the pinned code with its functions, and the code of the selected
function with its arguments. -/
structure InvocationRequest where
  scope : EnvironmentScope
  pinned_code : PinnedCode
  index_contract_hash : Sha256Digest
  functions : List FunctionManifest
  function_id : FunctionId
  code : Mutation

structure MutationExecutor where
  sha256 : List UInt8 → Sha256Digest
  schema : Option SchemaCatalog

/-- The time of an operation is the timestamp of its identity. -/
def operation_time_micros (operation_id : OperationId) : Except MutationExecutionError TimestampMicros :=
  let micros := operation_id.ulid.timestamp_ms * 1000
  if micros < 2 ^ 63 then .ok (Int64.ofNat micros) else .error (.Storage .Internal)

/-- Schedules may only name internal Mutations and Actions. -/
def allowed_schedules (functions : List FunctionManifest) : List FunctionName :=
  (functions.filter fun function => function.visibility = .Internal &&
    (function.function_type = .Mutation || function.function_type = .Action)).map FunctionManifest.name

def plan_indexes (schema : Option SchemaCatalog) (buffered : BufferedMutation) :
    Except MutationExecutionError (List IndexMutation) :=
  match schema with
  | none => .ok []
  | some schema => plan_document_index_mutations schema buffered.writes buffered.old_values

/-- The batch of what an attempt buffered; nothing to commit without writes and schedules. -/
def buffered_batch (schema : Option SchemaCatalog) (scope : EnvironmentScope) (operation_id : OperationId)
    (buffered : BufferedMutation) : Except MutationExecutionError (Option CommitBatch) :=
  if buffered.writes.isEmpty && buffered.schedules.isEmpty then .ok none
  else do
    let indexes ← plan_indexes schema buffered
    let batch ← mutation_batch scope operation_id ⟨operation_id.ulid⟩ buffered.reads buffered.writes indexes
      buffered.schedules
    return some batch

section
variable (executor : MutationExecutor) (request : InvocationRequest) (operation_id : OperationId)

/-- The checks before the first attempt. -/
def MutationExecutor.prepare : Except MutationExecutionError TimestampMicros :=
  if executor.schema.any fun schema =>
      schema.project_id ≠ request.scope.project_id || schema.digest ≠ request.index_contract_hash then
    .error (.Schema .InvalidCatalog)
  else do
    let schedule_base ← operation_time_micros operation_id
    match request.functions.find? fun function => function.id = request.function_id with
    | none => .error (.Runtime .InvalidInvocation)
    | some selected =>
      if selected.function_type ≠ .Mutation then .error (.Runtime .InvalidInvocation) else return schedule_base

def MutationExecutor.session (schedule_base : TimestampMicros) (begin_read : Except StoreError ReadSnapshot) :
    MutationSession where
  sha256 := executor.sha256
  begin_read
  operation_id
  schedule_base
  pinned_code := request.pinned_code
  allowed_schedules := allowed_schedules request.functions

/-- Runs the code on a snapshot. A failure of the session wins over the result of the code. -/
def MutationExecutor.attempt (schedule_base : TimestampMicros) (begin_read : Except StoreError ReadSnapshot) :
    Except MutationExecutionError (CanonicalValue × Option CommitBatch) :=
  let session := executor.session request operation_id schedule_base begin_read
  let (runtime_result, state) := request.code.run session.serve .new
  match session.finish state, runtime_result with
  | .error failure, _ => .error failure.public
  | .ok _, .error error => .error (.Runtime error)
  | .ok buffered, .ok value =>
    match buffered_batch executor.schema request.scope operation_id buffered with
    | .error error => .error error
    | .ok batch => .ok (value, batch)

end

/-- What happens around one commit call: the commits of others before it, and its own fate. -/
structure CommitTurn where
  others : List CommitCall
  world : CommitWorld

/-- What happens around one attempt. -/
structure AttemptWorld where
  begin_read : Option StoreError
  commits : Nat → CommitTurn

/-- The commits of others. -/
def commit_others (sha256 : List UInt8 → Sha256Digest) (others : List CommitCall) (env : Environment) : Environment :=
  others.foldl (fun env call => (env.commit sha256 call.world call.batch).2) env

/-- The failures after which the same batch is committed again. -/
def is_transient : StoreError → Bool
  | .Busy | .SerializationFailure | .ResultUncertain | .Unavailable => true
  | _ => false

/-- The remaining commit calls of a batch. -/
def commit_exact (sha256 : List UInt8 → Sha256Digest) (batch : CommitBatch) (turns : Nat → CommitTurn) :
    Nat → Nat → Environment → Except StoreError CommitResult × Environment
  | 0, _, env => (.error .Internal, env)
  | remaining + 1, retry, env =>
    match (commit_others sha256 (turns retry).others env).commit sha256 (turns retry).world batch with
    | (.ok result, env) => (.ok result, env)
    | (.error error, env) =>
      if is_transient error && remaining ≠ 0 then commit_exact sha256 batch turns remaining (retry + 1) env
      else (.error error, env)

def outcome (value : CanonicalValue) (result : CommitResult) (attempts : Nat) : MutationOutcome :=
  ⟨value, some result.commit_sequence, result.replayed, attempts⟩

section
variable (executor : MutationExecutor) (request : InvocationRequest) (operation_id : OperationId)

/-- The remaining attempts. -/
def MutationExecutor.attempts (schedule_base : TimestampMicros) (worlds : Nat → AttemptWorld) :
    Nat → Nat → Environment → Except MutationExecutionError MutationOutcome × Environment
  | 0, _, env => (.error (.Storage .MutationConflict), env)
  | remaining + 1, attempt, env =>
    let begin_read := match (worlds attempt).begin_read with
      | some error => .error error
      | none => .ok env.begin_read
    match executor.attempt request operation_id schedule_base begin_read with
    | .error error => (.error error, env)
    | .ok (value, none) => (.ok ⟨value, none, false, attempt⟩, env)
    | .ok (value, some batch) =>
      match commit_exact executor.sha256 batch (worlds attempt).commits MAX_ATTEMPTS 0 env with
      | (.ok result, env) => (.ok (outcome value result attempt), env)
      | (.error .MutationConflict, env) =>
        MutationExecutor.attempts schedule_base worlds remaining (attempt + 1) env
      | (.error error, env) => (.error (.Storage error), env)

def MutationExecutor.execute (worlds : Nat → AttemptWorld) (env : Environment) :
    Except MutationExecutionError MutationOutcome × Environment :=
  match executor.prepare request operation_id with
  | .error error => (.error error, env)
  | .ok schedule_base => executor.attempts request operation_id schedule_base worlds MAX_ATTEMPTS 1 env

end

/-- A request to run the given code as a Mutation of one Environment. -/
def mutation_request (code : Mutation) : InvocationRequest where
  scope := ⟨⟨.from_nat 1⟩, ⟨.from_nat 2⟩⟩
  pinned_code := .Release ⟨.from_nat 3⟩
  index_contract_hash := Vector.replicate 32 0
  functions := [⟨⟨.from_nat 6⟩, ⟨"write", by decide⟩, .Mutation, .Internal⟩]
  function_id := ⟨.from_nat 6⟩
  code

/-- Code that makes one write and reports nothing. -/
def write_code (op : MutationOp) : Mutation := .call op fun _ => .done (.ok .Null)

end runku.execution.mutation
