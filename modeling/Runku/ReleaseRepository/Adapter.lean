import Runku.Lib.Transaction
import Runku.Releases.Routing

/-! `runku-release-repository/src/adapter.rs`, statement by statement. -/

namespace runku.release_repository

open Std (ExtTreeMap)
open runku.core runku.releases
open runku.value (TimestampMicros)
open runku.data (Sha256Digest)
open transaction

structure EnvironmentRow where
  serving_revision : Nat
  default_channel : Option ChannelName
  deriving DecidableEq

structure ReleaseRow where
  status : ReleaseStatus
  manifest_digest : Sha256Digest
  manifest_bytes : List UInt8
  record_revision : Nat
  created_at_micros : TimestampMicros
  updated_at_micros : TimestampMicros
  deriving DecidableEq

structure OperationRow where
  command_digest : Sha256Digest
  serving_revision : Nat
  created_at_micros : TimestampMicros
  deriving DecidableEq

/-- The rows of one Environment. -/
structure ReleaseTables where
  environment : Option EnvironmentRow
  records : ExtTreeMap ReleaseId ReleaseRow
  channels : ExtTreeMap ChannelName ReleaseId
  operations : ExtTreeMap OperationId OperationRow
  deriving DecidableEq

def ReleaseTables.empty : ReleaseTables := ⟨none, ∅, ∅, ∅⟩

def ReleaseTables.serving_revision (tables : ReleaseTables) : Nat :=
  match tables.environment with
  | some environment => environment.serving_revision
  | none => 0

def ReleaseTables.default_channel (tables : ReleaseTables) : Option ChannelName :=
  tables.environment.bind EnvironmentRow.default_channel

def ReleaseTables.status (tables : ReleaseTables) (release_id : ReleaseId) : Option ReleaseStatus :=
  tables.records[release_id]?.map ReleaseRow.status

abbrev Sql (α : Type) := Body ReleaseTables ReleaseError α

/-- A write that has to affect exactly one row. -/
def execute_one (update : ReleaseTables → Option ReleaseTables) : Sql Unit :=
  statement fun tables =>
    match update tables with
    | some tables => .ok ((), tables)
    | none => .error .RepositoryConflict

/-- What the clock and the backend do during one call. A `COMMIT` that fails with its outcome unknown is reported as
such; every other failure of it means that nothing was committed. -/
structure ReleaseWorld where
  clock : Except ReleaseError TimestampMicros
  faults : List (Option ReleaseError)
  outcome : CommitOutcome ReleaseError
  uncertain : ∀ error, outcome = .Failed error true → error = .ResultUncertain

def ReleaseTables.put_record (tables : ReleaseTables) (release_id : ReleaseId) (row : ReleaseRow) : ReleaseTables :=
  { tables with records := tables.records.insert release_id row }

def ReleaseRow.set_status (row : ReleaseRow) (status : ReleaseStatus) (now : TimestampMicros) : ReleaseRow :=
  { row with status, record_revision := row.record_revision + 1, updated_at_micros := now }

/-- Derives the status of a Release from the Channels that reference it. -/
def refresh_activity (release_id : ReleaseId) (now : TimestampMicros) : Sql Unit := do
  let references ← fetch fun tables => (tables.channels.toList.filter (·.2 = release_id)).length
  let row ← fetch fun tables => tables.records[release_id]?
  match row with
  | none => lift (.error .Internal)
  | some row => do
    let next ← lift (row.status.with_channel_reference (decide (references > 0)))
    execute fun tables => tables.put_record release_id (row.set_status next now)

/-- A Channel may only be bound to a servable Release, and the default Channel may not be removed. -/
def check_binding (channel : ChannelName) : Option ReleaseId → Sql Unit
  | some target => do
    let status ← fetch fun tables => tables.status target
    if status = some .Servable ∨ status = some .Active then return () else lift (.error .RepositoryConflict)
  | none => do
    let default_channel ← fetch ReleaseTables.default_channel
    if default_channel = some channel then lift (.error .RepositoryConflict) else return ()

def insert_channel (channel : ChannelName) : Option ReleaseId → Sql Unit
  | some target => execute fun tables => { tables with channels := tables.channels.insert channel target }
  | none => return ()

def refresh_optional (now : TimestampMicros) : Option ReleaseId → Sql Unit
  | some release_id => refresh_activity release_id now
  | none => return ()

def set_channel (channel : ChannelName) (expected_release target_release : Option ReleaseId) (now : TimestampMicros) :
    Sql Unit := do
  let current ← fetch fun tables => tables.channels[channel]?
  if current ≠ expected_release then lift (.error .RepositoryConflict)
  else do
    check_binding channel target_release
    execute fun tables => { tables with channels := tables.channels.erase channel }
    insert_channel channel target_release
    refresh_optional now current
    refresh_optional now target_release

def check_default : Option ChannelName → Sql Unit
  | some target => do
    let found ← fetch fun tables => decide (target ∈ tables.channels)
    if found then return () else lift (.error .RepositoryConflict)
  | none => return ()

def set_default_channel (expected_channel target_channel : Option ChannelName) : Sql Unit := do
  let current ← fetch ReleaseTables.default_channel
  if current ≠ expected_channel then lift (.error .RepositoryConflict)
  else do
    check_default target_channel
    execute fun tables => { tables with
      environment := tables.environment.map fun environment => { environment with default_channel := target_channel } }

def register (sha256 : List UInt8 → Sha256Digest) (manifest_bytes : List UInt8) (now : TimestampMicros) : Sql Unit := do
  let manifest ← lift (decode_release_manifest manifest_bytes)
  let manifest_digest ← lift (manifest.digest sha256)
  execute_one fun tables =>
    if manifest.release_id ∈ tables.records then none
    else some (tables.put_record manifest.release_id ⟨.Created, manifest_digest, manifest_bytes, 1, now, now⟩)

def transition (release_id : ReleaseId) (expected next : ReleaseStatus) (now : TimestampMicros) : Sql Unit := do
  let _ ← lift (expected.advance next)
  execute_one fun tables =>
    match tables.records[release_id]? with
    | some row => if row.status = expected then some (tables.put_record release_id (row.set_status next now)) else none
    | none => none

def run_command (sha256 : List UInt8 → Sha256Digest) (now : TimestampMicros) : ReleaseCommand → Sql Unit
  | .Register manifest_bytes => register sha256 manifest_bytes now
  | .Transition release_id expected next => transition release_id expected next now
  | .SetChannel channel expected_release target_release => set_channel channel expected_release target_release now
  | .SetDefaultChannel expected_channel target_channel => set_default_channel expected_channel target_channel

def apply_command (sha256 : List UInt8 → Sha256Digest) (clock : Except ReleaseError TimestampMicros)
    (operation_id : OperationId) (command : ReleaseCommand) (digest : Sha256Digest) : Sql ReleaseCommandResult := do
  let journalled ← fetch fun tables => tables.operations[operation_id]?
  match journalled with
  | some row =>
    if row.command_digest ≠ digest then lift (.error .OperationIdReused)
    else if row.serving_revision = 0 then lift (.error .Corruption)
    else return ⟨row.serving_revision, true⟩
  | none => do
    execute fun tables => { tables with environment := some (tables.environment.getD ⟨0, none⟩) }
    let current_revision ← fetch ReleaseTables.serving_revision
    let next_revision ← lift
      (if current_revision + 1 < 2 ^ 63 then .ok (current_revision + 1) else .error .LimitExceeded)
    let now ← lift clock
    run_command sha256 now command
    execute_one fun tables =>
      match tables.environment with
      | some environment =>
        if environment.serving_revision = current_revision then
          some { tables with environment := some { environment with serving_revision := next_revision } }
        else none
      | none => none
    execute fun tables => { tables with
      operations := tables.operations.insert operation_id ⟨digest, next_revision, now⟩ }
    return ⟨next_revision, false⟩

def ReleaseTables.apply (sha256 : List UInt8 → Sha256Digest) (scope : EnvironmentScope) (world : ReleaseWorld)
    (operation_id : OperationId) (command : ReleaseCommand) (tables : ReleaseTables) :
    Except ReleaseError ReleaseCommandResult × ReleaseTables :=
  match command.digest sha256 scope with
  | .error error => (.error error, tables)
  | .ok digest =>
    transact (apply_command sha256 world.clock operation_id command digest) world.faults world.outcome tables

def decode_release (sha256 : List UInt8 → Sha256Digest) (scope : EnvironmentScope) (release_id : ReleaseId)
    (row : ReleaseRow) : Except ReleaseError ServingReleaseEntry := do
  let manifest ← decode_release_manifest row.manifest_bytes
  let manifest_digest ← manifest.digest sha256
  if row.manifest_digest ≠ manifest_digest then .error .Corruption
  else if release_id ≠ manifest.release_id ∨ manifest.project_id ≠ scope.project_id then .error .Corruption
  else return {
    release_id
    project_id := manifest.project_id
    manifest_digest
    artifact := manifest.artifact
    runtime_version := manifest.runtime_version
    status := row.status }

def ReleaseTables.snapshot (sha256 : List UInt8 → Sha256Digest) (scope : EnvironmentScope) (tables : ReleaseTables) :
    Except ReleaseError ServingSnapshot :=
  match tables.environment with
  | none => .error .ReleaseNotFound
  | some environment =>
    if environment.serving_revision = 0 then .error .Corruption
    else do
      let releases ← tables.records.toList.mapM fun row => decode_release sha256 scope row.1 row.2
      let channels := tables.channels.toList.map fun row => (⟨row.1, row.2⟩ : ChannelBinding)
      ServingSnapshot.new scope environment.serving_revision releases channels environment.default_channel

end runku.release_repository
