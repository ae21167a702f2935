import Runku.Lib.Machine
import Runku.ObjectStorageRepository.Steps

namespace runku.object_storage_repository

open Std (ExtTreeMap)
open runku.core runku.object_storage
open runku.value (TimestampMicros)
open runku.data (Sha256Digest)
open transaction

/-- A transaction that may change the tables. -/
inductive Call
  | apply (operation_id : OperationId) (command : ObjectStorageCommand)
  | put_object (bucket_id : BucketId) (operation_id : OperationId) (command : PutObjectCommand)
  | delete_object (bucket_id : BucketId) (operation_id : OperationId) (command : DeleteObjectCommand)
  | delete_object_version (bucket_id : BucketId) (key : String) (version_id : ObjectVersionId)
  | create_multipart_upload (key : UploadKey) (upload : MultipartUpload)
  | put_multipart_part (key : UploadKey) (part : MultipartPart)
  | claim_multipart_completion (key : UploadKey) (completion_digest : Sha256Digest)
  | complete_multipart_upload (key : UploadKey) (version_id : ObjectVersionId) («at» : TimestampMicros)
  | abort_active_upload (key : UploadKey)
  | apply_lifecycle (lifecycle : BucketLifecycle) (bucket_id : BucketId) («at» : TimestampMicros) (limit : Nat)
  deriving DecidableEq

/-- The tables after a transaction, whatever it returned. -/
def step (sha256 : List UInt8 → Sha256Digest) (scope : EnvironmentScope) (tables : StorageTables) :
    World × Call → StorageTables
  | (world, .apply operation_id command) => (world.transact (apply sha256 scope operation_id command) tables).2
  | (world, .put_object bucket_id operation_id command) =>
    (world.transact (put_object sha256 scope bucket_id operation_id command) tables).2
  | (world, .delete_object bucket_id operation_id command) =>
    (world.transact (delete_object sha256 scope bucket_id operation_id command) tables).2
  | (world, .delete_object_version bucket_id key version_id) =>
    (world.transact (delete_object_version bucket_id key version_id) tables).2
  | (world, .create_multipart_upload key upload) => (world.transact (create_multipart_upload key upload) tables).2
  | (world, .put_multipart_part key part) => (world.transact (put_multipart_part key part) tables).2
  | (world, .claim_multipart_completion key completion_digest) =>
    (world.transact (claim_multipart_completion key completion_digest) tables).2
  | (world, .complete_multipart_upload key version_id time) =>
    (world.transact (complete_multipart_upload key version_id time) tables).2
  | (world, .abort_active_upload key) => (world.transact (abort_active_upload key) tables).2
  | (world, .apply_lifecycle lifecycle bucket_id time limit) =>
    (world.transact (apply_lifecycle lifecycle bucket_id time limit) tables).2

/-- The tables after a history that began with none. -/
def history (sha256 : List UInt8 → Sha256Digest) (scope : EnvironmentScope) (calls : List (World × Call)) :
    StorageTables :=
  machine.run (step sha256 scope) .empty calls

/-- What a transaction can do to the tables. -/
inductive Effect (sha256 : List UInt8 → Sha256Digest) (scope : EnvironmentScope) (tables : StorageTables) :
    Call → StorageTables → Prop
  | unchanged (call : Call) : Effect sha256 scope tables call tables
  | command {operation_id : OperationId} {command : ObjectStorageCommand} {middle : StorageTables}
    {operation : ObjectStorageOperation} {audit : List AuditRow}
    (hfresh : tables.operations[operation_id]? = none) (hvalid : command.validate_new = .ok ())
    (hperformed : Performed tables command middle) :
    Effect sha256 scope tables (.apply operation_id command) { middle with
      operations := middle.operations.insert operation_id ⟨command.digest sha256 scope, operation⟩, audit }
  | put {bucket_id : BucketId} {operation_id : OperationId} {command : PutObjectCommand} {bucket : Bucket}
    {object_audit : List ObjectAuditRow} (hfresh : tables.object_operations[operation_id]? = none)
    (hadmitted : Admitted tables bucket_id command bucket) :
    Effect sha256 scope tables (.put_object bucket_id operation_id command)
      (((tables.put_version (command.object bucket_id)).put_object (command.object bucket_id)).journal operation_id
        ⟨command.digest sha256 scope bucket_id, .put, bucket_id, command.key, command.version_id, command.at⟩
        object_audit)
  | delete {bucket_id : BucketId} {operation_id : OperationId} {command : DeleteObjectCommand}
    {object_audit : List ObjectAuditRow} (hfresh : tables.object_operations[operation_id]? = none) :
    Effect sha256 scope tables (.delete_object bucket_id operation_id command)
      ((tables.erase_object ⟨bucket_id, command.key⟩).journal operation_id
        ⟨command.digest sha256 scope bucket_id, .delete, bucket_id, command.key, command.expected_version_id,
          command.at⟩ object_audit)
  | delete_version {bucket_id : BucketId} {key : String} {version_id : ObjectVersionId}
    (hcurrent : tables.is_current ⟨bucket_id, key, version_id⟩ = false) :
    Effect sha256 scope tables (.delete_object_version bucket_id key version_id)
      (tables.erase_version ⟨bucket_id, key, version_id⟩)
  | delete_current {bucket_id : BucketId} {key : String} {version_id : ObjectVersionId}
    (hcurrent : tables.is_current ⟨bucket_id, key, version_id⟩ = true) :
    Effect sha256 scope tables (.delete_object_version bucket_id key version_id)
      ((tables.erase_version ⟨bucket_id, key, version_id⟩).promoted ⟨bucket_id, key⟩)
  | multipart {call : Call} (uploads : ExtTreeMap UploadKey UploadRow) (parts : ExtTreeMap PartKey MultipartPart) :
    Effect sha256 scope tables call { tables with uploads, parts }
  | expire {lifecycle : BucketLifecycle} {bucket_id : BucketId} {time : TimestampMicros} {limit : Nat}
    {objects : ExtTreeMap ObjectKey ObjectMetadata} {versions : ExtTreeMap VersionKey ObjectMetadata}
    {uploads : ExtTreeMap UploadKey UploadRow} (hexpired : Expired tables objects versions) :
    Effect sha256 scope tables (.apply_lifecycle lifecycle bucket_id time limit)
      { tables with objects, versions, uploads }

section
variable {sha256 : List UInt8 → Sha256Digest} {scope : EnvironmentScope} {tables tables' : StorageTables}

/-- A transaction fails without a trace, or all its statements succeed. -/
theorem transact_effect {α : Type} {call : Call} {world : World} {body : Sql α}
    (h : ∀ a tables', Runs body tables a tables' → Effect sha256 scope tables call tables') :
    Effect sha256 scope tables call (world.transact body tables).2 := by
  rcases transact_state body world.faults world.outcome tables with hsame | ⟨a, hruns⟩
  · rw [World.transact, hsame]
    exact .unchanged call
  · exact h a _ hruns

theorem delete_object_version_effect {bucket_id : BucketId} {key : String} {version_id : ObjectVersionId}
    {deleted : Bool} (h : Runs (delete_object_version bucket_id key version_id) tables deleted tables') :
    Effect sha256 scope tables (.delete_object_version bucket_id key version_id) tables' := by
  rcases delete_object_version_runs h with ⟨_, _, rfl⟩ | ⟨_, _, rfl⟩
  · exact .unchanged _
  · split
    · rename_i hcurrent
      exact .delete_current hcurrent
    · rename_i hcurrent
      exact .delete_version (Bool.eq_false_iff.mpr hcurrent)

/-- Every step has the effect of its call. -/
theorem step_effect (tables : StorageTables) (world : World) (call : Call) :
    Effect sha256 scope tables call (step sha256 scope tables (world, call)) := by
  cases call with
  | apply operation_id command =>
    refine transact_effect fun result tables' h => ?_
    rcases apply_runs h with ⟨_, _, _, _, rfl⟩ | ⟨hfresh, hvalid, middle, operation, audit, hperformed, _, rfl⟩
    · exact .unchanged _
    · exact .command hfresh hvalid hperformed
  | put_object bucket_id operation_id command =>
    refine transact_effect fun result tables' h => ?_
    rcases put_object_runs h with ⟨_, _, _, _, _, _, rfl⟩ | ⟨hfresh, ⟨bucket, hadmitted⟩, rfl, object_audit, rfl⟩
    · exact .unchanged _
    · exact .put hfresh hadmitted
  | delete_object bucket_id operation_id command =>
    refine transact_effect fun result tables' h => ?_
    rcases delete_object_runs h with ⟨_, _, _, _, rfl⟩ | ⟨hfresh, _, _, rfl, object_audit, rfl⟩
    · exact .unchanged _
    · exact .delete hfresh
  | delete_object_version bucket_id key version_id =>
    exact transact_effect fun _ _ h => delete_object_version_effect h
  | create_multipart_upload key upload =>
    refine transact_effect fun _ tables' h => ?_
    obtain ⟨_, _, _, _, rfl⟩ := create_multipart_upload_runs h
    exact .multipart _ _
  | put_multipart_part key part =>
    refine transact_effect fun _ tables' h => ?_
    obtain ⟨_, _, rfl⟩ := put_multipart_part_runs h
    exact .multipart _ _
  | claim_multipart_completion key completion_digest =>
    refine transact_effect fun _ tables' h => ?_
    obtain ⟨row, _, ⟨_, rfl⟩ | ⟨_, _, rfl⟩⟩ := claim_multipart_completion_runs h
    · exact .multipart _ _
    · exact .unchanged _
  | complete_multipart_upload key version_id time =>
    refine transact_effect fun _ tables' h => ?_
    obtain ⟨row, _, ⟨_, _, rfl⟩ | ⟨_, _, rfl⟩⟩ := complete_multipart_upload_runs h
    · exact .unchanged _
    · exact .multipart _ _
  | abort_active_upload key =>
    refine transact_effect fun _ tables' h => ?_
    have h := Runs.execute h
    split at h
    · split at h
      · exact h ▸ .multipart _ _
      · exact h ▸ .unchanged _
    · exact h ▸ .unchanged _
  | apply_lifecycle lifecycle bucket_id time limit =>
    refine transact_effect fun _ tables' h => ?_
    obtain ⟨objects, versions, hexpired, rfl⟩ := apply_lifecycle_runs h
    exact .expire hexpired

/-- What every effect keeps holds in every history. -/
theorem history_induction {inv : StorageTables → Prop}
    (hstep : ∀ tables call tables', Effect sha256 scope tables call tables' → inv tables → inv tables')
    (hempty : inv .empty) (calls : List (World × Call)) : inv (history sha256 scope calls) :=
  @machine.run_induction _ _ (step sha256 scope) (fun _ _ => True) inv
    (fun tables request _ => hstep tables request.2 _ (step_effect tables request.1 request.2)) _ calls
    (machine.meets_of_forall fun _ _ => trivial) hempty

end

end runku.object_storage_repository
