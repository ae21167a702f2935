import Runku.Lib.Totals
import Runku.Lib.Transaction
import Runku.ObjectStorage.Model

/-!
`runku-object-storage-repository/src/adapter.rs`, statement by statement. Rows hold decoded values; what the code checks
when it decodes a row is checked here.
-/

namespace runku.object_storage

open runku.value (TimestampMicros)

/-- The key after all keys of its bucket were revoked. -/
def AccessKeyMetadata.revoke (metadata : AccessKeyMetadata) («at» : TimestampMicros) : AccessKeyMetadata :=
  if metadata.state = .Active then
    { metadata with
      revision := metadata.revision + 1, state := .Revoked, updated_at := «at», previous_generation_valid_until := none }
  else metadata

/-- The version that a put creates. -/
def PutObjectCommand.object (command : PutObjectCommand) (bucket_id : BucketId) : ObjectMetadata where
  bucket_id
  key := command.key
  version_id := command.version_id
  size := command.size
  sha256 := command.sha256
  etag := object_etag command.sha256
  content_type := command.content_type
  metadata := command.metadata
  created_at := command.at

end runku.object_storage

namespace runku.object_storage_repository

open Std (ExtTreeMap)
open runku.core runku.object_storage
open runku.value (TimestampMicros)
open runku.data (Sha256Digest)
open transaction

structure ObjectKey where
  bucket_id : BucketId
  key : String
  deriving DecidableEq

instance : LinearOrder ObjectKey :=
  LinearOrder.lift' (fun key => toLex (key.bucket_id, key.key)) fun a b h => by cases a; cases b; simp_all

structure VersionKey where
  bucket_id : BucketId
  key : String
  version_id : ObjectVersionId
  deriving DecidableEq

instance : LinearOrder VersionKey :=
  LinearOrder.lift' (fun key => toLex (key.bucket_id, toLex (key.key, key.version_id))) fun a b h => by
    cases a; cases b; simp_all

structure AccessKeyRef where
  bucket_id : BucketId
  access_key_id : AccessKeyId
  deriving DecidableEq

instance : LinearOrder AccessKeyRef :=
  LinearOrder.lift' (fun key => toLex (key.bucket_id, key.access_key_id)) fun a b h => by cases a; cases b; simp_all

structure GenerationKey where
  bucket_id : BucketId
  access_key_id : AccessKeyId
  generation : Nat
  deriving DecidableEq

instance : LinearOrder GenerationKey :=
  LinearOrder.lift' (fun key => toLex (key.bucket_id, toLex (key.access_key_id, key.generation))) fun a b h => by
    cases a; cases b; simp_all

/-- A row of `runku_storage_access_key_generations`; rows written before keys could sign have no encrypted secret. -/
structure GenerationRow where
  secret_digest : Sha256Digest
  valid_from : TimestampMicros
  valid_until : Option TimestampMicros
  revoked_at : Option TimestampMicros
  secret : Option EncryptedAccessKeySecret
  deriving DecidableEq

structure StoredOperation where
  digest : Sha256Digest
  operation : ObjectStorageOperation
  deriving DecidableEq

structure StoredObjectOperation where
  digest : Sha256Digest
  operation : ObjectOperation
  deriving DecidableEq

structure AuditRow where
  sequence : Nat
  operation_id : OperationId
  operation : ObjectStorageOperation
  actor : ObjectStorageActor
  deriving DecidableEq

structure ObjectAuditRow where
  sequence : Nat
  operation_id : OperationId
  operation : ObjectOperation
  actor : ObjectStorageActor
  size : UInt64
  deriving DecidableEq

structure UploadKey where
  bucket_id : BucketId
  upload_id : MultipartUploadId
  deriving DecidableEq

instance : LinearOrder UploadKey :=
  LinearOrder.lift' (fun key => toLex (key.bucket_id, key.upload_id)) fun a b h => by cases a; cases b; simp_all

structure UploadRow where
  upload : MultipartUpload
  completion_digest : Option Sha256Digest
  deriving DecidableEq

structure PartKey where
  bucket_id : BucketId
  upload_id : MultipartUploadId
  part_number : Nat
  deriving DecidableEq

instance : LinearOrder PartKey :=
  LinearOrder.lift' (fun key => toLex (key.bucket_id, toLex (key.upload_id, key.part_number))) fun a b h => by
    cases a; cases b; simp_all

/-- The rows of one Environment. -/
structure StorageTables where
  buckets : ExtTreeMap BucketId Bucket
  access_keys : ExtTreeMap AccessKeyRef AccessKeyMetadata
  generations : ExtTreeMap GenerationKey GenerationRow
  operations : ExtTreeMap OperationId StoredOperation
  audit : List AuditRow
  objects : ExtTreeMap ObjectKey ObjectMetadata
  versions : ExtTreeMap VersionKey ObjectMetadata
  object_operations : ExtTreeMap OperationId StoredObjectOperation
  object_audit : List ObjectAuditRow
  uploads : ExtTreeMap UploadKey UploadRow
  parts : ExtTreeMap PartKey MultipartPart
  deriving DecidableEq

def StorageTables.empty : StorageTables := ⟨∅, ∅, ∅, ∅, [], ∅, ∅, ∅, [], ∅, ∅⟩

def StorageTables.put_bucket (tables : StorageTables) (bucket_id : BucketId) (bucket : Bucket) : StorageTables :=
  { tables with buckets := tables.buckets.insert bucket_id bucket }

def StorageTables.put_access_key (tables : StorageTables) (key : AccessKeyRef) (metadata : AccessKeyMetadata) :
    StorageTables :=
  { tables with access_keys := tables.access_keys.insert key metadata }

def StorageTables.put_generation (tables : StorageTables) (key : GenerationKey) (row : GenerationRow) : StorageTables :=
  { tables with generations := tables.generations.insert key row }

def StorageTables.put_object (tables : StorageTables) (object : ObjectMetadata) : StorageTables :=
  { tables with objects := tables.objects.insert ⟨object.bucket_id, object.key⟩ object }

def StorageTables.erase_object (tables : StorageTables) (key : ObjectKey) : StorageTables :=
  { tables with objects := tables.objects.erase key }

def StorageTables.put_version (tables : StorageTables) (object : ObjectMetadata) : StorageTables :=
  { tables with versions := tables.versions.insert ⟨object.bucket_id, object.key, object.version_id⟩ object }

def StorageTables.erase_version (tables : StorageTables) (key : VersionKey) : StorageTables :=
  { tables with versions := tables.versions.erase key }

def StorageTables.put_upload (tables : StorageTables) (key : UploadKey) (row : UploadRow) : StorageTables :=
  { tables with uploads := tables.uploads.insert key row }

def StorageTables.put_part (tables : StorageTables) (key : PartKey) (part : MultipartPart) : StorageTables :=
  { tables with parts := tables.parts.insert key part }

abbrev Sql (α : Type) := Body StorageTables ObjectStorageError α

/-- What the backend does during one transaction. -/
structure World where
  faults : List (Option ObjectStorageError)
  outcome : CommitOutcome ObjectStorageError
  deriving DecidableEq

def World.transact {α : Type} (world : World) (body : Sql α) (tables : StorageTables) :
    Except ObjectStorageError α × StorageTables :=
  transaction.transact body world.faults world.outcome tables

/-- A write that fails with `error` where it would not affect its row. -/
def execute_one (error : ObjectStorageError) (update : StorageTables → Option StorageTables) : Sql Unit :=
  statement fun tables =>
    match update tables with
    | some tables => .ok ((), tables)
    | none => .error error

def ok_or {α : Type} (error : ObjectStorageError) : Option α → Except ObjectStorageError α
  | some value => .ok value
  | none => .error error

/-- A check made between statements. -/
def ensure (condition : Bool) (error : ObjectStorageError) : Sql Unit :=
  lift (if condition then .ok () else .error error)

/-- The check of a row when it is decoded. -/
def decode {α : Type} (validate : α → Except ObjectStorageError Unit) :
    Option α → Except ObjectStorageError (Option α)
  | none => .ok none
  | some row => (validate row).map fun _ => some row

/-- A number as the backend stores it. -/
def to_i64 (value : UInt64) : Except ObjectStorageError Unit :=
  if value.toNat < 2 ^ 63 then .ok () else .error .LimitExceeded

def checked_add (left right : UInt64) : Except ObjectStorageError UInt64 :=
  if left.toNat + right.toNat < 2 ^ 64 then .ok (left + right) else .error .LimitExceeded

def input_error : ObjectStorageError → ObjectStorageError
  | .Corruption => .InvalidInput
  | error => error

def require_active (bucket : Bucket) (expected : UInt64) : Except ObjectStorageError Unit :=
  if bucket.state ≠ .Active ∨ bucket.revision ≠ expected then .error .Conflict else .ok ()

def require_not_before («at» current : TimestampMicros) : Except ObjectStorageError Unit :=
  if «at» < current then .error .Conflict else .ok ()

def load_bucket_tx (bucket_id : BucketId) : Sql (Option Bucket) := do
  let row ← fetch fun tables => tables.buckets[bucket_id]?
  lift (decode Bucket.validate row)

def load_key_tx (key : AccessKeyRef) : Sql (Option AccessKeyMetadata) := do
  let row ← fetch fun tables => tables.access_keys[key]?
  lift (decode AccessKeyMetadata.validate row)

def load_object_tx (key : ObjectKey) : Sql (Option ObjectMetadata) := do
  let row ← fetch fun tables => tables.objects[key]?
  lift (decode ObjectMetadata.validate row)

def load_object_version_tx (key : VersionKey) : Sql (Option ObjectMetadata) := do
  let row ← fetch fun tables => tables.versions[key]?
  lift (decode ObjectMetadata.validate row)

def StorageTables.has_name (tables : StorageTables) (bucket_id : BucketId) (name : BucketName) : Bool :=
  tables.buckets.toList.any fun row => row.1 ≠ bucket_id && row.2.configuration.name = name

def insert_bucket (bucket_id : BucketId) (bucket : Bucket) : Sql Unit := do
  lift (to_i64 bucket.revision)
  execute_one .Conflict fun tables =>
    if bucket_id ∈ tables.buckets ∨ tables.has_name bucket_id bucket.configuration.name then none
    else some (tables.put_bucket bucket_id bucket)

/-- The row of a bucket that is active at the expected revision. -/
def StorageTables.expected_bucket (tables : StorageTables) (bucket_id : BucketId) (expected : UInt64) : Option Bucket :=
  tables.buckets[bucket_id]?.filter fun row => row.revision = expected && row.state = .Active

def update_bucket (bucket_id : BucketId) (bucket : Bucket) (expected : UInt64) : Sql Unit := do
  lift (to_i64 bucket.revision)
  lift (to_i64 expected)
  execute_one .Conflict fun tables => do
    let row ← tables.expected_bucket bucket_id expected
    if tables.has_name bucket_id bucket.configuration.name then none
    else
      some (tables.put_bucket bucket_id { row with
        configuration := bucket.configuration, revision := bucket.revision, updated_at := bucket.updated_at })

def archive_bucket (bucket_id : BucketId) (expected revision : UInt64) («at» : TimestampMicros) : Sql Unit := do
  lift (to_i64 revision)
  lift (to_i64 expected)
  execute_one .Conflict fun tables => do
    let row ← tables.expected_bucket bucket_id expected
    some (tables.put_bucket bucket_id { row with state := .Archived, revision, updated_at := «at» })

/-- The last change to a key of the bucket. -/
def latest_key_update (bucket_id : BucketId) : Sql (Option Int) :=
  fetch fun tables =>
    ((tables.access_keys.toList.filter (·.1.bucket_id = bucket_id)).map fun row => row.2.updated_at.toInt).max?

def insert_key (key : AccessKeyRef) (metadata : AccessKeyMetadata) (digest : Sha256Digest)
    (encrypted_secret : EncryptedAccessKeySecret) : Sql Unit := do
  execute_one .Conflict fun tables =>
    if key ∈ tables.access_keys ∨ key.bucket_id ∉ tables.buckets then none
    else some (tables.put_access_key key metadata)
  execute_one .Conflict fun tables =>
    if ⟨key.bucket_id, key.access_key_id, 1⟩ ∈ tables.generations then none
    else
      some (tables.put_generation ⟨key.bucket_id, key.access_key_id, 1⟩
        ⟨digest, metadata.created_at, none, none, some encrypted_secret⟩)

/-- The row of a key that is active at the expected revision. -/
def StorageTables.expected_key (tables : StorageTables) (key : AccessKeyRef) (expected : UInt64) :
    Option AccessKeyMetadata :=
  tables.access_keys[key]?.filter fun row => row.revision = expected && row.state = .Active

def rotate_key (key : AccessKeyRef) (expected revision : UInt64) (digest : Sha256Digest)
    (encrypted_secret : EncryptedAccessKeySecret) (overlap «at» : TimestampMicros) : Sql Unit := do
  lift (to_i64 revision)
  lift (to_i64 expected)
  execute_one .Conflict fun tables => do
    let row ← tables.expected_key key expected
    some (tables.put_access_key key
      { row with revision, updated_at := «at», previous_generation_valid_until := some overlap })
  execute_one .Corruption fun tables => do
    let row ← tables.generations[(⟨key.bucket_id, key.access_key_id, expected.toNat⟩ : GenerationKey)]?
    if row.revoked_at = none ∧ row.valid_until = none then
      some (tables.put_generation ⟨key.bucket_id, key.access_key_id, expected.toNat⟩
        { row with valid_until := some overlap })
    else none
  execute_one .Conflict fun tables =>
    if ⟨key.bucket_id, key.access_key_id, revision.toNat⟩ ∈ tables.generations then none
    else
      some (tables.put_generation ⟨key.bucket_id, key.access_key_id, revision.toNat⟩
        ⟨digest, «at», none, none, some encrypted_secret⟩)

def GenerationRow.revoke (row : GenerationRow) («at» : TimestampMicros) : GenerationRow :=
  if row.revoked_at = none then { row with revoked_at := some «at» } else row

/-- Revokes the generations that a condition selects. -/
def StorageTables.revoke_generations (tables : StorageTables) («at» : TimestampMicros) (selects : GenerationKey → Bool) :
    StorageTables :=
  { tables with generations := tables.generations.map fun key row => if selects key then row.revoke «at» else row }

def revoke_key (key : AccessKeyRef) (expected revision : UInt64) («at» : TimestampMicros) : Sql Unit := do
  lift (to_i64 revision)
  lift (to_i64 expected)
  execute_one .Conflict fun tables => do
    let row ← tables.expected_key key expected
    some (tables.put_access_key key
      { row with revision, state := .Revoked, updated_at := «at», previous_generation_valid_until := none })
  execute fun tables => tables.revoke_generations «at» fun generation =>
    generation.bucket_id = key.bucket_id && generation.access_key_id = key.access_key_id

/-- Revokes the active keys of a bucket. -/
def StorageTables.revoke_keys (tables : StorageTables) (bucket_id : BucketId) («at» : TimestampMicros) : StorageTables :=
  { tables with
    access_keys := tables.access_keys.map fun key metadata =>
      if key.bucket_id = bucket_id then metadata.revoke «at» else metadata }

def revoke_bucket_keys (bucket_id : BucketId) («at» : TimestampMicros) : Sql Unit := do
  execute fun tables => tables.revoke_keys bucket_id «at»
  execute fun tables => tables.revoke_generations «at» (·.bucket_id = bucket_id)

/-- The current objects of a bucket. -/
def StorageTables.object_count (tables : StorageTables) (bucket_id : BucketId) : Nat :=
  ordered_map.total (fun key _ => if key.bucket_id = bucket_id then 1 else 0) tables.objects

/-- The bytes of the current objects of a bucket. -/
def StorageTables.total_bytes (tables : StorageTables) (bucket_id : BucketId) : Nat :=
  ordered_map.total (fun key object => if key.bucket_id = bucket_id then object.size.toNat else 0) tables.objects

/-- What a command changed: its bucket, its key and the new revision. -/
abbrev Changed := BucketId × Option AccessKeyId × UInt64

/-- The effect of a command that is not in the journal. -/
def perform : ObjectStorageCommand → Sql Changed
  | .CreateBucket bucket_id configuration _ time => do
    let bucket : Bucket := ⟨configuration, 1, .Active, time, time⟩
    lift (bucket.validate.mapError input_error)
    insert_bucket bucket_id bucket
    return (bucket_id, none, 1)
  | .UpdateBucket bucket_id expected_revision configuration _ time => do
    let current ← load_bucket_tx bucket_id
    let current ← lift (ok_or .NotFound current)
    lift (require_active current expected_revision)
    lift (require_not_before time current.updated_at)
    let revision ← lift (checked_add expected_revision 1)
    let next : Bucket := { current with configuration, revision, updated_at := time }
    lift (next.validate.mapError input_error)
    update_bucket bucket_id next expected_revision
    return (bucket_id, none, revision)
  | .ArchiveBucket bucket_id expected_revision _ time => do
    let current ← load_bucket_tx bucket_id
    let current ← lift (ok_or .NotFound current)
    lift (require_active current expected_revision)
    lift (require_not_before time current.updated_at)
    let latest ← latest_key_update bucket_id
    ensure (!latest.any (time.toInt < ·)) .Conflict
    let object_count ← fetch fun tables => tables.object_count bucket_id
    ensure (object_count = 0) .Conflict
    let revision ← lift (checked_add expected_revision 1)
    archive_bucket bucket_id expected_revision revision time
    revoke_bucket_keys bucket_id time
    return (bucket_id, none, revision)
  | .IssueAccessKey bucket_id access_key_id configuration secret_digest encrypted_secret _ time => do
    let bucket ← load_bucket_tx bucket_id
    let bucket ← lift (ok_or .NotFound bucket)
    ensure (bucket.state = .Active) .Conflict
    lift (require_not_before time bucket.updated_at)
    let metadata : AccessKeyMetadata := ⟨configuration, 1, .Active, time, time, none⟩
    lift (metadata.validate.mapError input_error)
    insert_key ⟨bucket_id, access_key_id⟩ metadata secret_digest encrypted_secret
    return (bucket_id, some access_key_id, 1)
  | .RotateAccessKey bucket_id access_key_id expected_revision secret_digest encrypted_secret overlap_until _ time => do
    let bucket ← load_bucket_tx bucket_id
    let bucket ← lift (ok_or .NotFound bucket)
    ensure (bucket.state = .Active) .Conflict
    let current ← load_key_tx ⟨bucket_id, access_key_id⟩
    let current ← lift (ok_or .NotFound current)
    ensure (current.state = .Active && current.revision = expected_revision) .Conflict
    lift (require_not_before time current.updated_at)
    let revision ← lift (checked_add expected_revision 1)
    rotate_key ⟨bucket_id, access_key_id⟩ expected_revision revision secret_digest encrypted_secret overlap_until time
    return (bucket_id, some access_key_id, revision)
  | .RevokeAccessKey bucket_id access_key_id expected_revision _ time => do
    let current ← load_key_tx ⟨bucket_id, access_key_id⟩
    let current ← lift (ok_or .NotFound current)
    ensure (current.state = .Active && current.revision = expected_revision) .Conflict
    lift (require_not_before time current.updated_at)
    let revision ← lift (checked_add expected_revision 1)
    revoke_key ⟨bucket_id, access_key_id⟩ expected_revision revision time
    return (bucket_id, some access_key_id, revision)

/-- The next number of an append-only log. -/
def next_sequence (sequences : List Nat) : Except ObjectStorageError Nat :=
  if sequences.foldl max 0 + 1 < 2 ^ 63 then .ok (sequences.foldl max 0 + 1) else .error .LimitExceeded

def insert_operation (operation_id : OperationId) (operation : ObjectStorageOperation) (digest : Sha256Digest) :
    Sql Unit := do
  lift (to_i64 operation.revision)
  execute_one .Conflict fun tables =>
    if operation_id ∈ tables.operations then none
    else some { tables with operations := tables.operations.insert operation_id ⟨digest, operation⟩ }

def insert_audit (operation_id : OperationId) (operation : ObjectStorageOperation) (actor : ObjectStorageActor) :
    Sql Unit := do
  let sequences ← fetch fun tables => tables.audit.map AuditRow.sequence
  let sequence ← lift (next_sequence sequences)
  execute_one .Conflict fun tables =>
    if tables.audit.any (·.operation_id = operation_id) then none
    else some { tables with audit := tables.audit ++ [⟨sequence, operation_id, operation, actor⟩] }

def apply (sha256 : List UInt8 → Sha256Digest) (scope : EnvironmentScope) (operation_id : OperationId)
    (command : ObjectStorageCommand) : Sql ObjectStorageOperationResult := do
  let stored ← fetch fun tables => tables.operations[operation_id]?
  match stored with
  | some stored =>
    if stored.digest ≠ command.digest sha256 scope then lift (.error .OperationIdReused)
    else return ⟨stored.operation, true⟩
  | none => do
    lift command.validate_new
    let (bucket_id, access_key_id, revision) ← perform command
    let operation : ObjectStorageOperation := ⟨command.kind, bucket_id, access_key_id, revision, command.at⟩
    insert_operation operation_id operation (command.digest sha256 scope)
    insert_audit operation_id operation command.actor
    return ⟨operation, false⟩

/-- The generation may be used at the given time. -/
def GenerationRow.is_valid (row : GenerationRow) («at» : TimestampMicros) : Bool :=
  row.valid_from ≤ «at» && row.revoked_at = none && row.valid_until.all («at» < ·)

def authenticate_key (key : AccessKeyRef) (digest : Sha256Digest) («at» : TimestampMicros) :
    Sql (Option AccessKeyMetadata) := do
  let row ← fetch fun tables =>
    tables.access_keys[key]?.filter fun metadata => metadata.state = .Active &&
      tables.generations.toList.any fun generation =>
        generation.1.bucket_id = key.bucket_id && generation.1.access_key_id = key.access_key_id &&
          generation.2.secret_digest = digest && generation.2.is_valid «at»
  lift (decode AccessKeyMetadata.validate row)

/-- A generation that may be used to verify a signature. -/
structure EncryptedAccessKeyGeneration where
  bucket_id : BucketId
  metadata : AccessKeyMetadata
  generation : Nat
  secret : EncryptedAccessKeySecret
  deriving DecidableEq

/-- The joined rows of a key and its generations that may be used. -/
def StorageTables.valid_generations (tables : StorageTables) (access_key_id : AccessKeyId) («at» : TimestampMicros) :
    List EncryptedAccessKeyGeneration :=
  tables.generations.toList.filterMap fun (key, row) =>
    if key.access_key_id = access_key_id ∧ row.is_valid «at» then do
      let metadata ← tables.access_keys[(⟨key.bucket_id, key.access_key_id⟩ : AccessKeyRef)]?
      let secret ← row.secret
      if metadata.state = .Active then some ⟨key.bucket_id, metadata, key.generation, secret⟩ else none
    else none

def decode_generation (row : EncryptedAccessKeyGeneration) : Except ObjectStorageError EncryptedAccessKeyGeneration := do
  row.metadata.validate
  let secret ← EncryptedAccessKeySecret.from_parts row.secret.nonce row.secret.ciphertext
  return { row with secret }

/-- The newest generations of a key that may be used. -/
def load_encrypted_key_generations (access_key_id : AccessKeyId) («at» : TimestampMicros) :
    Sql (List EncryptedAccessKeyGeneration) := do
  let rows ← fetch fun tables =>
    ((tables.valid_generations access_key_id «at»).mergeSort fun a b => b.generation ≤ a.generation).take 3
  lift (rows.mapM decode_generation)

def insert_object_operation (operation_id : OperationId) (operation : ObjectOperation) (digest : Sha256Digest) :
    Sql Unit :=
  execute_one .Conflict fun tables =>
    if operation_id ∈ tables.object_operations then none
    else some { tables with object_operations := tables.object_operations.insert operation_id ⟨digest, operation⟩ }

def insert_object_audit (operation_id : OperationId) (operation : ObjectOperation) (actor : ObjectStorageActor)
    (size : UInt64) : Sql Unit := do
  let sequences ← fetch fun tables => tables.object_audit.map ObjectAuditRow.sequence
  let sequence ← lift (next_sequence sequences)
  lift (to_i64 size)
  execute_one .Conflict fun tables =>
    if tables.object_audit.any (·.operation_id = operation_id) then none
    else some { tables with object_audit := tables.object_audit ++ [⟨sequence, operation_id, operation, actor, size⟩] }

def insert_object_version (object : ObjectMetadata) : Sql Unit := do
  lift (to_i64 object.size)
  execute_one .Conflict fun tables =>
    if ⟨object.bucket_id, object.key, object.version_id⟩ ∈ tables.versions ∨ object.bucket_id ∉ tables.buckets then none
    else some (tables.put_version object)

def upsert_current_object (object : ObjectMetadata) : Sql Unit := do
  lift (to_i64 object.size)
  execute_one .Conflict fun tables =>
    if object.bucket_id ∉ tables.buckets then none else some (tables.put_object object)

/-- The totals of a bucket, in one statement; the sum has to fit the backend's integers. -/
def select_totals (bucket_id : BucketId) : Sql (Nat × Nat) :=
  statement fun tables =>
    if tables.total_bytes bucket_id < 2 ^ 63 then
      .ok ((tables.total_bytes bucket_id, tables.object_count bucket_id), tables)
    else .error .Corruption

/-- The quota after the object would replace the current one. -/
def check_quota (quota : BucketQuota) (total count : Nat) (current : Option ObjectMetadata) (size : UInt64) :
    Except ObjectStorageError Unit :=
  let prior_size := (current.map fun object => object.size.toNat).getD 0
  if total < prior_size ∨ total - prior_size + size.toNat ≥ 2 ^ 64 then .error .LimitExceeded
  else if total - prior_size + size.toNat > quota.max_total_bytes.toNat ∨
      count + (if current.isNone then 1 else 0) > quota.max_objects.toNat then
    .error .LimitExceeded
  else .ok ()

/-- A put that is not in the journal. -/
def put_new_object (digest : Sha256Digest) (bucket_id : BucketId) (operation_id : OperationId)
    (command : PutObjectCommand) : Sql ObjectOperationResult := do
  lift command.validate
  let bucket ← load_bucket_tx bucket_id
  let bucket ← lift (ok_or .NotFound bucket)
  ensure (bucket.state = .Active) .Conflict
  ensure (command.size ≤ bucket.configuration.quota.max_object_bytes) .LimitExceeded
  let current ← load_object_tx ⟨bucket_id, command.key⟩
  let totals ← select_totals bucket_id
  lift (check_quota bucket.configuration.quota totals.1 totals.2 current command.size)
  let object := command.object bucket_id
  lift (object.validate.mapError input_error)
  insert_object_version object
  upsert_current_object object
  let operation : ObjectOperation := ⟨.put, bucket_id, command.key, command.version_id, command.at⟩
  insert_object_operation operation_id operation digest
  insert_object_audit operation_id operation command.actor command.size
  return ⟨operation, some object, false⟩

def put_object (sha256 : List UInt8 → Sha256Digest) (scope : EnvironmentScope) (bucket_id : BucketId)
    (operation_id : OperationId) (command : PutObjectCommand) : Sql ObjectOperationResult := do
  let stored ← fetch fun tables => tables.object_operations[operation_id]?
  match stored with
  | some stored =>
    if stored.digest ≠ command.digest sha256 scope bucket_id then lift (.error .OperationIdReused)
    else do
      let object ← load_object_version_tx
        ⟨stored.operation.bucket_id, stored.operation.key, stored.operation.version_id⟩
      let object ← lift (ok_or .Corruption object)
      return ⟨stored.operation, some object, true⟩
  | none => put_new_object (command.digest sha256 scope bucket_id) bucket_id operation_id command

/-- A delete that is not in the journal. -/
def delete_current_object (digest : Sha256Digest) (bucket_id : BucketId) (operation_id : OperationId)
    (command : DeleteObjectCommand) : Sql ObjectOperationResult := do
  lift command.validate
  let bucket ← load_bucket_tx bucket_id
  let bucket ← lift (ok_or .NotFound bucket)
  ensure (bucket.state = .Active) .Conflict
  let current ← load_object_tx ⟨bucket_id, command.key⟩
  let current ← lift (ok_or .NotFound current)
  ensure (current.version_id = command.expected_version_id) .Conflict
  execute_one .Conflict fun tables => do
    let row ← tables.objects[(⟨bucket_id, command.key⟩ : ObjectKey)]?
    if row.version_id = command.expected_version_id then some (tables.erase_object ⟨bucket_id, command.key⟩) else none
  let operation : ObjectOperation := ⟨.delete, bucket_id, command.key, command.expected_version_id, command.at⟩
  insert_object_operation operation_id operation digest
  insert_object_audit operation_id operation command.actor current.size
  return ⟨operation, none, false⟩

def delete_object (sha256 : List UInt8 → Sha256Digest) (scope : EnvironmentScope) (bucket_id : BucketId)
    (operation_id : OperationId) (command : DeleteObjectCommand) : Sql ObjectOperationResult := do
  let stored ← fetch fun tables => tables.object_operations[operation_id]?
  match stored with
  | some stored =>
    if stored.digest ≠ command.digest sha256 scope bucket_id then lift (.error .OperationIdReused)
    else return ⟨stored.operation, none, true⟩
  | none => delete_current_object (command.digest sha256 scope bucket_id) bucket_id operation_id command

/-- The versions of a key, oldest first. -/
def StorageTables.versions_of (tables : StorageTables) (key : ObjectKey) : List ObjectMetadata :=
  (tables.versions.toList.filter fun row => row.1.bucket_id = key.bucket_id && row.1.key = key.key).map Prod.snd

/-- Makes the newest remaining version of a key current. -/
def promote (key : ObjectKey) : Sql Unit := do
  execute fun tables => tables.erase_object key
  let prior ← fetch fun tables => (tables.versions_of key).getLast?
  let prior ← lift (decode ObjectMetadata.validate prior)
  match prior with
  | some prior => upsert_current_object prior
  | none => return ()

/-- The key falls back to the newest remaining version if the removed one was current. -/
def promote_after (key : ObjectKey) (was_current : Bool) : Sql Unit := if was_current then promote key else pure ()

def delete_object_version (bucket_id : BucketId) (key : String) (version_id : ObjectVersionId) : Sql Bool := do
  lift (validate_object_key key)
  let target ← load_object_version_tx ⟨bucket_id, key, version_id⟩
  match target with
  | none => return false
  | some _ => do
    let current ← load_object_tx ⟨bucket_id, key⟩
    execute_one .Conflict fun tables =>
      if ⟨bucket_id, key, version_id⟩ ∈ tables.versions then some (tables.erase_version ⟨bucket_id, key, version_id⟩)
      else none
    promote_after ⟨bucket_id, key⟩ (current.any (·.version_id = version_id))
    return true

def create_multipart_upload (key : UploadKey) (upload : MultipartUpload) : Sql Unit := do
  lift upload.validate
  ensure (upload.completed_at.isNone && upload.state = .Active) .InvalidInput
  execute_one .Conflict fun tables =>
    if key ∈ tables.uploads ∨ key.bucket_id ∉ tables.buckets then none
    else some (tables.put_upload key ⟨upload, none⟩)

/-- The states that `decode_multipart_upload` refuses are among those that `validate` refuses. -/
def get_multipart_upload (key : UploadKey) : Sql (Option MultipartUpload) := do
  let row ← fetch fun tables => tables.uploads[key]?.map UploadRow.upload
  lift (decode MultipartUpload.validate row)

def put_multipart_part (key : UploadKey) (part : MultipartPart) : Sql Unit := do
  lift part.validate
  let state ← fetch fun tables => tables.uploads[key]?.map (·.upload.state)
  let state ← lift (ok_or .NotFound state)
  ensure (state = .Active) .Conflict
  lift (to_i64 part.size)
  execute fun tables => tables.put_part ⟨key.bucket_id, key.upload_id, part.number.toNat⟩ part

/-- The parts of an upload, in order. -/
def StorageTables.parts_of (tables : StorageTables) (key : UploadKey) : List MultipartPart :=
  (tables.parts.toList.filter fun row => row.1.bucket_id = key.bucket_id && row.1.upload_id = key.upload_id).map Prod.snd

def list_multipart_parts (key : UploadKey) : Sql (List MultipartPart) := do
  let upload ← get_multipart_upload key
  let _ ← lift (ok_or .NotFound upload)
  let rows ← fetch fun tables => tables.parts_of key
  lift (rows.mapM fun part => part.validate.map fun _ => part)

def UploadRow.set_state (row : UploadRow) (state : MultipartUploadState) : UploadRow :=
  { row with upload := { row.upload with state } }

def claim_multipart_completion (key : UploadKey) (completion_digest : Sha256Digest) : Sql Unit := do
  let row ← fetch fun tables => tables.uploads[key]?
  let row ← lift (ok_or .NotFound row)
  match row.upload.state with
  | .Active =>
    execute_one .Conflict fun tables => do
      let row ← tables.uploads[key]?
      if row.upload.state = .Active then
        some (tables.put_upload key { row.set_state .Completing with completion_digest := some completion_digest })
      else none
  | .Completing | .Completed => ensure (row.completion_digest = some completion_digest) .Conflict
  | .Aborted => lift (.error .Conflict)

def UploadRow.complete (row : UploadRow) (version_id : ObjectVersionId) («at» : TimestampMicros) : UploadRow :=
  { row with upload := { row.upload with
      state := .Completed, completed_at := some «at», completed_version_id := some version_id } }

/-- Marks the upload completed; the version it was completed with before, if it was. -/
def complete_multipart_upload (key : UploadKey) (version_id : ObjectVersionId) («at» : TimestampMicros) :
    Sql (Option ObjectVersionId) := do
  ensure (0 ≤ «at») .InvalidInput
  let row ← fetch fun tables => tables.uploads[key]?
  let row ← lift (ok_or .NotFound row)
  if row.upload.state = .Completed then return row.upload.completed_version_id
  else do
    ensure (row.upload.state = .Completing) .Conflict
    execute fun tables =>
      match tables.uploads[key]? with
      | some row =>
        if row.upload.state = .Completing then tables.put_upload key (row.complete version_id «at») else tables
      | none => tables
    return some version_id

/-- The second statement of `abort_multipart_upload`. -/
def abort_active_upload (key : UploadKey) : Sql Unit :=
  execute fun tables =>
    match tables.uploads[key]? with
    | some row => if row.upload.state = .Active then tables.put_upload key (row.set_state .Aborted) else tables
    | none => tables

def MICROS_PER_DAY : Int := 86400000000

/-- The time before which a rule applies. -/
def cutoff («at» : TimestampMicros) (days : UInt32) : Int :=
  max (-2 ^ 63) («at».toInt - days.toNat * MICROS_PER_DAY)

/-- Deletes rows one by one; the number of rows that were there. -/
def delete_each {κ : Type} (delete : κ → StorageTables → Option StorageTables) (keys : List κ) : Sql Nat := do
  let counts ← collect (fun key => statement fun tables =>
    match delete key tables with
    | some tables => .ok (1, tables)
    | none => .ok (0, tables)) keys
  return counts.sum

def expire_current (bucket_id : BucketId) (before : Int) (limit : Nat) : Sql Nat := do
  let keys ← fetch fun tables =>
    ((tables.objects.toList.filter fun row => row.1.bucket_id = bucket_id && row.2.created_at.toInt ≤ before).take
      limit).map Prod.fst
  delete_each (fun key tables => if key ∈ tables.objects then some (tables.erase_object key) else none) keys

/-- The version is the current one of its key. -/
def StorageTables.is_current (tables : StorageTables) (key : VersionKey) : Bool :=
  tables.objects[(⟨key.bucket_id, key.key⟩ : ObjectKey)]?.any (·.version_id = key.version_id)

def expire_noncurrent (bucket_id : BucketId) (before : Int) (limit : Nat) : Sql Nat := do
  let keys ← fetch fun tables =>
    ((tables.versions.toList.filter fun row => row.1.bucket_id = bucket_id && row.2.created_at.toInt ≤ before &&
      !tables.is_current row.1).take limit).map Prod.fst
  delete_each (fun key tables => if key ∈ tables.versions then some (tables.erase_version key) else none) keys

/-- The uploads that the rule aborts. -/
def StorageTables.incomplete_uploads (tables : StorageTables) (bucket_id : BucketId) (before : Int) (limit : Nat) :
    List UploadKey :=
  ((tables.uploads.toList.filter fun row => row.1.bucket_id = bucket_id &&
    (row.2.upload.state = .Active || row.2.upload.state = .Completing) &&
    row.2.upload.created_at.toInt ≤ before).take limit).map Prod.fst

def abort_incomplete (bucket_id : BucketId) (before : Int) (limit : Nat) : Sql Nat :=
  statement fun tables =>
    let keys := tables.incomplete_uploads bucket_id before limit
    .ok (keys.length, { tables with
      uploads := tables.uploads.map fun key row => if keys.contains key then row.set_state .Aborted else row })

/-- A rule that may not be set. -/
def rule (days : Option UInt32) (body : UInt32 → Sql Nat) : Sql Nat :=
  match days with
  | some days => body days
  | none => return 0

/-- The transaction of `apply_lifecycle`, under the rules that were read before it began. -/
def apply_lifecycle (lifecycle : BucketLifecycle) (bucket_id : BucketId) («at» : TimestampMicros) (limit : Nat) :
    Sql LifecycleResult := do
  let current_objects ← rule lifecycle.expire_current_after_days fun days =>
    expire_current bucket_id (cutoff «at» days) limit
  let noncurrent_versions ← rule lifecycle.expire_noncurrent_after_days fun days =>
    expire_noncurrent bucket_id (cutoff «at» days) limit
  let multipart_uploads ← rule lifecycle.abort_incomplete_after_days fun days =>
    abort_incomplete bucket_id (cutoff «at» days) limit
  return ⟨current_objects, noncurrent_versions, multipart_uploads⟩

end runku.object_storage_repository
