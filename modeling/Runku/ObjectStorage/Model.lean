import Runku.Data.Digest
import Runku.Releases.Cron

/-! `runku-object-storage/src/model.rs`. -/

namespace runku.object_storage

open Std (ExtTreeMap)
open runku.core
open runku.value (TimestampMicros)
open runku.data (Sha256Digest)
open runku.releases (trim)
open bytes

inductive ObjectStorageError
  | InvalidInput
  | LimitExceeded
  | NotFound
  | Conflict
  | OperationIdReused
  | Busy
  | Unavailable
  | ResultUncertain
  | Corruption
  | Unsupported
  | ProductionBackendUnsupported
  | Internal
  deriving DecidableEq

abbrev BucketId := ResourceId "bkt_"
abbrev ObjectVersionId := ResourceId "ovr_"
abbrev MultipartUploadId := ResourceId "mpu_"
abbrev AccessKeyId := ResourceId "sak_"

/-- The control characters of Unicode. -/
def is_control (c : Char) : Bool := c.toNat < 32 || 127 ≤ c.toNat && c.toNat < 160

def len (value : String) : Nat := (as_bytes value).length

def has_control (value : String) : Bool := value.toList.any is_control

def starts_with_slash (value : String) : Bool := value.toList.head? = some '/'

/-- The text contains two equal characters in a row. -/
def contains_twice (c : Char) (value : String) : Bool := decide ([c, c] <:+: value.toList)

def MAX_PAGE_SIZE : Nat := 100
def MAX_CORS_RULES : Nat := 16
def MAX_CORS_VALUES : Nat := 32
def MAX_TEXT_BYTES : Nat := 256

/-- A bucket name as stored; `from_str` says which texts are names. -/
structure BucketName where
  as_str : String
  deriving DecidableEq

def BucketName.from_str (value : String) : Except ObjectStorageError BucketName :=
  if 3 ≤ len value ∧ len value ≤ 63 ∧ (as_bytes value).head?.any is_ascii_lowercase ∧
      (as_bytes value).getLast?.any is_ascii_alphanumeric ∧
      (as_bytes value).all (fun byte => is_ascii_lowercase byte || is_ascii_digit byte || byte = 45) ∧
      !contains_twice '-' value then
    .ok ⟨value⟩
  else .error .InvalidInput

def ObjectStorageActor.valid (value : String) : Bool :=
  value ≠ "" && len value ≤ 128 && !has_control value && trim value.toList = value.toList

/-- The identity of whoever caused a change. -/
structure ObjectStorageActor where
  as_str : String
  is_valid : ObjectStorageActor.valid as_str = true
  deriving DecidableEq

inductive BucketPolicy
  | Private
  | PublicRead
  deriving DecidableEq

def BucketPolicy.as_str : BucketPolicy → String
  | .Private => "private"
  | .PublicRead => "public_read"

inductive CorsMethod
  | Get
  | Head
  | Put
  | Post
  | Delete
  deriving DecidableEq

def CorsMethod.as_str : CorsMethod → String
  | .Get => "GET"
  | .Head => "HEAD"
  | .Put => "PUT"
  | .Post => "POST"
  | .Delete => "DELETE"

/-- One CORS rule; the methods are a set, listed in order. -/
structure CorsRule where
  origins : List String
  methods : List CorsMethod
  allowed_headers : List String
  exposed_headers : List String
  max_age_seconds : UInt32
  deriving DecidableEq

def is_sorted_unique : List String → Bool
  | a :: b :: rest => a < b && is_sorted_unique (b :: rest)
  | _ => true

def valid_wildcard_list (values : List String) : Bool := !values.contains "*" || values = ["*"]

def valid_header (value : String) : Bool :=
  value ≠ "" && len value ≤ 128 &&
    (as_bytes value).all fun byte => is_ascii_lowercase byte || is_ascii_digit byte || byte = 45

def CorsRule.valid_origin (origin : String) : Bool :=
  origin = "*" || "https://".toList.isPrefixOf origin.toList && len origin ≤ MAX_TEXT_BYTES &&
    origin.toList.getLast? ≠ some '/' && !has_control origin

def CorsRule.validate (rule : CorsRule) : Except ObjectStorageError Unit :=
  if rule.origins = [] ∨ rule.origins.length > MAX_CORS_VALUES ∨ rule.methods = [] ∨
      rule.allowed_headers.length > MAX_CORS_VALUES ∨ rule.exposed_headers.length > MAX_CORS_VALUES ∨
      rule.max_age_seconds > 86400 ∨ !is_sorted_unique rule.origins ∨ !is_sorted_unique rule.allowed_headers ∨
      !is_sorted_unique rule.exposed_headers ∨ !valid_wildcard_list rule.origins ∨
      !valid_wildcard_list rule.allowed_headers then
    .error .InvalidInput
  else if !rule.origins.all CorsRule.valid_origin then .error .InvalidInput
  else if !(rule.allowed_headers ++ rule.exposed_headers).all (fun header => header = "*" || valid_header header) then
    .error .InvalidInput
  else .ok ()

inductive Versioning
  | Disabled
  | Enabled
  deriving DecidableEq

def Versioning.as_str : Versioning → String
  | .Disabled => "disabled"
  | .Enabled => "enabled"

structure BucketLifecycle where
  expire_current_after_days : Option UInt32
  expire_noncurrent_after_days : Option UInt32
  abort_incomplete_after_days : Option UInt32
  deriving DecidableEq

def BucketLifecycle.validate (lifecycle : BucketLifecycle) (versioning : Versioning) :
    Except ObjectStorageError Unit :=
  if [lifecycle.expire_current_after_days, lifecycle.expire_noncurrent_after_days,
      lifecycle.abort_incomplete_after_days].any (·.any fun days => days < 1 || 36500 < days) then
    .error .LimitExceeded
  else if versioning = .Disabled ∧ lifecycle.expire_noncurrent_after_days.isSome then .error .InvalidInput
  else .ok ()

structure BucketQuota where
  max_object_bytes : UInt64
  max_total_bytes : UInt64
  max_objects : UInt64
  deriving DecidableEq

def BucketQuota.MAX_BYTES : UInt64 := UInt64.ofNat (2 ^ 60)

def BucketQuota.validate (quota : BucketQuota) : Except ObjectStorageError Unit :=
  if quota.max_object_bytes = 0 ∨ quota.max_total_bytes = 0 ∨ quota.max_objects = 0 ∨
      quota.max_object_bytes > quota.max_total_bytes ∨ quota.max_total_bytes > BucketQuota.MAX_BYTES ∨
      quota.max_objects > 1000000000 then
    .error .LimitExceeded
  else .ok ()

structure BucketConfiguration where
  name : BucketName
  policy : BucketPolicy
  cors : List CorsRule
  versioning : Versioning
  lifecycle : BucketLifecycle
  quota : BucketQuota
  deriving DecidableEq

def BucketConfiguration.validate (configuration : BucketConfiguration) : Except ObjectStorageError Unit := do
  let _ ← BucketName.from_str configuration.name.as_str
  if configuration.cors.length > MAX_CORS_RULES then .error .LimitExceeded
  else do
    configuration.cors.forM CorsRule.validate
    configuration.lifecycle.validate configuration.versioning
    configuration.quota.validate

inductive BucketState
  | Active
  | Archived
  deriving DecidableEq

/-- A bucket of the Environment, besides its identifier. -/
structure Bucket where
  configuration : BucketConfiguration
  revision : UInt64
  state : BucketState
  created_at : TimestampMicros
  updated_at : TimestampMicros
  deriving DecidableEq

def Bucket.validate (bucket : Bucket) : Except ObjectStorageError Unit := do
  bucket.configuration.validate
  if bucket.revision = 0 ∨ bucket.created_at < 0 ∨ bucket.updated_at < bucket.created_at then .error .Corruption
  else .ok ()

inductive AccessKeyOperation
  | List
  | Read
  | Write
  | Delete
  deriving DecidableEq

def AccessKeyOperation.as_str : AccessKeyOperation → String
  | .List => "list"
  | .Read => "read"
  | .Write => "write"
  | .Delete => "delete"

/-- What an access key may do; the operations are a set, listed in order. -/
structure AccessKeyConfiguration where
  label : String
  prefix_ : String
  operations : List AccessKeyOperation
  deriving DecidableEq

def AccessKeyConfiguration.validate (configuration : AccessKeyConfiguration) : Except ObjectStorageError Unit :=
  if configuration.label = "" ∨ len configuration.label > 128 ∨
      trim configuration.label.toList ≠ configuration.label.toList ∨ has_control configuration.label ∨
      len configuration.prefix_ > 1024 ∨ starts_with_slash configuration.prefix_ ∨
      contains_twice '.' configuration.prefix_ ∨ has_control configuration.prefix_ ∨ configuration.operations = [] then
    .error .InvalidInput
  else .ok ()

inductive AccessKeyState
  | Active
  | Revoked
  deriving DecidableEq

/-- An access key of the Environment, besides its identifiers. -/
structure AccessKeyMetadata where
  configuration : AccessKeyConfiguration
  revision : UInt64
  state : AccessKeyState
  created_at : TimestampMicros
  updated_at : TimestampMicros
  previous_generation_valid_until : Option TimestampMicros
  deriving DecidableEq

def AccessKeyMetadata.validate (metadata : AccessKeyMetadata) : Except ObjectStorageError Unit := do
  metadata.configuration.validate
  if metadata.revision = 0 ∨ metadata.created_at < 0 ∨ metadata.updated_at < metadata.created_at ∨
      metadata.previous_generation_valid_until.any (· < metadata.updated_at) ∨
      metadata.state = .Revoked ∧ metadata.previous_generation_valid_until.isSome then
    .error .Corruption
  else .ok ()

/-- Authenticated encrypted key material. -/
structure EncryptedAccessKeySecret where
  nonce : Vector UInt8 12
  ciphertext : List UInt8
  deriving DecidableEq

def EncryptedAccessKeySecret.validate (secret : EncryptedAccessKeySecret) : Except ObjectStorageError Unit :=
  if secret.ciphertext.length = 48 then .ok () else .error .InvalidInput

/-- Reads the material back from its columns. -/
def EncryptedAccessKeySecret.from_parts (nonce : Vector UInt8 12) (ciphertext : List UInt8) :
    Except ObjectStorageError EncryptedAccessKeySecret :=
  if ciphertext.length ≠ 48 then .error .Corruption else .ok ⟨nonce, ciphertext⟩

def hex_digit (value : UInt8) : Char := "0123456789abcdef".toList.getD value.toNat '0'

/-- Two lower-case hexadecimal digits for each byte. -/
def hex_bytes (value : List UInt8) : String :=
  String.ofList (value.flatMap fun byte => [hex_digit (byte / 16), hex_digit (byte % 16)])

def object_etag (digest : Sha256Digest) : String := "\"" ++ hex_bytes digest.toList ++ "\""

/-- The text has a path segment `..`. -/
def has_parent_segment (value : String) : Bool := (value.toList.splitOn '/').contains ['.', '.']

def validate_object_key (value : String) : Except ObjectStorageError Unit :=
  if value = "" ∨ len value > 1024 ∨ starts_with_slash value ∨ has_control value ∨ has_parent_segment value then
    .error .InvalidInput
  else .ok ()

/-- User metadata, in key order. -/
abbrev UserMetadata := ExtTreeMap String String

def validate_object_headers (content_type : String) (metadata : UserMetadata) : Except ObjectStorageError Unit :=
  if content_type = "" ∨ len content_type > 255 ∨ has_control content_type ∨ metadata.size > 32 ∨
      metadata.toList.any (fun entry => !valid_header entry.1 || len entry.2 > 1024 || has_control entry.2) then
    .error .InvalidInput
  else .ok ()

/-- One immutable object version of a bucket. -/
structure ObjectMetadata where
  bucket_id : BucketId
  key : String
  version_id : ObjectVersionId
  size : UInt64
  sha256 : Sha256Digest
  etag : String
  content_type : String
  metadata : UserMetadata
  created_at : TimestampMicros
  deriving DecidableEq

def ObjectMetadata.validate (object : ObjectMetadata) : Except ObjectStorageError Unit := do
  validate_object_key object.key
  validate_object_headers object.content_type object.metadata
  if object.created_at < 0 ∨ object.etag ≠ object_etag object.sha256 then .error .Corruption else .ok ()

inductive MultipartUploadState
  | Active
  | Completing
  | Completed
  | Aborted
  deriving DecidableEq

/-- A multipart upload of the Environment, besides its identifiers. -/
structure MultipartUpload where
  key : String
  content_type : String
  metadata : UserMetadata
  actor : ObjectStorageActor
  state : MultipartUploadState
  created_at : TimestampMicros
  completed_at : Option TimestampMicros
  completed_version_id : Option ObjectVersionId
  deriving DecidableEq

def MultipartUpload.validate (upload : MultipartUpload) : Except ObjectStorageError Unit := do
  validate_object_key upload.key
  validate_object_headers upload.content_type upload.metadata
  if upload.created_at < 0 ∨ upload.completed_at.isSome ≠ upload.completed_version_id.isSome ∨
      decide (upload.state = .Completed) ≠ upload.completed_at.isSome ∨
      upload.completed_at.any (· < upload.created_at) then
    .error .Corruption
  else .ok ()

structure MultipartPart where
  number : UInt16
  size : UInt64
  sha256 : Sha256Digest
  etag : String
  created_at : TimestampMicros
  deriving DecidableEq

def MultipartPart.validate (part : MultipartPart) : Except ObjectStorageError Unit :=
  if ¬(1 ≤ part.number ∧ part.number ≤ 10000) ∨ part.created_at < 0 ∨ part.etag ≠ object_etag part.sha256 then
    .error .Corruption
  else .ok ()

structure LifecycleResult where
  current_objects : Nat
  noncurrent_versions : Nat
  multipart_uploads : Nat
  deriving DecidableEq

/-- A text behind its length. -/
def field (value : String) : List UInt8 := to_be_bytes 8 (len value) ++ as_bytes value

def number (value : Int64) : List UInt8 := to_be_bytes 8 value.toUInt64.toNat

def unsigned (value : UInt64) : List UInt8 := to_be_bytes 8 value.toNat

def count (value : Nat) : List UInt8 := to_be_bytes 8 value

def optional_u32 : Option UInt32 → List UInt8
  | some value => 1 :: to_be_bytes 4 value.toNat
  | none => [0]

def encode_scope (scope : EnvironmentScope) : List UInt8 :=
  field scope.project_id.to_string ++ field scope.environment_id.to_string

structure PutObjectCommand where
  version_id : ObjectVersionId
  key : String
  size : UInt64
  sha256 : Sha256Digest
  content_type : String
  metadata : UserMetadata
  actor : ObjectStorageActor
  «at» : TimestampMicros
  deriving DecidableEq

def PutObjectCommand.validate (command : PutObjectCommand) : Except ObjectStorageError Unit := do
  validate_object_key command.key
  validate_object_headers command.content_type command.metadata
  if command.at < 0 then .error .InvalidInput else .ok ()

/-- The client's intent; the generated version and the time are left out. -/
def PutObjectCommand.encode (command : PutObjectCommand) (scope : EnvironmentScope) (bucket_id : BucketId) :
    List UInt8 :=
  as_bytes "RUNKU_OBJECT_PUT_COMMAND_V1\x00" ++ encode_scope scope ++ field bucket_id.to_string ++
    field command.key ++ unsigned command.size ++ command.sha256.toList ++ field command.content_type ++
    count command.metadata.toList.length ++
    command.metadata.toList.flatMap (fun entry => field entry.1 ++ field entry.2) ++ field command.actor.as_str

def PutObjectCommand.digest (sha256 : List UInt8 → Sha256Digest) (command : PutObjectCommand)
    (scope : EnvironmentScope) (bucket_id : BucketId) : Sha256Digest :=
  sha256 (command.encode scope bucket_id)

structure DeleteObjectCommand where
  key : String
  expected_version_id : ObjectVersionId
  actor : ObjectStorageActor
  «at» : TimestampMicros
  deriving DecidableEq

def DeleteObjectCommand.validate (command : DeleteObjectCommand) : Except ObjectStorageError Unit := do
  validate_object_key command.key
  if command.at < 0 then .error .InvalidInput else .ok ()

def DeleteObjectCommand.encode (command : DeleteObjectCommand) (scope : EnvironmentScope) (bucket_id : BucketId) :
    List UInt8 :=
  as_bytes "RUNKU_OBJECT_DELETE_COMMAND_V1\x00" ++ encode_scope scope ++ field bucket_id.to_string ++
    field command.key ++ field command.expected_version_id.to_string ++ field command.actor.as_str

def DeleteObjectCommand.digest (sha256 : List UInt8 → Sha256Digest) (command : DeleteObjectCommand)
    (scope : EnvironmentScope) (bucket_id : BucketId) : Sha256Digest :=
  sha256 (command.encode scope bucket_id)

inductive ObjectOperationKind
  | put
  | delete
  deriving DecidableEq

/-- A committed object mutation, besides its operation identifier. -/
structure ObjectOperation where
  kind : ObjectOperationKind
  bucket_id : BucketId
  key : String
  version_id : ObjectVersionId
  completed_at : TimestampMicros
  deriving DecidableEq

structure ObjectOperationResult where
  operation : ObjectOperation
  object : Option ObjectMetadata
  replayed : Bool
  deriving DecidableEq

inductive ObjectStorageOperationKind
  | CreateBucket
  | UpdateBucket
  | ArchiveBucket
  | IssueAccessKey
  | RotateAccessKey
  | RevokeAccessKey
  deriving DecidableEq

def ObjectStorageOperationKind.as_str : ObjectStorageOperationKind → String
  | .CreateBucket => "create_bucket"
  | .UpdateBucket => "update_bucket"
  | .ArchiveBucket => "archive_bucket"
  | .IssueAccessKey => "issue_access_key"
  | .RotateAccessKey => "rotate_access_key"
  | .RevokeAccessKey => "revoke_access_key"

/-- A committed command, besides its operation identifier. -/
structure ObjectStorageOperation where
  kind : ObjectStorageOperationKind
  bucket_id : BucketId
  access_key_id : Option AccessKeyId
  revision : UInt64
  completed_at : TimestampMicros
  deriving DecidableEq

structure ObjectStorageOperationResult where
  operation : ObjectStorageOperation
  replayed : Bool
  deriving DecidableEq

inductive ObjectStorageCommand
  | CreateBucket (bucket_id : BucketId) (configuration : BucketConfiguration) (actor : ObjectStorageActor)
    («at» : TimestampMicros)
  | UpdateBucket (bucket_id : BucketId) (expected_revision : UInt64) (configuration : BucketConfiguration)
    (actor : ObjectStorageActor) («at» : TimestampMicros)
  | ArchiveBucket (bucket_id : BucketId) (expected_revision : UInt64) (actor : ObjectStorageActor)
    («at» : TimestampMicros)
  | IssueAccessKey (bucket_id : BucketId) (access_key_id : AccessKeyId) (configuration : AccessKeyConfiguration)
    (secret_digest : Sha256Digest) (encrypted_secret : EncryptedAccessKeySecret) (actor : ObjectStorageActor)
    («at» : TimestampMicros)
  | RotateAccessKey (bucket_id : BucketId) (access_key_id : AccessKeyId) (expected_revision : UInt64)
    (secret_digest : Sha256Digest) (encrypted_secret : EncryptedAccessKeySecret) (overlap_until : TimestampMicros)
    (actor : ObjectStorageActor) («at» : TimestampMicros)
  | RevokeAccessKey (bucket_id : BucketId) (access_key_id : AccessKeyId) (expected_revision : UInt64)
    (actor : ObjectStorageActor) («at» : TimestampMicros)
  deriving DecidableEq

def ObjectStorageCommand.kind : ObjectStorageCommand → ObjectStorageOperationKind
  | .CreateBucket .. => .CreateBucket
  | .UpdateBucket .. => .UpdateBucket
  | .ArchiveBucket .. => .ArchiveBucket
  | .IssueAccessKey .. => .IssueAccessKey
  | .RotateAccessKey .. => .RotateAccessKey
  | .RevokeAccessKey .. => .RevokeAccessKey

def ObjectStorageCommand.at : ObjectStorageCommand → TimestampMicros
  | .CreateBucket _ _ _ time | .UpdateBucket _ _ _ _ time | .ArchiveBucket _ _ _ time
  | .IssueAccessKey _ _ _ _ _ _ time | .RotateAccessKey _ _ _ _ _ _ _ time | .RevokeAccessKey _ _ _ _ time => time

def ObjectStorageCommand.actor : ObjectStorageCommand → ObjectStorageActor
  | .CreateBucket _ _ actor _ | .UpdateBucket _ _ _ actor _ | .ArchiveBucket _ _ actor _
  | .IssueAccessKey _ _ _ _ _ actor _ | .RotateAccessKey _ _ _ _ _ _ actor _ | .RevokeAccessKey _ _ _ actor _ => actor

def encode_rule (rule : CorsRule) : List UInt8 :=
  count rule.origins.length ++ rule.origins.flatMap field ++ count rule.methods.length ++
    rule.methods.flatMap (fun method => field method.as_str) ++ count rule.allowed_headers.length ++
    rule.allowed_headers.flatMap field ++ count rule.exposed_headers.length ++ rule.exposed_headers.flatMap field ++
    to_be_bytes 4 rule.max_age_seconds.toNat

def encode_configuration (configuration : BucketConfiguration) : List UInt8 :=
  field configuration.name.as_str ++ field configuration.policy.as_str ++ field configuration.versioning.as_str ++
    optional_u32 configuration.lifecycle.expire_current_after_days ++
    optional_u32 configuration.lifecycle.expire_noncurrent_after_days ++
    optional_u32 configuration.lifecycle.abort_incomplete_after_days ++
    unsigned configuration.quota.max_object_bytes ++ unsigned configuration.quota.max_total_bytes ++
    unsigned configuration.quota.max_objects ++ count configuration.cors.length ++
    configuration.cors.flatMap encode_rule

def encode_key_configuration (configuration : AccessKeyConfiguration) : List UInt8 :=
  field configuration.label ++ field configuration.prefix_ ++ count configuration.operations.length ++
    configuration.operations.flatMap fun operation => field operation.as_str

/-- The fields of the client's intent; generated identifiers, times and secrets are left out. -/
def ObjectStorageCommand.encode_intent : ObjectStorageCommand → List UInt8
  | .CreateBucket _ configuration actor _ => encode_configuration configuration ++ field actor.as_str
  | .UpdateBucket bucket_id expected_revision configuration actor _ =>
    field bucket_id.to_string ++ unsigned expected_revision ++ encode_configuration configuration ++ field actor.as_str
  | .ArchiveBucket bucket_id expected_revision actor _ =>
    field bucket_id.to_string ++ unsigned expected_revision ++ field actor.as_str
  | .IssueAccessKey bucket_id _ configuration _ _ actor _ =>
    field bucket_id.to_string ++ encode_key_configuration configuration ++ field actor.as_str
  | .RotateAccessKey bucket_id access_key_id expected_revision _ _ overlap_until actor _ =>
    field bucket_id.to_string ++ field access_key_id.to_string ++ unsigned expected_revision ++
      number overlap_until ++ field actor.as_str
  | .RevokeAccessKey bucket_id access_key_id expected_revision actor _ =>
    field bucket_id.to_string ++ field access_key_id.to_string ++ unsigned expected_revision ++ field actor.as_str

def ObjectStorageCommand.digest (sha256 : List UInt8 → Sha256Digest) (command : ObjectStorageCommand)
    (scope : EnvironmentScope) : Sha256Digest :=
  sha256 (as_bytes "RUNKU_OBJECT_STORAGE_COMMAND_V1\x00" ++ encode_scope scope ++ field command.kind.as_str ++
    command.encode_intent)

def MAX_OVERLAP_MICROS : Int := 86400000000

/-- The difference of two times, within the range of a time. -/
def saturating_sub (left right : TimestampMicros) : Int :=
  max (-2 ^ 63) (min (2 ^ 63 - 1) (left.toInt - right.toInt))

def ObjectStorageCommand.validate_new (command : ObjectStorageCommand) : Except ObjectStorageError Unit :=
  if command.at < 0 then .error .InvalidInput
  else
    match command with
    | .CreateBucket _ configuration _ _ => configuration.validate
    | .UpdateBucket _ expected_revision configuration _ _ =>
      if expected_revision = 0 then .error .InvalidInput else configuration.validate
    | .ArchiveBucket _ expected_revision _ _ => if expected_revision = 0 then .error .InvalidInput else .ok ()
    | .RevokeAccessKey _ _ expected_revision _ _ => if expected_revision = 0 then .error .InvalidInput else .ok ()
    | .IssueAccessKey _ _ configuration _ encrypted_secret _ _ => do
      configuration.validate
      encrypted_secret.validate
    | .RotateAccessKey _ _ expected_revision _ encrypted_secret overlap_until _ time =>
      if expected_revision = 0 ∨ overlap_until ≤ time ∨ saturating_sub overlap_until time > MAX_OVERLAP_MICROS then
        .error .InvalidInput
      else encrypted_secret.validate

end runku.object_storage
