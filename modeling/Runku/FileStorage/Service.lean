import Runku.Data.Digest
import Runku.Lib.Totals
import Runku.Lib.Transaction

/-! `runku-file-storage/src/lib.rs`: the metadata of one Environment, statement by statement. -/

namespace runku.file_storage

open Std (ExtTreeMap)
open runku.value (TimestampMicros checked_add_micros)
open runku.data (Sha256Digest)
open transaction

inductive FileStorageError
  | InvalidRequest
  | NotFound
  | Conflict
  | LimitExceeded
  | Forbidden
  | Unavailable
  | Timeout
  | Cancelled
  | Corruption
  deriving DecidableEq

/-- The limits that the metadata service enforces; lifetimes are in microseconds. -/
structure FileStorageLimits where
  environment_bytes : Nat
  file_bytes : Nat
  concurrent_uploads : Nat
  maximum_live_upload_grants : Nat
  maximum_files : Nat
  maximum_pending_usage_events : Nat
  filesystem_minimum_free_bytes : Nat
  upload_grant_ttl : Nat

inductive UploadState
  | reserved
  | uploading
  | completed
  | failed
  | expired
  deriving DecidableEq

/-- A row of `runku_file_uploads` besides its key. -/
structure UploadRecord where
  file_id : String
  state : UploadState
  max_bytes : Nat
  content_type : String
  content_type_required : Bool
  expected_sha256 : Option Sha256Digest
  created_at_micros : TimestampMicros
  expires_at_micros : TimestampMicros
  deriving DecidableEq

inductive FileState
  | ready
  | deleting
  | deleted
  deriving DecidableEq

/-- A row of `runku_files` besides its key. -/
structure FileRecord where
  state : FileState
  size_bytes : Nat
  sha256 : Sha256Digest
  content_type : String
  created_at_micros : TimestampMicros
  backend_e_tag : String
  backend_version : Option String
  deriving DecidableEq

inductive UsageKind
  | committed
  | deleted
  deriving DecidableEq

/-- A row of `runku_file_usage_outbox` besides its sequence. -/
structure UsageRow where
  event_id : String
  kind : UsageKind
  quantity : Nat
  occurred_at_micros : TimestampMicros
  deriving DecidableEq

/-- The rows of one Environment, and the last sequence that `AUTOINCREMENT` gave out. -/
structure FileTables where
  uploads : ExtTreeMap String UploadRecord
  files : ExtTreeMap String FileRecord
  usage_outbox : ExtTreeMap Nat UsageRow
  last_sequence : Nat
  deriving DecidableEq

def FileTables.empty : FileTables := ⟨∅, ∅, ∅, 0⟩

def FileTables.put_upload (tables : FileTables) (upload_id : String) (upload : UploadRecord) : FileTables :=
  { tables with uploads := tables.uploads.insert upload_id upload }

def FileTables.put_file (tables : FileTables) (file_id : String) (file : FileRecord) : FileTables :=
  { tables with files := tables.files.insert file_id file }

def FileTables.erase_file (tables : FileTables) (file_id : String) : FileTables :=
  { tables with files := tables.files.erase file_id }

/-- Appends an event to the outbox, at the next sequence. -/
def FileTables.append_usage (tables : FileTables) (row : UsageRow) : FileTables :=
  { tables with
    usage_outbox := tables.usage_outbox.insert (tables.last_sequence + 1) row
    last_sequence := tables.last_sequence + 1 }

abbrev Sql (α : Type) := Body FileTables FileStorageError α

/-- An upload as the service holds it in memory. -/
structure UploadRow where
  upload_id : String
  file_id : String
  max_bytes : Nat
  content_type : String
  content_type_required : Bool
  expected_sha256 : Option Sha256Digest
  deriving DecidableEq

structure FileMetadata where
  file_id : String
  size_bytes : Nat
  sha256 : Sha256Digest
  content_type : String
  created_at_micros : TimestampMicros
  deriving DecidableEq

def DEFAULT_CONTENT_TYPE : String := "application/octet-stream"

def validate_content_type (value : Option String) : Except FileStorageError String :=
  let value := value.getD DEFAULT_CONTENT_TYPE
  if value.isEmpty ∨ value.utf8ByteSize > 255 ∨
      value.toList.any (fun c => !(0x20 ≤ c.toNat && c.toNat ≤ 0x7e)) ∨ value.toList.count '/' ≠ 1 ∨
      value.toList.any (fun c => c = '\\' || c = '"' || c = '\'') then .error .InvalidRequest
  else .ok value.toLower

/-- An unsigned number as SQLite stores it. -/
def to_i64 (value : Nat) : Except FileStorageError Nat :=
  if value < 2 ^ 63 then .ok value else .error .LimitExceeded

/-- The states of a file that count against the limits. -/
def FileState.counted : FileState → Bool
  | .ready | .deleting => true
  | .deleted => false

/-- The states of an upload that hold a reservation. -/
def UploadState.holds : UploadState → Bool
  | .reserved | .uploading => true
  | _ => false

def FileTables.committed_bytes (tables : FileTables) : Nat :=
  ordered_map.total (fun _ file => if file.state.counted then file.size_bytes else 0) tables.files

def FileTables.file_count (tables : FileTables) : Nat :=
  ordered_map.total (fun _ file => if file.state.counted then 1 else 0) tables.files

def FileTables.reserved_bytes (tables : FileTables) : Nat :=
  ordered_map.total (fun _ upload => if upload.state.holds then upload.max_bytes else 0) tables.uploads

def FileTables.live_grants (now : TimestampMicros) (tables : FileTables) : Nat :=
  ordered_map.total (fun _ upload => if now ≤ upload.expires_at_micros then 1 else 0) tables.uploads

/-- A sum that SQLite can represent. -/
def sql_sum (sum : Nat) : Except FileStorageError Nat := if sum < 2 ^ 63 then .ok sum else .error .Unavailable

def checked_add (left right : Nat) : Except FileStorageError Nat :=
  if left + right < 2 ^ 64 then .ok (left + right) else .error .Corruption

def expire_uploads (now : TimestampMicros) (tables : FileTables) : FileTables :=
  { tables with uploads := tables.uploads.map fun _ upload =>
      if upload.expires_at_micros < now ∧ upload.state = .reserved then { upload with state := .expired } else upload }

def purge_uploads (now : TimestampMicros) (tables : FileTables) : FileTables :=
  { tables with uploads := tables.uploads.filter fun _ upload =>
      !(upload.expires_at_micros < now && (upload.state = .completed || upload.state = .failed || upload.state = .expired)) }

def purge_files (tables : FileTables) : FileTables :=
  { tables with files := tables.files.filter fun _ file => file.state ≠ .deleted }

structure FileUploadGrantRequest where
  max_bytes : Nat
  content_type : Option String
  sha256 : Option Sha256Digest
  deriving DecidableEq

/-- Free space of the filesystem that holds the objects, when they are on one. -/
def ensure_filesystem_capacity (available : Except FileStorageError (Option Nat)) (reservation minimum_free : Nat) :
    Except FileStorageError Unit := do
  match ← available with
  | none => return ()
  | some available => if available < min (reservation + minimum_free) (2 ^ 64 - 1) then .error .LimitExceeded else return ()

/-- Both keys of an upload are unique. -/
def insert_upload (upload_id : String) (upload : UploadRecord) : Sql Unit :=
  statement fun tables =>
    if upload_id ∈ tables.uploads ∨ tables.uploads.toList.any (fun row => row.2.file_id = upload.file_id) then
      .error .Unavailable
    else .ok ((), tables.put_upload upload_id upload)

/-- The transaction of `reserve_upload`. -/
def reserve_inner (limits : FileStorageLimits) (available : Except FileStorageError (Option Nat))
    (now expires : TimestampMicros) (row : UploadRow) : Sql Unit := do
  execute (expire_uploads now)
  execute (purge_uploads now)
  execute purge_files
  let live_grants ← fetch (FileTables.live_grants now)
  if live_grants ≥ limits.maximum_live_upload_grants then lift (.error .LimitExceeded)
  else do
    let committed ← fetch FileTables.committed_bytes
    let committed ← lift (sql_sum committed)
    let file_count ← fetch FileTables.file_count
    if file_count ≥ limits.maximum_files then lift (.error .LimitExceeded)
    else do
      let reserved ← fetch FileTables.reserved_bytes
      let reserved ← lift (sql_sum reserved)
      let reservation ← lift (checked_add reserved row.max_bytes)
      let _ ← lift (ensure_filesystem_capacity available reservation limits.filesystem_minimum_free_bytes)
      let admitted ← lift (checked_add committed reserved)
      let admitted ← lift (checked_add admitted row.max_bytes)
      if admitted > limits.environment_bytes then lift (.error .LimitExceeded)
      else do
        let max_bytes ← lift (to_i64 row.max_bytes)
        insert_upload row.upload_id {
          file_id := row.file_id
          state := .reserved
          max_bytes
          content_type := row.content_type
          content_type_required := row.content_type_required
          expected_sha256 := row.expected_sha256
          created_at_micros := now
          expires_at_micros := expires }

/-- What `reserve_upload` decides before its transaction. -/
def reserve_row (limits : FileStorageLimits) (clock : Except FileStorageError TimestampMicros)
    (upload_id file_id : String) (request : FileUploadGrantRequest) :
    Except FileStorageError (UploadRow × TimestampMicros × TimestampMicros) := do
  if request.max_bytes = 0 ∨ request.max_bytes > limits.file_bytes then .error .LimitExceeded
  else do
    let content_type ← validate_content_type request.content_type
    let now ← clock
    match checked_add_micros now limits.upload_grant_ttl with
    | none => .error .InvalidRequest
    | some expires => return (⟨upload_id, file_id, request.max_bytes, content_type, request.content_type.isSome,
        request.sha256⟩, now, expires)

/-- What `begin_upload` checks on the row it read. -/
def check_upload (now : TimestampMicros) (upload_id : String) (content_length : Option Nat)
    (content_type : Option String) (upload : UploadRecord) : Except FileStorageError UploadRow := do
  if upload.state ≠ .reserved ∨ upload.expires_at_micros < now then .error .Conflict
  else if content_length.any (fun length => length = 0 ∨ length > upload.max_bytes) then .error .LimitExceeded
  else do
    let actual_type ← validate_content_type content_type
    if upload.content_type_required ∧ content_type.isNone ∨
        content_type.isSome ∧ actual_type ≠ upload.content_type then .error .InvalidRequest
    else return ⟨upload_id, upload.file_id, upload.max_bytes, upload.content_type, upload.content_type_required,
      upload.expected_sha256⟩

/-- The state of one upload, if it is one of those given; returns the number of rows. -/
def update_upload (upload_id : String) (current : List UploadState) (next : UploadState) : Sql Nat :=
  statement fun tables =>
    match tables.uploads[upload_id]? with
    | some upload =>
      if upload.state ∈ current then
        .ok (1, tables.put_upload upload_id { upload with state := next })
      else .ok (0, tables)
    | none => .ok (0, tables)

/-- The `UPDATE` of `begin_upload`. -/
def claim_upload (upload_id : String) : Sql Unit := do
  let changed ← update_upload upload_id [.reserved] .uploading
  if changed ≠ 1 then lift (.error .Conflict) else return ()

/-- The body of a request: chunks, and possibly the failure, deadline or cancellation that ends it. -/
abbrev FileUploadStream := List (Except FileStorageError (List UInt8))

/-- The loop of `FileObjectStore::put` that reads the body into the writer. -/
def read_stream (maximum : Nat) : List UInt8 → FileUploadStream → Except FileStorageError (List UInt8)
  | written, [] => if written.length = 0 then .error .InvalidRequest else .ok written
  | _, .error error :: _ => .error error
  | written, .ok chunk :: stream =>
    if written.length + chunk.length > maximum then .error .LimitExceeded
    else read_stream maximum (written ++ chunk) stream

/-- `CHECK(length(value) BETWEEN 1 AND 1024)`. -/
def short_text (value : String) : Bool := 1 ≤ value.length && value.length ≤ 1024

def insert_file (file_id : String) (file : FileRecord) : Sql Unit :=
  statement fun tables =>
    if file_id ∈ tables.files ∨ file.size_bytes = 0 ∨ !short_text file.backend_e_tag ∨
        file.backend_version.any (!short_text ·) then .error .Unavailable
    else .ok ((), tables.put_file file_id file)

def insert_usage (row : UsageRow) : Sql Unit :=
  statement fun tables =>
    if tables.usage_outbox.toList.any (fun other => other.2.event_id = row.event_id) ∨ row.quantity = 0 then
      .error .Unavailable
    else .ok ((), tables.append_usage row)

/-- The transaction of `complete_upload`. -/
def complete_upload (limits : FileStorageLimits) (now : TimestampMicros) (event_id : String) (row : UploadRow)
    (size : Nat) (digest : Sha256Digest) (backend_e_tag : String) (backend_version : Option String) :
    Sql FileMetadata := do
  let pending_usage ← fetch fun tables => tables.usage_outbox.size
  if pending_usage ≥ limits.maximum_pending_usage_events then lift (.error .LimitExceeded)
  else do
    let size_bytes ← lift (to_i64 size)
    insert_file row.file_id ⟨.ready, size_bytes, digest, row.content_type, now, backend_e_tag, backend_version⟩
    let changed ← update_upload row.upload_id [.uploading] .completed
    if changed ≠ 1 then lift (.error .Conflict)
    else do
      insert_usage ⟨event_id, .committed, size_bytes, now⟩
      return ⟨row.file_id, size, digest, row.content_type, now⟩

def fail_upload (upload_id : String) : Sql Unit := do
  let _ ← update_upload upload_id [.reserved, .uploading] .failed
  return ()

/-- The first `UPDATE` of `delete`; returns the number of rows. -/
def mark_deleting (file_id : String) : Sql Nat :=
  statement fun tables =>
    match tables.files[file_id]? with
    | some file =>
      if file.state = .ready then
        .ok (1, tables.put_file file_id { file with state := .deleting })
      else .ok (0, tables)
    | none => .ok (0, tables)

/-- The size of a file that is being deleted. -/
def select_deleting (file_id : String) : Sql Nat := do
  let file ← fetch fun tables => tables.files[file_id]?
  match file with
  | some file => if file.state = .deleting then return file.size_bytes else lift (.error .NotFound)
  | none => lift (.error .NotFound)

def delete_file (file_id : String) : Sql Nat :=
  statement fun tables =>
    match tables.files[file_id]? with
    | some file =>
      if file.state = .deleting then .ok (1, tables.erase_file file_id)
      else .ok (0, tables)
    | none => .ok (0, tables)

/-- The transaction of `finish_delete`. -/
def record_delete (now : TimestampMicros) (event_id file_id : String) (size : Nat) : Sql Unit := do
  insert_usage ⟨event_id, .deleted, size, now⟩
  let deleted ← delete_file file_id
  if deleted ≠ 1 then lift (.error .Conflict) else return ()

def FileTables.pending_usage_events (limit : Nat) (tables : FileTables) : Except FileStorageError (List (Nat × UsageRow)) :=
  if limit < 1 ∨ 1000 < limit then .error .InvalidRequest else .ok (tables.usage_outbox.toList.take limit)

/-- What `acknowledge_usage_events` checks before it deletes. -/
def check_acknowledge (through_sequence : Nat) : Sql Unit := do
  if through_sequence = 0 ∨ 2 ^ 63 ≤ through_sequence then lift (.error .InvalidRequest)
  else do
    let maximum ← fetch fun tables => tables.usage_outbox.maxKey?
    if maximum.all (through_sequence > ·) then lift (.error .Conflict) else return ()

def purge_usage (through_sequence : Nat) (tables : FileTables) : FileTables :=
  { tables with usage_outbox := tables.usage_outbox.filter fun sequence _ => !(sequence ≤ through_sequence) }

/-- The `DELETE` of `acknowledge_usage_events`. -/
def delete_usage (through_sequence : Nat) : Sql Unit := execute (purge_usage through_sequence)

/-- The files of uploads that a dead process left behind. -/
def select_interrupted : Sql (List String) :=
  fetch fun tables => ((tables.uploads.toList.filter fun row => row.2.state = .uploading).take 1000).map fun row => row.2.file_id

def fail_uploading (file_id : String) (tables : FileTables) : FileTables :=
  { tables with uploads := tables.uploads.map fun _ upload =>
      if upload.file_id = file_id ∧ upload.state = .uploading then { upload with state := .failed } else upload }

def fail_interrupted (file_id : String) : Sql Unit := execute (fail_uploading file_id)

def select_all_deleting : Sql (List String) :=
  fetch fun tables => ((tables.files.toList.filter fun row => row.2.state = .deleting).take 1000).map Prod.fst

end runku.file_storage
