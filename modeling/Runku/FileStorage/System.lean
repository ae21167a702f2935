import Runku.FileStorage.Service
import Runku.Lib.Machine

/-!
The requests that are under way stand each at its next statement or object operation. A crash loses the requests and
keeps everything else. An object operation that failed may still take effect later.
-/

namespace runku.file_storage

open Std (ExtTreeMap)
open runku.value (TimestampMicros)
open runku.data (Sha256Digest)
open transaction

/-- An object of the backend. -/
structure StoredObject where
  bytes : List UInt8
  e_tag : Option String
  version : Option String
  deriving DecidableEq

/-- An effect on the object of one file: its new content, or its removal. -/
structure ObjectEffect where
  file_id : String
  object : Option StoredObject
  deriving DecidableEq

/-- What the backend answers to the last step of `put`. -/
inductive PutOutcome
  | Committed (e_tag version : Option String)
  | Failed (error : FileStorageError) (e_tag version : Option String)

inductive DeleteOutcome
  | Deleted
  | Failed (error : FileStorageError)

/-- What the clock, the metadata store and the object store do during one step. -/
structure World where
  clock : Except FileStorageError TimestampMicros
  faults : List (Option FileStorageError)
  outcome : CommitOutcome FileStorageError
  available : Except FileStorageError (Option Nat)
  put : PutOutcome
  delete : DeleteOutcome
  event_id : String

/-- A request under way, at its next step. -/
inductive Task
  /-- `begin_upload`, before its `UPDATE`. -/
  | Claiming (row : UploadRow) (stream : FileUploadStream)
  /-- `FileObjectStore::put`. -/
  | Putting (row : UploadRow) (stream : FileUploadStream)
  | Completing (row : UploadRow) (size : Nat) (digest : Sha256Digest) (e_tag : String) (version : Option String)
  /-- `cleanup_upload`, before the object is deleted. -/
  | Cleaning (row : UploadRow)
  | Failing (upload_id : String)
  /-- `delete`, after its `UPDATE` changed nothing. -/
  | Inspecting (file_id : String)
  /-- `finish_delete`, in its three steps. -/
  | Selecting (file_id : String)
  | Removing (file_id : String) (size : Nat)
  | Recording (file_id : String) (size : Nat)
  /-- `acknowledge_usage_events`, before its `DELETE`. -/
  | Acknowledging (through_sequence : Nat)
  deriving DecidableEq

/-- `reconcile_interrupted_operations`, at its next step. -/
inductive Startup
  | Expire
  | PurgeUploads (now : TimestampMicros)
  | PurgeFiles
  | SelectInterrupted
  | DeleteInterrupted (file_id : String) (file_ids : List String)
  | FailInterrupted (file_id : String) (file_ids : List String)
  | SelectDeleting
  | Finish (task : Task) (file_ids : List String)
  deriving DecidableEq

inductive Mode
  | Down
  | Starting (startup : Startup)
  | Serving
  deriving DecidableEq

/-- An event that was appended to the usage outbox, with the file whose request appended it. -/
structure LedgerEntry where
  file_id : String
  sequence : Nat
  event : UsageRow
  deriving DecidableEq

structure System where
  tables : FileTables
  objects : ExtTreeMap String StoredObject
  late : List ObjectEffect
  tasks : ExtTreeMap Nat Task
  mode : Mode
  /-- The identifiers generated so far: an upload and its file. -/
  grants : List (String × String)
  /-- The events appended so far. -/
  ledger : List LedgerEntry
  deriving DecidableEq

def System.new : System := ⟨.empty, ∅, [], ∅, .Down, [], []⟩

inductive Action
  /-- `reserve_upload`, with the identifiers it generates. -/
  | Reserve (world : World) (upload_id file_id : String) (request : FileUploadGrantRequest)
  /-- `upload_http` up to the checks of `begin_upload`; `verified` is the check of the token. -/
  | Upload (task : Nat) (world : World) (verified : Except FileStorageError Unit) (upload_id : String)
    (content_length : Option Nat) (content_type : Option String) (stream : FileUploadStream)
  | Delete (task : Nat) (world : World) (file_id : String)
  | Acknowledge (task : Nat) (world : World) (through_sequence : Nat)
  | Step (task : Nat) (world : World)
  /-- The caller goes away. -/
  | Drop (task : Nat)
  /-- An object operation that had failed takes effect. -/
  | Late (index : Nat)
  | Crash
  | Start
  | Startup (world : World)

def World.transact {α : Type} (world : World) (body : Sql α) (tables : FileTables) :
    Except FileStorageError α × FileTables :=
  transaction.transact body world.faults world.outcome tables

def ObjectEffect.apply (effect : ObjectEffect) (objects : ExtTreeMap String StoredObject) :
    ExtTreeMap String StoredObject :=
  ordered_map.write objects effect.file_id effect.object

def System.put_task (system : System) (id : Nat) (task : Option Task) : System :=
  { system with tasks := ordered_map.write system.tasks id task }

/-- The events that a step appended. -/
def appended (file_id : String) (before after : FileTables) : List LedgerEntry :=
  (after.usage_outbox.toList.filter fun row => before.last_sequence < row.1).map fun row => ⟨file_id, row.1, row.2⟩

def System.set_tables (system : System) (file_id : String) (tables : FileTables) : System :=
  { system with tables, ledger := system.ledger ++ appended file_id system.tables tables }

/-- Deletes an object; `NotFound` counts as deleted. -/
def System.delete_object (system : System) (outcome : DeleteOutcome) (file_id : String) :
    Except FileStorageError Unit × System :=
  match outcome with
  | .Deleted => (.ok (), { system with objects := system.objects.erase file_id })
  | .Failed error => (.error error, { system with late := ⟨file_id, none⟩ :: system.late })

/-- The next step of a request after its bytes are in the backend. -/
def after_put (row : UploadRow) (size : Nat) (digest : Sha256Digest) (e_tag version : Option String) : Task :=
  if row.expected_sha256.any (· ≠ digest) then .Cleaning row
  else
    match e_tag with
    | none => .Cleaning row
    | some e_tag => .Completing row size digest e_tag version

/-- `FileObjectStore::put` and the checks of `upload_http` on its result. -/
def System.put_object (sha256 : List UInt8 → Sha256Digest) (system : System) (outcome : PutOutcome) (row : UploadRow)
    (stream : FileUploadStream) : Task × System :=
  match read_stream row.max_bytes [] stream with
  | .error _ => (.Cleaning row, system)
  | .ok bytes =>
    match outcome with
    | .Committed e_tag version =>
      (after_put row bytes.length (sha256 bytes) e_tag version,
        { system with objects := system.objects.insert row.file_id ⟨bytes, e_tag, version⟩ })
    | .Failed _ e_tag version =>
      (.Cleaning row, { system with late := ⟨row.file_id, some ⟨bytes, e_tag, version⟩⟩ :: system.late })

/-- The tail of `complete_upload`: success, or cleanup. -/
def after_complete (row : UploadRow) : Except FileStorageError FileMetadata → Option Task
  | .ok _ => none
  | .error _ => some (.Cleaning row)

/-- How a request went on: to its next step, or to its end. -/
abbrev Progress := Except FileStorageError (Option Task)

def after_inspect (file_id : String) : Option FileRecord → Progress
  | none => .ok none
  | some file =>
    match file.state with
    | .deleted => .ok none
    | .deleting => .ok (some (.Selecting file_id))
    | .ready => .error .Conflict

/-- `delete` and `finish_delete`, one step. -/
def System.delete_step (system : System) (world : World) : Task → Progress × System
  | .Inspecting file_id =>
    match (world.transact (fetch fun tables => tables.files[file_id]?) system.tables).1 with
    | .ok file => (after_inspect file_id file, system)
    | .error error => (.error error, system)
  | .Selecting file_id =>
    match (world.transact (select_deleting file_id) system.tables).1 with
    | .ok size => (.ok (some (.Removing file_id size)), system)
    | .error error => (.error error, system)
  | .Removing file_id size =>
    match system.delete_object world.delete file_id with
    | (.ok _, system) => (.ok (some (.Recording file_id size)), system)
    | (.error error, system) => (.error error, system)
  | .Recording file_id size =>
    match world.clock with
    | .error error => (.error error, system)
    | .ok now =>
      let (result, tables) := world.transact (record_delete now world.event_id file_id size) system.tables
      (result.map fun _ => none, system.set_tables file_id tables)
  | _ => (.ok none, system)

def Progress.next : Progress → Option Task
  | .ok task => task
  | .error _ => none

/-- One step of a request. -/
def System.task_step (limits : FileStorageLimits) (sha256 : List UInt8 → Sha256Digest) (system : System) (world : World) :
    Task → Option Task × System
  | .Claiming row stream =>
    match world.transact (claim_upload row.upload_id) system.tables with
    | (.ok _, tables) => (some (.Putting row stream), system.set_tables row.file_id tables)
    | (.error _, tables) => (none, system.set_tables row.file_id tables)
  | .Putting row stream =>
    let (task, system) := system.put_object sha256 world.put row stream
    (some task, system)
  | .Completing row size digest e_tag version =>
    match world.clock with
    | .ok now =>
      let (result, tables) :=
        world.transact (complete_upload limits now world.event_id row size digest e_tag version) system.tables
      (after_complete row result, system.set_tables row.file_id tables)
    | .error _ => (some (.Cleaning row), system)
  | .Cleaning row =>
    match system.delete_object world.delete row.file_id with
    | (.ok _, system) => (some (.Failing row.upload_id), system)
    | (.error _, system) => (none, system)
  | .Failing upload_id => (none, system.set_tables "" (world.transact (fail_upload upload_id) system.tables).2)
  | .Acknowledging through_sequence =>
    (none, system.set_tables "" (world.transact (delete_usage through_sequence) system.tables).2)
  | task =>
    let (progress, system) := system.delete_step world task
    (progress.next, system)

/-- The uploads that hold a permit. -/
def Task.holds_permit : Task → Bool
  | .Claiming .. | .Putting .. => true
  | _ => false

/-- `upload_http` up to the checks of `begin_upload`. -/
def System.begin_upload (limits : FileStorageLimits) (system : System) (world : World)
    (verified : Except FileStorageError Unit) (upload_id : String) (content_length : Option Nat)
    (content_type : Option String) : Except FileStorageError UploadRow := do
  verified
  if (system.tasks.toList.filter (·.2.holds_permit)).length ≥ limits.concurrent_uploads then .error .LimitExceeded
  else do
    let now ← world.clock
    match ← (world.transact (fetch fun tables => tables.uploads[upload_id]?) system.tables).1 with
    | none => .error .NotFound
    | some upload => check_upload now upload_id content_length content_type upload

/-- The next step of the loops over interrupted uploads and over deletions. -/
def Startup.interrupted : List String → Startup
  | [] => .SelectInterrupted
  | file_id :: file_ids => .DeleteInterrupted file_id file_ids

def Startup.deleting : List String → Startup
  | [] => .SelectDeleting
  | file_id :: file_ids => .Finish (.Selecting file_id) file_ids

/-- A statement of `reconcile_interrupted_operations`: on to the next step, or the start has failed. -/
def System.startup_sql (system : System) (world : World) (body : Sql Unit) (next : Startup) : System :=
  match world.transact body system.tables with
  | (.ok _, tables) => { system.set_tables "" tables with mode := .Starting next }
  | (.error _, tables) => { system.set_tables "" tables with mode := .Down }

def System.startup_step (system : System) (world : World) : Startup → System
  | .Expire =>
    match world.clock with
    | .ok now => system.startup_sql world (execute (expire_uploads now)) (.PurgeUploads now)
    | .error _ => { system with mode := .Down }
  | .PurgeUploads now => system.startup_sql world (execute (purge_uploads now)) .PurgeFiles
  | .PurgeFiles => system.startup_sql world (execute purge_files) .SelectInterrupted
  | .SelectInterrupted =>
    match (world.transact select_interrupted system.tables).1 with
    | .ok [] => { system with mode := .Starting .SelectDeleting }
    | .ok (file_id :: file_ids) => { system with mode := .Starting (.DeleteInterrupted file_id file_ids) }
    | .error _ => { system with mode := .Down }
  | .DeleteInterrupted file_id file_ids =>
    match system.delete_object world.delete file_id with
    | (.ok _, system) => { system with mode := .Starting (.FailInterrupted file_id file_ids) }
    | (.error _, system) => { system with mode := .Down }
  | .FailInterrupted file_id file_ids =>
    system.startup_sql world (fail_interrupted file_id) (.interrupted file_ids)
  | .SelectDeleting =>
    match (world.transact select_all_deleting system.tables).1 with
    | .ok [] => { system with mode := .Serving }
    | .ok (file_id :: file_ids) => { system with mode := .Starting (.Finish (.Selecting file_id) file_ids) }
    | .error _ => { system with mode := .Down }
  | .Finish task file_ids =>
    match system.delete_step world task with
    | (.ok (some task), system) => { system with mode := .Starting (.Finish task file_ids) }
    | (.ok none, system) => { system with mode := .Starting (.deleting file_ids) }
    | (.error _, system) => { system with mode := .Down }

/-- `reserve_upload`. An identifier is generated at most once. -/
def System.reserve (limits : FileStorageLimits) (system : System) (world : World) (upload_id file_id : String)
    (request : FileUploadGrantRequest) : System :=
  match reserve_row limits world.clock upload_id file_id request with
  | .error _ => system
  | .ok (row, now, expires) =>
    { system.set_tables file_id
        (world.transact (reserve_inner limits world.available now expires row) system.tables).2 with
      grants := (upload_id, file_id) :: system.grants }

/-- The identifiers are new. -/
def System.Unused (system : System) (upload_id file_id : String) : Prop :=
  upload_id ∉ system.grants.map Prod.fst ∧ file_id ∉ system.grants.map Prod.snd

instance System.decidableUnused (system : System) (upload_id file_id : String) :
    Decidable (system.Unused upload_id file_id) :=
  inferInstanceAs (Decidable (_ ∧ _))

/-- A request that starts while the service is open. -/
def System.request (limits : FileStorageLimits) (system : System) : Action → System
  | .Reserve world upload_id file_id request =>
    if system.Unused upload_id file_id then system.reserve limits world upload_id file_id request else system
  | .Upload id world verified upload_id content_length content_type stream =>
    if id ∈ system.tasks then system
    else
      match system.begin_upload limits world verified upload_id content_length content_type with
      | .ok row => system.put_task id (some (.Claiming row stream))
      | .error _ => system
  | .Delete id world file_id =>
    if id ∈ system.tasks then system
    else
      match world.transact (mark_deleting file_id) system.tables with
      | (.ok 0, tables) => (system.set_tables file_id tables).put_task id (some (.Inspecting file_id))
      | (.ok _, tables) => (system.set_tables file_id tables).put_task id (some (.Selecting file_id))
      | (.error _, tables) => system.set_tables file_id tables
  | .Acknowledge id world through_sequence =>
    if id ∈ system.tasks then system
    else
      match (world.transact (check_acknowledge through_sequence) system.tables).1 with
      | .ok _ => system.put_task id (some (.Acknowledging through_sequence))
      | .error _ => system
  | _ => system

/-- One step of the system. -/
def System.step (limits : FileStorageLimits) (sha256 : List UInt8 → Sha256Digest) (system : System) (action : Action) :
    System :=
  match action, system.mode with
  | .Step id world, .Serving =>
    match system.tasks[id]? with
    | some task =>
      let (next, system) := system.task_step limits sha256 world task
      system.put_task id next
    | none => system
  | .Drop id, .Serving => system.put_task id none
  | .Late index, _ =>
    match system.late[index]? with
    | some effect => { system with objects := effect.apply system.objects, late := system.late.eraseIdx index }
    | none => system
  | .Crash, _ => { system with tasks := ∅, mode := .Down }
  | .Start, .Down => { system with mode := .Starting .Expire }
  | .Startup world, .Starting startup => system.startup_step world startup
  | action, .Serving => system.request limits action
  | _, _ => system

end runku.file_storage
