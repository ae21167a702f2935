import Runku.FileStorage.System

namespace runku.file_storage

open Std (ExtTreeMap)
open runku.value (TimestampMicros)
open runku.data (Sha256Digest)
open transaction

section
variable {tables tables' : FileTables} {u : Unit}

variable {upload_id : String}

theorem update_upload_runs {current : List UploadState} {next : UploadState} {changed : Nat}
    (h : Runs (update_upload upload_id current next) tables changed tables') :
    changed = 0 ∧ tables' = tables ∨
    changed = 1 ∧ ∃ upload, tables.uploads[upload_id]? = some upload ∧ upload.state ∈ current ∧
      tables' = tables.put_upload upload_id { upload with state := next } := by
  have h := h.statement
  split at h
  · rename_i upload hupload
    split at h
    · rename_i hstate
      cases h
      exact .inr ⟨rfl, upload, hupload, hstate, rfl⟩
    · cases h
      exact .inl ⟨rfl, rfl⟩
  · cases h
    exact .inl ⟨rfl, rfl⟩

theorem claim_upload_runs (h : Runs (claim_upload upload_id) tables u tables') :
    ∃ upload, tables.uploads[upload_id]? = some upload ∧ upload.state = .reserved ∧
      tables' = tables.put_upload upload_id { upload with state := .uploading } := by
  obtain ⟨changed, t₁, hupdate, hrest⟩ := h.bind
  rcases update_upload_runs hupdate with ⟨rfl, rfl⟩ | ⟨rfl, upload, hupload, hstate, rfl⟩
  · cases hrest.lift.1
  · rw [if_neg (by decide)] at hrest
    obtain ⟨_, rfl⟩ := hrest.pure
    exact ⟨upload, hupload, List.mem_singleton.mp hstate, rfl⟩

theorem fail_upload_runs (h : Runs (fail_upload upload_id) tables u tables') :
    tables' = tables ∨ ∃ upload, tables.uploads[upload_id]? = some upload ∧ upload.state.holds = true ∧
      tables' = tables.put_upload upload_id { upload with state := .failed } := by
  obtain ⟨changed, t₁, hupdate, h⟩ := h.bind
  obtain ⟨_, rfl⟩ := h.pure
  rcases update_upload_runs hupdate with ⟨_, hsame⟩ | ⟨_, upload, hupload, hstate, hfailed⟩
  · exact .inl hsame
  · refine .inr ⟨upload, hupload, ?_, hfailed⟩
    rcases List.mem_cons.mp hstate with hstate | hstate
    · rw [hstate]
      rfl
    · rw [List.mem_singleton.mp hstate]
      rfl

theorem insert_usage_runs {row : UsageRow} (h : Runs (insert_usage row) tables u tables') :
    row.quantity ≠ 0 ∧ tables' = tables.append_usage row := by
  have h := h.statement
  split at h
  · cases h
  · rename_i hfresh
    exact ⟨fun hzero => hfresh (.inr hzero), (Prod.mk.inj (Except.ok.inj h)).2.symm⟩

variable {size : Nat}

/-- All that the completion of an upload does. -/
theorem complete_upload_runs {limits : FileStorageLimits} {now : TimestampMicros} {event_id : String} {row : UploadRow}
    {digest : Sha256Digest} {e_tag : String} {version : Option String} {metadata : FileMetadata}
    (h : Runs (complete_upload limits now event_id row size digest e_tag version) tables metadata tables') :
    ∃ upload, row.file_id ∉ tables.files ∧ tables.uploads[row.upload_id]? = some upload ∧ upload.state = .uploading ∧
      tables' = ((tables.put_file row.file_id
        ⟨.ready, size, digest, row.content_type, now, e_tag, version⟩).put_upload row.upload_id
        { upload with state := .completed }).append_usage ⟨event_id, .committed, size, now⟩ := by
  have h := h.fetch_bind
  split at h
  · cases h.lift.1
  obtain ⟨size_bytes, hsize, h⟩ := h.lift_bind
  obtain rfl : size_bytes = size := by
    unfold to_i64 at hsize
    split at hsize
    · exact (Except.ok.inj hsize).symm
    · cases hsize
  obtain ⟨_, t₁, hinsert, h⟩ := h.bind
  have hinsert := hinsert.statement
  split at hinsert
  · cases hinsert
  rename_i hfresh
  obtain ⟨_, rfl⟩ := Prod.mk.inj (Except.ok.inj hinsert)
  obtain ⟨changed, t₂, hupdate, hrest⟩ := h.bind
  rcases update_upload_runs hupdate with ⟨rfl, rfl⟩ | ⟨rfl, upload, hupload, hstate, rfl⟩
  · cases hrest.lift.1
  · rw [if_neg (by decide)] at hrest
    obtain ⟨_, t₃, husage, hrest⟩ := hrest.bind
    obtain ⟨_, rfl⟩ := hrest.pure
    obtain ⟨_, rfl⟩ := insert_usage_runs husage
    exact ⟨upload, fun hmem => hfresh (.inl hmem), hupload, List.mem_singleton.mp hstate, rfl⟩

theorem mark_deleting_runs {file_id : String} {changed : Nat} (h : Runs (mark_deleting file_id) tables changed tables') :
    changed = 0 ∧ tables' = tables ∨
    changed = 1 ∧ ∃ file, tables.files[file_id]? = some file ∧ file.state = .ready ∧
      tables' = tables.put_file file_id { file with state := .deleting } := by
  have h := h.statement
  split at h
  · rename_i file hfile
    split at h
    · rename_i hstate
      cases h
      exact .inr ⟨rfl, file, hfile, hstate, rfl⟩
    · cases h
      exact .inl ⟨rfl, rfl⟩
  · cases h
    exact .inl ⟨rfl, rfl⟩

theorem select_deleting_runs {file_id : String} (h : Runs (select_deleting file_id) tables size tables') :
    ∃ file, tables.files[file_id]? = some file ∧ file.state = .deleting ∧ size = file.size_bytes := by
  have h := h.fetch_bind
  split at h
  · rename_i file hfile
    split at h
    · rename_i hstate
      exact ⟨file, hfile, hstate, h.pure.1⟩
    · cases h.lift.1
  · cases h.lift.1

theorem record_delete_runs {now : TimestampMicros} {event_id file_id : String}
    (h : Runs (record_delete now event_id file_id size) tables u tables') :
    ∃ file, tables.files[file_id]? = some file ∧ file.state = .deleting ∧
      tables' = (tables.erase_file file_id).append_usage ⟨event_id, .deleted, size, now⟩ := by
  obtain ⟨_, t₁, husage, h⟩ := h.bind
  obtain ⟨_, rfl⟩ := insert_usage_runs husage
  obtain ⟨deleted, t₂, hdelete, hrest⟩ := h.bind
  have hdelete := hdelete.statement
  split at hdelete
  · rename_i file hfile
    split at hdelete
    · rename_i hstate
      cases hdelete
      rw [if_neg (by decide)] at hrest
      obtain ⟨_, rfl⟩ := hrest.pure
      exact ⟨file, hfile, hstate, rfl⟩
    · cases hdelete
      cases hrest.lift.1
  · cases hdelete
    cases hrest.lift.1

/-- The tables after the housekeeping of `reserve_upload`. -/
def FileTables.purged (now : TimestampMicros) (tables : FileTables) : FileTables :=
  purge_files (purge_uploads now (expire_uploads now tables))

theorem sql_sum_eq_ok {sum value : Nat} (h : sql_sum sum = .ok value) : value = sum := by
  unfold sql_sum at h
  split at h
  · exact (Except.ok.inj h).symm
  · cases h

theorem checked_add_eq_ok {left right value : Nat} (h : checked_add left right = .ok value) : value = left + right := by
  unfold checked_add at h
  split at h
  · exact (Except.ok.inj h).symm
  · cases h

/-- All that a reservation does. -/
theorem reserve_inner_runs {limits : FileStorageLimits} {available : Except FileStorageError (Option Nat)}
    {now expires : TimestampMicros} {row : UploadRow}
    (h : Runs (reserve_inner limits available now expires row) tables u tables') :
    ∃ upload : UploadRecord, upload.file_id = row.file_id ∧ upload.state = .reserved ∧
      upload.max_bytes = row.max_bytes ∧ (tables.purged now).file_count < limits.maximum_files ∧
      (tables.purged now).committed_bytes + (tables.purged now).reserved_bytes + upload.max_bytes ≤
        limits.environment_bytes ∧ tables' = (tables.purged now).put_upload row.upload_id upload := by
  have h := h.execute_bind.execute_bind.execute_bind.fetch_bind
  split at h
  · cases h.lift.1
  have h := h.fetch_bind
  obtain ⟨committed, hcommitted, h⟩ := h.lift_bind
  have h := h.fetch_bind
  split at h
  · cases h.lift.1
  rename_i hcount
  have h := h.fetch_bind
  obtain ⟨reserved, hreserved, h⟩ := h.lift_bind
  obtain ⟨_, _, h⟩ := h.lift_bind
  obtain ⟨_, _, h⟩ := h.lift_bind
  obtain ⟨_, hsum, h⟩ := h.lift_bind
  obtain ⟨admitted, hadmitted, h⟩ := h.lift_bind
  split at h
  · cases h.lift.1
  rename_i hfit
  obtain ⟨max_bytes, hmax, h⟩ := h.lift_bind
  obtain rfl : max_bytes = row.max_bytes := by
    unfold to_i64 at hmax
    split at hmax
    · exact (Except.ok.inj hmax).symm
    · cases hmax
  have h := h.statement
  split at h
  · cases h
  obtain ⟨_, rfl⟩ := Prod.mk.inj (Except.ok.inj h)
  obtain rfl := sql_sum_eq_ok hcommitted
  obtain rfl := sql_sum_eq_ok hreserved
  obtain rfl := checked_add_eq_ok hsum
  obtain rfl := checked_add_eq_ok hadmitted
  refine ⟨_, rfl, rfl, rfl, Nat.lt_of_not_ge hcount, ?_, rfl⟩
  exact Nat.le_of_not_gt hfit

theorem read_stream_eq_ok {maximum : Nat} {written bytes : List UInt8} {stream : FileUploadStream}
    (h : read_stream maximum written stream = .ok bytes) (hwritten : written.length ≤ maximum) :
    bytes.length ≤ maximum := by
  induction stream generalizing written with
  | nil =>
    unfold read_stream at h
    split at h
    · cases h
    · exact Except.ok.inj h ▸ hwritten
  | cons item stream ih =>
    cases item with
    | error error => cases h
    | ok chunk =>
      rw [read_stream] at h
      split at h
      · cases h
      · rename_i hfits
        exact ih h (by rw [List.length_append]; omega)

end

/-- The request is under way, or it is the deletion that the start is finishing. -/
def System.Running (system : System) (task : Task) : Prop :=
  (∃ id : Nat, system.tasks[id]? = some task) ∨ ∃ file_ids, system.mode = .Starting (.Finish task file_ids)

/-- What one step may do to the metadata, and the events it appends. -/
inductive Change (limits : FileStorageLimits) (system : System) (action : Action) :
    FileTables → List LedgerEntry → Prop
  | same : Change limits system action system.tables []
  | expire (now : TimestampMicros) : Change limits system action (expire_uploads now system.tables) []
  | purge_uploads (now : TimestampMicros) :
    Change limits system action (file_storage.purge_uploads now system.tables) []
  | purge_files : Change limits system action (file_storage.purge_files system.tables) []
  | reserve {world : World} {upload_id file_id : String} {request : FileUploadGrantRequest} {now : TimestampMicros}
    {upload : UploadRecord} (haction : action = .Reserve world upload_id file_id request)
    (hserving : system.mode = .Serving) (hunused : system.Unused upload_id file_id)
    (hgenerated : (reserve_row limits world.clock upload_id file_id request).isOk = true)
    (hclock : world.clock = .ok now) (hfile : upload.file_id = file_id) (hstate : upload.state = .reserved)
    (hmax : upload.max_bytes ≤ limits.file_bytes)
    (hcount : (system.tables.purged now).file_count < limits.maximum_files)
    (hfit : (system.tables.purged now).committed_bytes + (system.tables.purged now).reserved_bytes +
      upload.max_bytes ≤ limits.environment_bytes) :
    Change limits system action ((system.tables.purged now).put_upload upload_id upload) []
  | claim {id : Nat} {row : UploadRow} {stream : FileUploadStream} {upload : UploadRecord}
    (htask : system.tasks[id]? = some (.Claiming row stream))
    (hupload : system.tables.uploads[row.upload_id]? = some upload) (hstate : upload.state = .reserved) :
    Change limits system action (system.tables.put_upload row.upload_id { upload with state := .uploading }) []
  | fail {upload_id : String} {upload : UploadRecord} (hupload : system.tables.uploads[upload_id]? = some upload)
    (hstate : upload.state.holds = true) :
    Change limits system action (system.tables.put_upload upload_id { upload with state := .failed }) []
  | interrupted (file_id : String) :
    Change limits system action (fail_uploading file_id system.tables) []
  | complete {id : Nat} {row : UploadRow} {size : Nat} {digest : Sha256Digest} {e_tag : String}
    {version : Option String} {upload : UploadRecord} {event_id : String} {now : TimestampMicros} {world : World}
    (haction : action = .Step id world) (hserving : system.mode = .Serving)
    (htask : system.tasks[id]? = some (.Completing row size digest e_tag version))
    (hfresh : row.file_id ∉ system.tables.files)
    (hupload : system.tables.uploads[row.upload_id]? = some upload) (hstate : upload.state = .uploading) :
    Change limits system action (((system.tables.put_file row.file_id
        ⟨.ready, size, digest, row.content_type, now, e_tag, version⟩).put_upload row.upload_id
        { upload with state := .completed }).append_usage ⟨event_id, .committed, size, now⟩)
      [⟨row.file_id, system.tables.last_sequence + 1, ⟨event_id, .committed, size, now⟩⟩]
  | mark {file_id : String} {file : FileRecord} (hfile : system.tables.files[file_id]? = some file)
    (hstate : file.state = .ready) :
    Change limits system action (system.tables.put_file file_id { file with state := .deleting }) []
  | record {file_id : String} {size : Nat} {file : FileRecord} {event_id : String} {now : TimestampMicros}
    (htask : system.Running (.Recording file_id size)) (hfile : system.tables.files[file_id]? = some file)
    (hstate : file.state = .deleting) :
    Change limits system action ((system.tables.erase_file file_id).append_usage ⟨event_id, .deleted, size, now⟩)
      [⟨file_id, system.tables.last_sequence + 1, ⟨event_id, .deleted, size, now⟩⟩]
  | acknowledge {id : Nat} {world : World} {through_sequence : Nat} (haction : action = .Step id world)
    (htask : system.tasks[id]? = some (.Acknowledging through_sequence)) :
    Change limits system action (purge_usage through_sequence system.tables) []

/-- No event has a sequence that was not given out. -/
def FileTables.Bounded (tables : FileTables) : Prop :=
  ∀ (sequence : Nat) (row : UsageRow), tables.usage_outbox[sequence]? = some row → sequence ≤ tables.last_sequence

section
variable {limits : FileStorageLimits} {sha256 : List UInt8 → Sha256Digest} {system system' : System} {action : Action}
  {world : World} {tables : FileTables}

variable {file_id : String}

theorem appended_eq_nil {before after : FileTables} (hbounded : before.Bounded)
    (h : ∀ (sequence : Nat) (row : UsageRow), after.usage_outbox[sequence]? = some row →
      before.usage_outbox[sequence]? = some row) : appended file_id before after = [] := by
  rw [appended, List.map_eq_nil_iff, List.filter_eq_nil_iff]
  intro row hrow
  have hold := h row.1 row.2 (ExtTreeMap.mem_toList_iff_getElem?_eq_some.mp hrow)
  simpa using hbounded row.1 row.2 hold

theorem appended_append_usage {before after : FileTables} {row : UsageRow}
    (hbounded : before.Bounded) (houtbox : after.usage_outbox = before.usage_outbox)
    (hlast : after.last_sequence = before.last_sequence) :
    appended file_id before (after.append_usage row) = [⟨file_id, before.last_sequence + 1, row⟩] := by
  have hrows : ((after.append_usage row).usage_outbox.toList.filter fun row => before.last_sequence < row.1) =
      [(before.last_sequence + 1, row)] := by
    refine @ordered_map.filter_toList_eq Nat _ UsageRow _ (fun sequence _ => before.last_sequence < sequence) _
      (List.pairwise_singleton _ _) fun sequence other => ?_
    rw [FileTables.append_usage, hlast, houtbox, ordered_map.getElem?_insert, List.mem_singleton, Prod.mk.injEq]
    split
    · rename_i heq
      subst heq
      simp [eq_comm]
    · rename_i hne
      constructor
      · rintro ⟨rfl, _⟩
        exact absurd rfl hne
      · rintro ⟨hold, hlate⟩
        have := hbounded sequence other hold
        simp only [decide_eq_true_eq] at hlate
        omega
  rw [appended, hrows]
  rfl

/-- The metadata and the ledger have taken one step. -/
def Follows (limits : FileStorageLimits) (system : System) (action : Action) (system' : System) : Prop :=
  ∃ entries, Change limits system action system'.tables entries ∧ system'.ledger = system.ledger ++ entries

theorem Follows.same (htables : system'.tables = system.tables) (hledger : system'.ledger = system.ledger) :
    Follows limits system action system' :=
  ⟨[], htables ▸ .same, by rw [hledger, List.append_nil]⟩

theorem Follows.of_objects {objects : ExtTreeMap String StoredObject} {late : List ObjectEffect}
    (h : system' = { system with objects, late }) : Follows limits system action system' :=
  .same (by rw [h]) (by rw [h])

/-- A change that appends nothing. -/
theorem Follows.silent (hbounded : system.tables.Bounded) (hchange : Change limits system action tables [])
    (houtbox : ∀ (sequence : Nat) (row : UsageRow), tables.usage_outbox[sequence]? = some row →
      system.tables.usage_outbox[sequence]? = some row) :
    Follows limits system action (system.set_tables file_id tables) := by
  refine ⟨[], hchange, ?_⟩
  rw [System.set_tables, appended_eq_nil hbounded houtbox]

/-- A change that appends one event. -/
theorem Follows.append {row : UsageRow} (hbounded : system.tables.Bounded)
    (hchange : Change limits system action (tables.append_usage row)
      [⟨file_id, system.tables.last_sequence + 1, row⟩]) (houtbox : tables.usage_outbox = system.tables.usage_outbox)
    (hlast : tables.last_sequence = system.tables.last_sequence) :
    Follows limits system action (system.set_tables file_id (tables.append_usage row)) :=
  ⟨_, hchange, congrArg (system.ledger ++ ·) (appended_append_usage hbounded houtbox hlast)⟩

/-- What every run of its body does, a statement or transaction does. -/
theorem Follows.of_transact {α : Type} {body : Sql α} (hbounded : system.tables.Bounded)
    (hruns : ∀ a tables, Runs body system.tables a tables →
      Follows limits system action (system.set_tables file_id tables)) :
    Follows limits system action (system.set_tables file_id (world.transact body system.tables).2) := by
  rcases transact_state body world.faults world.outcome system.tables with hsame | ⟨a, h⟩
  · rw [World.transact, hsame]
    exact .silent hbounded .same fun _ _ hrow => hrow
  · exact hruns a _ h

/-- Object operations leave everything but the objects alone. -/
theorem System.delete_object_frame (outcome : DeleteOutcome) (file_id : String) :
    ∃ objects late, (system.delete_object outcome file_id).2 = { system with objects, late } := by
  cases outcome <;> exact ⟨_, _, rfl⟩

theorem System.put_object_frame (sha256 : List UInt8 → Sha256Digest) (outcome : PutOutcome) (row : UploadRow)
    (stream : FileUploadStream) :
    ∃ objects late, (system.put_object sha256 outcome row stream).2 = { system with objects, late } := by
  unfold System.put_object
  split
  · exact ⟨_, _, rfl⟩
  · split <;> exact ⟨_, _, rfl⟩

/-- Deletions touch the metadata only at their last step. -/
theorem Follows.delete_step (hbounded : system.tables.Bounded) {task : Task} (htask : system.Running task) :
    Follows limits system action (system.delete_step world task).2 := by
  cases task with
  | Inspecting file_id | Selecting file_id =>
    rw [System.delete_step]
    split <;> exact .same rfl rfl
  | Removing file_id size =>
    obtain ⟨objects, late, hframe⟩ := system.delete_object_frame world.delete file_id
    rw [System.delete_step]
    split <;> rename_i hdelete <;> rw [hdelete] at hframe <;> exact .of_objects hframe
  | Recording file_id size =>
    rw [System.delete_step]
    split
    · exact .same rfl rfl
    · refine Follows.of_transact hbounded fun _ tables hruns => ?_
      obtain ⟨file, hfile, hstate, rfl⟩ := record_delete_runs hruns
      exact .append hbounded (.record htask hfile hstate) rfl rfl
  | _ => exact .same rfl rfl

/-- What a step of a task does to the metadata. -/
theorem Follows.task_step (hbounded : system.tables.Bounded) (hserving : system.mode = .Serving) {id : Nat} {task : Task}
    (htask : system.tasks[id]? = some task) :
    Follows limits system (.Step id world) (system.task_step limits sha256 world task).2 := by
  cases task with
  | Claiming row stream =>
    have hclaim : Follows limits system (.Step id world)
        (system.set_tables row.file_id (world.transact (claim_upload row.upload_id) system.tables).2) := by
      refine .of_transact hbounded fun _ tables hruns => ?_
      obtain ⟨upload, hupload, hstate, rfl⟩ := claim_upload_runs hruns
      exact .silent hbounded (.claim htask hupload hstate) fun _ _ hrow => hrow
    rw [System.task_step]
    split <;> rename_i hresult <;> rwa [hresult] at hclaim
  | Putting row stream =>
    obtain ⟨objects, late, hframe⟩ := system.put_object_frame sha256 world.put row stream
    exact .of_objects hframe
  | Completing row size digest e_tag version =>
    rw [System.task_step]
    split
    · rename_i now _
      refine Follows.of_transact hbounded fun _ tables hruns => ?_
      obtain ⟨upload, hfresh, hupload, hstate, rfl⟩ := complete_upload_runs hruns
      exact .append hbounded (.complete rfl hserving htask hfresh hupload hstate) rfl rfl
    · exact .same rfl rfl
  | Cleaning row =>
    obtain ⟨objects, late, hframe⟩ := system.delete_object_frame world.delete row.file_id
    rw [System.task_step]
    split <;> rename_i hdelete <;> rw [hdelete] at hframe <;> exact .of_objects hframe
  | Failing upload_id =>
    refine Follows.of_transact hbounded fun _ tables hruns => ?_
    rcases fail_upload_runs hruns with rfl | ⟨upload, hupload, hstate, rfl⟩
    · exact .silent hbounded .same fun _ _ hrow => hrow
    · exact .silent hbounded (.fail hupload hstate) fun _ _ hrow => hrow
  | Acknowledging through_sequence =>
    refine Follows.of_transact hbounded fun _ tables hruns => ?_
    obtain rfl := hruns.execute
    refine .silent hbounded (.acknowledge rfl htask) fun sequence row hrow => ?_
    rw [purge_usage, ExtTreeMap.getElem?_filter'] at hrow
    exact (Option.filter_eq_some_iff.mp hrow).1
  | Inspecting file_id | Selecting file_id | Removing file_id size | Recording file_id size =>
    exact .delete_step hbounded (.inl ⟨id, htask⟩)

theorem Follows.startup_sql {body : Sql Unit} {next : Startup}
    (h : Follows limits system action (system.set_tables "" (world.transact body system.tables).2)) :
    Follows limits system action (system.startup_sql world body next) := by
  unfold System.startup_sql
  split <;> rename_i hresult <;> rw [hresult] at h <;> exact h

/-- What a step of the reconciliation does to the metadata. -/
theorem Follows.startup_step (hbounded : system.tables.Bounded) {startup : Startup}
    (hmode : system.mode = .Starting startup) : Follows limits system action (system.startup_step world startup) := by
  cases startup with
  | Expire =>
    rw [System.startup_step]
    split
    · refine .startup_sql (.of_transact hbounded fun _ tables hruns => ?_)
      obtain rfl := hruns.execute
      exact .silent hbounded (.expire _) fun _ _ hrow => hrow
    · exact .same rfl rfl
  | PurgeUploads now =>
    refine .startup_sql (.of_transact hbounded fun _ tables hruns => ?_)
    obtain rfl := hruns.execute
    exact .silent hbounded (.purge_uploads now) fun _ _ hrow => hrow
  | PurgeFiles =>
    refine .startup_sql (.of_transact hbounded fun _ tables hruns => ?_)
    obtain rfl := hruns.execute
    exact .silent hbounded .purge_files fun _ _ hrow => hrow
  | SelectInterrupted | SelectDeleting =>
    rw [System.startup_step]
    split <;> exact .same rfl rfl
  | DeleteInterrupted file_id file_ids =>
    obtain ⟨objects, late, hframe⟩ := system.delete_object_frame world.delete file_id
    rw [System.startup_step]
    split <;> rename_i hdelete <;> rw [hdelete] at hframe <;>
      exact .same (congrArg System.tables hframe :) (congrArg System.ledger hframe :)
  | FailInterrupted file_id file_ids =>
    refine .startup_sql (.of_transact hbounded fun _ tables hruns => ?_)
    obtain rfl := hruns.execute
    exact .silent hbounded (.interrupted file_id) fun _ _ hrow => hrow
  | Finish task file_ids =>
    have hstep : Follows limits system action (system.delete_step world task).2 :=
      .delete_step hbounded (.inr ⟨file_ids, hmode⟩)
    rw [System.startup_step]
    split <;> rename_i hresult <;> rw [hresult] at hstep <;> exact hstep

theorem Follows.reserve (hbounded : system.tables.Bounded) (hserving : system.mode = .Serving)
    {upload_id file_id : String} {request : FileUploadGrantRequest} (hunused : system.Unused upload_id file_id) :
    Follows limits system (.Reserve world upload_id file_id request)
      (system.reserve limits world upload_id file_id request) := by
  unfold System.reserve
  split
  · exact .same rfl rfl
  · rename_i row now expires hrow
    refine Follows.of_transact hbounded fun _ tables hruns => ?_
    obtain ⟨upload, hfile, hstate, hmax, hcount, hfit, rfl⟩ := reserve_inner_runs hruns
    obtain ⟨rfl, rfl, hbytes, hclock⟩ : row.upload_id = upload_id ∧ row.file_id = file_id ∧
        row.max_bytes ≤ limits.file_bytes ∧ world.clock = .ok now := by
      clear hruns
      obtain ⟨hrange, hrow⟩ := fallible.ite_error_eq_ok_iff.mp hrow
      obtain ⟨content_type, _, hrow⟩ := fallible.bind_eq_ok_iff.mp hrow
      obtain ⟨_, hclock, hrow⟩ := fallible.bind_eq_ok_iff.mp hrow
      split at hrow
      · cases hrow
      · obtain ⟨rfl, hrest⟩ := Prod.mk.inj (Except.ok.inj hrow)
        cases hrest
        exact ⟨rfl, rfl, Nat.le_of_not_gt fun hlarge => hrange (.inr hlarge), hclock⟩
    refine .silent hbounded (.reserve rfl hserving hunused ?_ hclock hfile hstate (hmax ▸ hbytes) hcount hfit)
      fun _ _ hrow => hrow
    rw [hrow]
    rfl

/-- What a request does to the metadata. -/
theorem Follows.request (hbounded : system.tables.Bounded) (hserving : system.mode = .Serving) (action : Action) :
    Follows limits system action (system.request limits action) := by
  cases action with
  | Reserve world upload_id file_id request =>
    rw [System.request]
    split
    · rename_i hunused
      exact .reserve hbounded hserving hunused
    · exact .same rfl rfl
  | Upload id world verified upload_id content_length content_type stream | Acknowledge id world through_sequence =>
    rw [System.request]
    split
    · exact .same rfl rfl
    · split <;> exact .same rfl rfl
  | Delete id world file_id =>
    have hmark : Follows limits system (.Delete id world file_id)
        (system.set_tables file_id (world.transact (mark_deleting file_id) system.tables).2) := by
      refine .of_transact hbounded fun changed tables hruns => ?_
      rcases mark_deleting_runs hruns with ⟨_, rfl⟩ | ⟨_, file, hfile, hstate, rfl⟩
      · exact .silent hbounded .same fun _ _ hrow => hrow
      · exact .silent hbounded (.mark hfile hstate) fun _ _ hrow => hrow
    rw [System.request]
    split
    · exact .same rfl rfl
    · split <;> rename_i hresult <;> rw [hresult] at hmark <;> exact hmark
  | _ => exact .same rfl rfl

/-- One step of the system changes the metadata in one of the ways of `Change`. -/
theorem step_follows (limits : FileStorageLimits) (sha256 : List UInt8 → Sha256Digest)
    (hbounded : system.tables.Bounded) (action : Action) :
    Follows limits system action (system.step limits sha256 action) := by
  unfold System.step
  split
  · rename_i id world hmode
    split
    · rename_i task htask
      exact .task_step hbounded hmode htask
    · exact .same rfl rfl
  · exact .same rfl rfl
  · split <;> exact .same rfl rfl
  · exact .same rfl rfl
  · exact .same rfl rfl
  · rename_i hmode
    exact .startup_step hbounded hmode
  · rename_i hmode
    exact .request hbounded hmode _
  · exact .same rfl rfl

end

/-- A step of `delete` and `finish_delete` that follows another one. -/
inductive DeleteSpawned (system : System) : Option Task → Task → Prop
  | inspecting {old : Option Task} {file_id : String} : DeleteSpawned system old (.Inspecting file_id)
  | selecting {old : Option Task} {file_id : String} : DeleteSpawned system old (.Selecting file_id)
  | removing {file_id : String} {file : FileRecord} (hfile : system.tables.files[file_id]? = some file)
    (hstate : file.state = .deleting) :
    DeleteSpawned system (some (.Selecting file_id)) (.Removing file_id file.size_bytes)
  | recording {file_id : String} {size : Nat} :
    DeleteSpawned system (some (.Removing file_id size)) (.Recording file_id size)

/-- The step that a request has come to: from which one, and why. -/
inductive Spawned (sha256 : List UInt8 → Sha256Digest) (system system' : System) : Option Task → Task → Prop
  | claiming {row : UploadRow} {stream : FileUploadStream} {upload : UploadRecord}
    (hupload : system.tables.uploads[row.upload_id]? = some upload) (hfile : row.file_id = upload.file_id)
    (hmax : row.max_bytes = upload.max_bytes) : Spawned sha256 system system' none (.Claiming row stream)
  | putting {row : UploadRow} {stream : FileUploadStream} {upload : UploadRecord}
    (hupload : system.tables.uploads[row.upload_id]? = some upload) (hstate : upload.state = .reserved)
    (htables : system'.tables = system.tables.put_upload row.upload_id { upload with state := .uploading }) :
    Spawned sha256 system system' (some (.Claiming row stream)) (.Putting row stream)
  | completing {row : UploadRow} {stream : FileUploadStream} {bytes : List UInt8} {e_tag : String}
    {version : Option String} (hbytes : read_stream row.max_bytes [] stream = .ok bytes)
    (hobjects : system'.objects = system.objects.insert row.file_id ⟨bytes, some e_tag, version⟩) :
    Spawned sha256 system system' (some (.Putting row stream))
      (.Completing row bytes.length (sha256 bytes) e_tag version)
  | cleaning {old : Task} {row : UploadRow}
    (hold : (∃ stream, old = .Putting row stream) ∨ ∃ size digest e_tag version,
      old = .Completing row size digest e_tag version) : Spawned sha256 system system' (some old) (.Cleaning row)
  | failing {row : UploadRow} : Spawned sha256 system system' (some (.Cleaning row)) (.Failing row.upload_id)
  | deletes {old : Option Task} {task : Task} (h : DeleteSpawned system old task) :
    Spawned sha256 system system' old task
  | acknowledging {through_sequence : Nat} : Spawned sha256 system system' none (.Acknowledging through_sequence)

section
variable {limits : FileStorageLimits} {sha256 : List UInt8 → Sha256Digest} {system system' : System} {action : Action}
  {world : World}

/-- A statement or transaction that reports success ran its body. -/
theorem World.transact_eq_ok {α : Type} {body : Sql α} {tables tables' : FileTables} {a : α}
    (h : world.transact body tables = (.ok a, tables')) : Runs body tables a tables' :=
  runs_of_transact_eq_ok h

theorem World.transact_fst_eq_ok {α : Type} {body : Sql α} {tables : FileTables} {a : α}
    (h : (world.transact body tables).1 = .ok a) : Runs body tables a (world.transact body tables).2 :=
  runs_of_transact_eq_ok (Prod.ext h rfl)

theorem System.delete_step_spawned {task next : Task}
    (h : (system.delete_step world task).1 = .ok (some next)) : DeleteSpawned system (some task) next := by
  cases task with
  | Inspecting file_id =>
    rw [System.delete_step] at h
    split at h
    · rename_i file _
      unfold after_inspect at h
      split at h
      · cases h
      · split at h
        · cases h
        · cases Except.ok.inj h
          exact .selecting
        · cases h
    · cases h
  | Selecting file_id =>
    rw [System.delete_step] at h
    split at h
    · rename_i size hselect
      obtain ⟨file, hfile, hstate, rfl⟩ := select_deleting_runs (World.transact_fst_eq_ok hselect)
      cases Except.ok.inj h
      exact .removing hfile hstate
    · cases h
  | Removing file_id size =>
    rw [System.delete_step] at h
    split at h
    · cases Except.ok.inj h
      exact .recording
    · cases h
  | Recording file_id size =>
    rw [System.delete_step] at h
    split at h
    · cases h
    · rename_i now _
      change Except.map (fun _ => none) (world.transact (record_delete now world.event_id file_id size)
        system.tables).1 = _ at h
      cases hresult : (world.transact (record_delete now world.event_id file_id size) system.tables).1 <;>
        rw [hresult] at h <;> cases h
  | _ => cases h

variable {task : Task}

theorem Progress.of_next {progress : Progress} (h : progress.next = some task) : progress = .ok (some task) := by
  cases progress with
  | error error => cases h
  | ok next => exact congrArg Except.ok h

/-- The next step of a request follows from the one it was at. -/
theorem System.task_step_spawned {task next : Task} {system' : System}
    (h : system.task_step limits sha256 world task = (some next, system')) :
    Spawned sha256 system system' (some task) next := by
  cases task with
  | Claiming row stream =>
    rw [System.task_step] at h
    split at h
    · rename_i hclaim
      obtain ⟨hnext, rfl⟩ := Prod.mk.inj h
      cases hnext
      obtain ⟨upload, hupload, hstate, htables⟩ := claim_upload_runs (World.transact_eq_ok hclaim)
      exact .putting hupload hstate htables
    · cases (Prod.mk.inj h).1
  | Putting row stream =>
    change ((some (system.put_object sha256 world.put row stream).1 : Option Task), _) = _ at h
    obtain ⟨hnext, rfl⟩ := Prod.mk.inj h
    cases hnext
    unfold System.put_object
    split
    · exact .cleaning (.inl ⟨stream, rfl⟩)
    · rename_i bytes hbytes
      split
      · rename_i e_tag version _
        unfold after_put
        split
        · exact .cleaning (.inl ⟨stream, rfl⟩)
        · split
          · exact .cleaning (.inl ⟨stream, rfl⟩)
          · exact .completing hbytes rfl
      · exact .cleaning (.inl ⟨stream, rfl⟩)
  | Completing row size digest e_tag version =>
    rw [System.task_step] at h
    split at h
    · rename_i now _
      change (after_complete row (world.transact (complete_upload limits now world.event_id row size digest e_tag version)
        system.tables).1, _) = _ at h
      have hnext := (Prod.mk.inj h).1
      unfold after_complete at hnext
      split at hnext
      · cases hnext
      · cases hnext
        exact .cleaning (.inr ⟨size, digest, e_tag, version, rfl⟩)
    · obtain rfl := Option.some.inj (Prod.mk.inj h).1
      exact .cleaning (.inr ⟨size, digest, e_tag, version, rfl⟩)
  | Cleaning row =>
    rw [System.task_step] at h
    split at h
    · obtain rfl := Option.some.inj (Prod.mk.inj h).1
      exact .failing
    · cases (Prod.mk.inj h).1
  | Failing upload_id | Acknowledging through_sequence => cases (Prod.mk.inj h).1
  | Inspecting file_id | Selecting file_id | Removing file_id size | Recording file_id size =>
    exact .deletes (System.delete_step_spawned (Progress.of_next (Prod.mk.inj h).1))

theorem System.begin_upload_eq_ok {verified : Except FileStorageError Unit} {upload_id : String}
    {content_length : Option Nat} {content_type : Option String} {row : UploadRow}
    (h : system.begin_upload limits world verified upload_id content_length content_type = .ok row) :
    ∃ upload, system.tables.uploads[row.upload_id]? = some upload ∧ row.file_id = upload.file_id ∧
      row.max_bytes = upload.max_bytes := by
  obtain ⟨_, _, h⟩ := fallible.bind_eq_ok_iff.mp h
  obtain ⟨_, h⟩ := fallible.ite_error_eq_ok_iff.mp h
  obtain ⟨now, _, h⟩ := fallible.bind_eq_ok_iff.mp h
  obtain ⟨found, hfound, h⟩ := fallible.bind_eq_ok_iff.mp h
  have hfound : found = system.tables.uploads[upload_id]? := by
    have hfetch := (World.transact_fst_eq_ok hfound).statement
    exact (Prod.mk.inj (Except.ok.inj hfetch)).1.symm
  split at h
  · cases h
  · rename_i upload _
    obtain ⟨_, h⟩ := fallible.ite_error_eq_ok_iff.mp h
    obtain ⟨_, h⟩ := fallible.ite_error_eq_ok_iff.mp h
    obtain ⟨_, _, h⟩ := fallible.bind_eq_ok_iff.mp h
    obtain ⟨_, h⟩ := fallible.ite_error_eq_ok_iff.mp h
    cases h
    exact ⟨upload, hfound.symm, rfl, rfl⟩

/-- A step moves at most one request. -/
def Moves (sha256 : List UInt8 → Sha256Digest) (system system' : System) : Prop :=
  ∃ moved : Nat,
    (∀ (id : Nat) (task : Task), id ≠ moved → system'.tasks[id]? = some task → system.tasks[id]? = some task) ∧
    ∀ task, system'.tasks[moved]? = some task →
      system.tasks[moved]? = some task ∨ Spawned sha256 system system' system.tasks[moved]? task

theorem Moves.same (h : ∀ (id : Nat) (task : Task), system'.tasks[id]? = some task → system.tasks[id]? = some task) :
    Moves sha256 system system' :=
  ⟨0, fun id task _ => h id task, fun task htask => .inl (h 0 task htask)⟩

theorem Moves.put_task {middle : System} {id : Nat} {next : Option Task} (hmiddle : middle.tasks = system.tasks)
    (h : ∀ task, next = some task → Spawned sha256 system (middle.put_task id next) system.tasks[id]? task) :
    Moves sha256 system (middle.put_task id next) := by
  refine ⟨id, fun other task hother htask => ?_, fun task htask => ?_⟩
  · rw [System.put_task, hmiddle, ordered_map.getElem?_write, if_neg (Ne.symm hother)] at htask
    exact htask
  · have hnext : next = some task := by
      rw [System.put_task, ordered_map.getElem?_write, if_pos rfl] at htask
      exact htask
    exact .inr (h task hnext)

theorem System.delete_step_frame (world : World) (task : Task) : ∃ tables objects late ledger,
    (system.delete_step world task).2 = { system with tables, objects, late, ledger } := by
  cases task with
  | Inspecting file_id | Selecting file_id | Recording file_id size =>
    rw [System.delete_step]
    split <;> exact ⟨_, _, _, _, rfl⟩
  | Removing file_id size =>
    obtain ⟨objects, late, hframe⟩ := system.delete_object_frame world.delete file_id
    rw [System.delete_step]
    split <;> rename_i hresult <;> rw [hresult] at hframe <;> exact ⟨_, _, _, _, hframe⟩
  | _ => exact ⟨_, _, _, _, rfl⟩

/-- A step of a request leaves the other requests, the mode and the identifiers alone. -/
theorem System.task_step_frame (limits : FileStorageLimits) (sha256 : List UInt8 → Sha256Digest) (world : World)
    (task : Task) : ∃ tables objects late ledger,
      (system.task_step limits sha256 world task).2 = { system with tables, objects, late, ledger } := by
  cases task with
  | Claiming row stream | Completing row size digest e_tag version =>
    rw [System.task_step]
    split <;> exact ⟨_, _, _, _, rfl⟩
  | Putting row stream =>
    obtain ⟨objects, late, hframe⟩ := system.put_object_frame sha256 world.put row stream
    exact ⟨_, _, _, _, hframe⟩
  | Cleaning row =>
    obtain ⟨objects, late, hframe⟩ := system.delete_object_frame world.delete row.file_id
    rw [System.task_step]
    split <;> rename_i hresult <;> rw [hresult] at hframe <;> exact ⟨_, _, _, _, hframe⟩
  | Failing upload_id | Acknowledging through_sequence => exact ⟨_, _, _, _, rfl⟩
  | Inspecting file_id => exact system.delete_step_frame world (.Inspecting file_id)
  | Selecting file_id => exact system.delete_step_frame world (.Selecting file_id)
  | Removing file_id size => exact system.delete_step_frame world (.Removing file_id size)
  | Recording file_id size => exact system.delete_step_frame world (.Recording file_id size)

/-- The state a request leaves does not depend on which request is put back. -/
theorem Spawned.put_task {old : Option Task} {id : Nat} {next : Option Task}
    (h : Spawned sha256 system system' old task) : Spawned sha256 system (system'.put_task id next) old task := by
  cases h with
  | claiming hupload hfile hmax => exact .claiming hupload hfile hmax
  | putting hupload hstate htables => exact .putting hupload hstate htables
  | completing hbytes hobjects => exact .completing hbytes hobjects
  | cleaning hold => exact .cleaning hold
  | failing => exact .failing
  | deletes h => exact .deletes h
  | acknowledging => exact .acknowledging

/-- The tasks that a request starts. -/
theorem Moves.request (action : Action) : Moves sha256 system (system.request limits action) := by
  cases action with
  | Reserve world upload_id file_id request =>
    refine .same fun id task htask => ?_
    rw [System.request] at htask
    split at htask
    · unfold System.reserve at htask
      split at htask <;> exact htask
    · exact htask
  | Upload id world verified upload_id content_length content_type stream =>
    rw [System.request]
    split
    · exact .same fun _ _ htask => htask
    · rename_i hfree
      split
      · rename_i row hbegin
        refine .put_task rfl fun task htask => ?_
        cases htask
        obtain ⟨upload, hupload, hfile, hmax⟩ := System.begin_upload_eq_ok hbegin
        rw [ExtTreeMap.getElem?_eq_none hfree]
        exact .claiming hupload hfile hmax
      · exact .same fun _ _ htask => htask
  | Delete id world file_id =>
    rw [System.request]
    split
    · exact .same fun _ _ htask => htask
    · split
      · refine .put_task rfl fun task htask => ?_
        cases htask
        exact .deletes .inspecting
      · refine .put_task rfl fun task htask => ?_
        cases htask
        exact .deletes .selecting
      · exact .same fun _ _ htask => htask
  | Acknowledge id world through_sequence =>
    rw [System.request]
    split
    · exact .same fun _ _ htask => htask
    · rename_i hfree
      split
      · refine .put_task rfl fun task htask => ?_
        cases htask
        rw [ExtTreeMap.getElem?_eq_none hfree]
        exact .acknowledging
      · exact .same fun _ _ htask => htask
  | _ => exact .same fun _ _ htask => htask

theorem System.startup_sql_frame (world : World) (body : Sql Unit) (next : Startup) :
    (system.startup_sql world body next).tasks = system.tasks ∧
      (system.startup_sql world body next).grants = system.grants ∧
      ((system.startup_sql world body next).mode = .Starting next ∨
        (system.startup_sql world body next).mode = .Down) := by
  unfold System.startup_sql
  split
  · exact ⟨rfl, rfl, .inl rfl⟩
  · exact ⟨rfl, rfl, .inr rfl⟩

/-- A start comes to a deletion from the step before. -/
def Startup.Reaches (system : System) (startup : Startup) (mode : Mode) : Prop :=
  ∀ task file_ids, mode = .Starting (.Finish task file_ids) → ∃ old, DeleteSpawned system old task ∧
    ∀ before, old = some before → ∃ ids, startup = .Finish before ids

theorem Startup.Reaches.of_sql {body : Sql Unit} {startup next : Startup}
    (hnext : ∀ task file_ids, next ≠ .Finish task file_ids) :
    startup.Reaches system (system.startup_sql world body next).mode := by
  intro task file_ids hmode
  rcases (system.startup_sql_frame world body next).2.2 with hstarting | hdown
  · rw [hstarting, Mode.Starting.injEq] at hmode
    exact absurd hmode (hnext task file_ids)
  · cases hdown.symm.trans hmode

/-- The start leaves the requests and the identifiers alone. -/
theorem System.startup_step_frame (world : World) (startup : Startup) :
    (system.startup_step world startup).tasks = system.tasks ∧
      (system.startup_step world startup).grants = system.grants ∧
      startup.Reaches system (system.startup_step world startup).mode := by
  cases startup with
  | Expire =>
    rw [System.startup_step]
    split
    · obtain ⟨htasks, hgrants, _⟩ := system.startup_sql_frame world (execute (expire_uploads _)) _
      exact ⟨htasks, hgrants, .of_sql nofun⟩
    · exact ⟨rfl, rfl, nofun⟩
  | PurgeUploads now =>
    obtain ⟨htasks, hgrants, _⟩ := system.startup_sql_frame world (execute (purge_uploads now)) .PurgeFiles
    exact ⟨htasks, hgrants, .of_sql nofun⟩
  | PurgeFiles =>
    obtain ⟨htasks, hgrants, _⟩ := system.startup_sql_frame world (execute purge_files) .SelectInterrupted
    exact ⟨htasks, hgrants, .of_sql nofun⟩
  | SelectInterrupted =>
    rw [System.startup_step]
    split <;> exact ⟨rfl, rfl, nofun⟩
  | DeleteInterrupted file_id file_ids =>
    obtain ⟨objects, late, hframe⟩ := system.delete_object_frame world.delete file_id
    rw [System.startup_step]
    split <;> rename_i hresult <;> rw [hresult] at hframe <;>
      exact ⟨(congrArg System.tasks hframe :), (congrArg System.grants hframe :), nofun⟩
  | FailInterrupted file_id file_ids =>
    obtain ⟨htasks, hgrants, _⟩ :=
      system.startup_sql_frame world (fail_interrupted file_id) (.interrupted file_ids)
    refine ⟨htasks, hgrants, .of_sql fun task ids hnext => ?_⟩
    cases file_ids <;> cases hnext
  | SelectDeleting =>
    rw [System.startup_step]
    split
    · exact ⟨rfl, rfl, nofun⟩
    · refine ⟨rfl, rfl, fun task ids hmode => ⟨none, ?_, nofun⟩⟩
      cases hmode
      exact .selecting
    · exact ⟨rfl, rfl, nofun⟩
  | Finish task file_ids =>
    obtain ⟨tables, objects, late, ledger, hframe⟩ := system.delete_step_frame world task
    rw [System.startup_step]
    split <;> rename_i hresult <;> rw [hresult] at hframe <;>
      refine ⟨(congrArg System.tasks hframe :), (congrArg System.grants hframe :), fun next ids hmode => ?_⟩
    · cases hmode
      refine ⟨some task, System.delete_step_spawned (congrArg Prod.fst hresult), fun before hbefore => ⟨file_ids, ?_⟩⟩
      rw [Option.some.inj hbefore]
    · cases file_ids with
      | nil => cases hmode
      | cons file_id file_ids =>
        cases hmode
        exact ⟨none, .selecting, nofun⟩
    · cases hmode

/-- A step brings at most one request to a new step, and for a reason. -/
theorem step_moves (limits : FileStorageLimits) (sha256 : List UInt8 → Sha256Digest) (system : System)
    (action : Action) : Moves sha256 system (system.step limits sha256 action) := by
  unfold System.step
  split
  · rename_i id world _
    split
    · rename_i task htask
      obtain ⟨tables, objects, late, ledger, hframe⟩ := system.task_step_frame limits sha256 world task
      cases hstep : system.task_step limits sha256 world task with
      | mk next middle =>
        rw [hstep] at hframe
        refine .put_task (congrArg System.tasks hframe :) fun moved hmoved => ?_
        rw [htask, hmoved]
        exact (System.task_step_spawned (hmoved ▸ hstep)).put_task
    · exact .same fun _ _ htask => htask
  · exact .put_task rfl nofun
  · split <;> exact .same fun _ _ htask => htask
  · exact .same fun id task htask => by simp at htask
  · exact .same fun _ _ htask => htask
  · rename_i world startup _
    obtain ⟨htasks, _, _⟩ := system.startup_step_frame world startup
    exact .same fun _ _ htask => by rwa [htasks] at htask
  · exact .request _
  · exact .same fun _ _ htask => htask

theorem System.request_grants (limits : FileStorageLimits) (action : Action) :
    (system.request limits action).grants = system.grants ∨
      ∃ world upload_id file_id request, action = .Reserve world upload_id file_id request ∧
        system.Unused upload_id file_id ∧
        (system.request limits action).grants = (upload_id, file_id) :: system.grants := by
  cases action with
  | Reserve world upload_id file_id request =>
    rw [System.request]
    split
    · rename_i hunused
      unfold System.reserve
      split
      · exact .inl rfl
      · exact .inr ⟨world, upload_id, file_id, request, rfl, hunused, rfl⟩
    · exact .inl rfl
  | Upload id world verified upload_id content_length content_type stream | Delete id world file_id
  | Acknowledge id world through_sequence =>
    rw [System.request]
    split
    · exact .inl rfl
    · split <;> exact .inl rfl
  | _ => exact .inl rfl

/-- A step uses up at most one pair of new identifiers. -/
theorem step_grants (limits : FileStorageLimits) (sha256 : List UInt8 → Sha256Digest) (system : System)
    (action : Action) : (system.step limits sha256 action).grants = system.grants ∨
      ∃ world upload_id file_id request, action = .Reserve world upload_id file_id request ∧
        system.mode = .Serving ∧ system.Unused upload_id file_id ∧
        (system.step limits sha256 action).grants = (upload_id, file_id) :: system.grants := by
  unfold System.step
  split
  · rename_i id world _
    split
    · rename_i task _
      obtain ⟨tables, objects, late, ledger, hframe⟩ := system.task_step_frame limits sha256 world task
      exact .inl (congrArg System.grants hframe :)
    · exact .inl rfl
  · exact .inl rfl
  · split <;> exact .inl rfl
  · exact .inl rfl
  · exact .inl rfl
  · rename_i world startup _
    exact .inl (system.startup_step_frame world startup).2.1
  · rename_i hmode
    rcases system.request_grants limits _ with hsame | ⟨world, upload_id, file_id, request, haction, hunused, hnew⟩
    · exact .inl hsame
    · exact .inr ⟨world, upload_id, file_id, request, haction, hmode, hunused, hnew⟩
  · exact .inl rfl

/-- Identifiers that were generated are used up. -/
theorem step_generated {upload_id file_id : String} {request : FileUploadGrantRequest}
    (hserving : system.mode = .Serving) (hunused : system.Unused upload_id file_id)
    (hgenerated : (reserve_row limits world.clock upload_id file_id request).isOk = true) :
    (system.step limits sha256 (.Reserve world upload_id file_id request)).grants =
      (upload_id, file_id) :: system.grants := by
  simp only [System.step, hserving, System.request, if_pos hunused, System.reserve]
  split
  · rename_i herror
    rw [herror] at hgenerated
    cases hgenerated
  · rfl

theorem System.request_mode (limits : FileStorageLimits) (action : Action) :
    (system.request limits action).mode = system.mode := by
  cases action with
  | Reserve world upload_id file_id request =>
    rw [System.request]
    split
    · unfold System.reserve
      split <;> rfl
    · rfl
  | Upload id world verified upload_id content_length content_type stream | Delete id world file_id
  | Acknowledge id world through_sequence =>
    rw [System.request]
    split
    · rfl
    · split <;> rfl
  | _ => rfl

/-- A deletion that the start is finishing was there before, or the start has come to it. -/
theorem step_finish {file_ids : List String}
    (h : (system.step limits sha256 action).mode = .Starting (.Finish task file_ids)) :
    system.mode = .Starting (.Finish task file_ids) ∨
      ∃ old, DeleteSpawned system old task ∧ ∀ before, old = some before → system.Running before := by
  unfold System.step at h
  split at h
  · rename_i id world hmode
    split at h
    · rename_i task' _
      obtain ⟨tables, objects, late, ledger, hframe⟩ := system.task_step_frame limits sha256 world task'
      have hserving : (system.task_step limits sha256 world task').2.mode = .Serving :=
        (congrArg System.mode hframe).trans hmode
      cases hserving.symm.trans h
    · exact .inl h
  · exact .inl h
  · split at h <;> exact .inl h
  · cases h
  · cases h
  · rename_i world startup hmode
    obtain ⟨old, hspawned, hold⟩ := (system.startup_step_frame world startup).2.2 task file_ids h
    refine .inr ⟨old, hspawned, fun before hbefore => ?_⟩
    obtain ⟨ids, rfl⟩ := hold before hbefore
    exact .inr ⟨ids, hmode⟩
  · rw [system.request_mode] at h
    exact .inl h
  · exact .inl h

end

end runku.file_storage
