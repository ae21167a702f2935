import Runku.FileStorage.Steps

namespace runku.file_storage

open Std (ExtTreeMap)
open runku.value (TimestampMicros)
open runku.data (Sha256Digest)

/-- An upload only ever changes its state, and never back to one that holds a reservation. -/
structure UploadRecord.Keeps (old new : UploadRecord) : Prop where
  file_id : new.file_id = old.file_id
  max_bytes : new.max_bytes = old.max_bytes
  holds : new.state.holds = true → old.state.holds = true
  reserved : new.state = .reserved → old.state = .reserved

theorem UploadRecord.Keeps.refl (upload : UploadRecord) : upload.Keeps upload := ⟨rfl, rfl, id, id⟩

/-- A file only ever changes its state, and never back to ready. -/
structure FileRecord.Keeps (old new : FileRecord) : Prop where
  size_bytes : new.size_bytes = old.size_bytes
  sha256 : new.sha256 = old.sha256
  backend_e_tag : new.backend_e_tag = old.backend_e_tag
  backend_version : new.backend_version = old.backend_version
  ready : new.state = .ready → old.state = .ready
  counted : new.state.counted = old.state.counted

section
variable {limits : FileStorageLimits} {system : System} {action : Action} {tables tables' : FileTables}
  {entries : List LedgerEntry}

variable {id : String} {now : TimestampMicros} {new : UploadRecord}

theorem expire_uploads_keeps (h : (expire_uploads now tables).uploads[id]? = some new) :
    ∃ old, tables.uploads[id]? = some old ∧ old.Keeps new := by
  rw [expire_uploads, ExtTreeMap.getElem?_map] at h
  obtain ⟨old, hold, rfl⟩ := Option.map_eq_some_iff.mp h
  refine ⟨old, hold, ?_⟩
  split
  · exact ⟨rfl, rfl, nofun, nofun⟩
  · exact .refl old

theorem purge_uploads_keeps {upload : UploadRecord}
    (h : (purge_uploads now tables).uploads[id]? = some upload) : tables.uploads[id]? = some upload := by
  rw [purge_uploads, ExtTreeMap.getElem?_filter'] at h
  exact (Option.filter_eq_some_iff.mp h).1

theorem purge_files_keeps {file_id : String} {file : FileRecord}
    (h : (purge_files tables).files[file_id]? = some file) : tables.files[file_id]? = some file := by
  rw [purge_files, ExtTreeMap.getElem?_filter'] at h
  exact (Option.filter_eq_some_iff.mp h).1

theorem purged_upload_keeps
    (h : (tables.purged now).uploads[id]? = some new) : ∃ old, tables.uploads[id]? = some old ∧ old.Keeps new :=
  expire_uploads_keeps (purge_uploads_keeps h)

theorem insert_state_keeps {id other : String} {old new : UploadRecord} {state : UploadState}
    (hold : tables.uploads[other]? = some old) (h : (tables.put_upload other { old with state }).uploads[id]? = some new)
    (hholds : state.holds = true → old.state.holds = true) (hreserved : state ≠ .reserved) :
    ∃ old, tables.uploads[id]? = some old ∧ old.Keeps new := by
  rw [FileTables.put_upload, ordered_map.getElem?_insert] at h
  split at h
  · rename_i heq
    subst heq
    cases h
    exact ⟨old, hold, rfl, rfl, hholds, fun h => absurd h hreserved⟩
  · exact ⟨new, h, .refl new⟩

/-- The upload is the one this step reserves. -/
structure Reserved (limits : FileStorageLimits) (system : System) (action : Action) (upload_id : String)
    (upload : UploadRecord) : Prop where
  generated : ∃ world request, action = .Reserve world upload_id upload.file_id request ∧
    (reserve_row limits world.clock upload_id upload.file_id request).isOk = true
  serving : system.mode = .Serving
  unused : system.Unused upload_id upload.file_id
  fits : upload.max_bytes ≤ limits.file_bytes

/-- Every upload after a step was there before it, or this step reserves it. -/
theorem Change.upload (h : Change limits system action tables' entries) (hnew : tables'.uploads[id]? = some new) :
    (∃ old, system.tables.uploads[id]? = some old ∧ old.Keeps new) ∨ Reserved limits system action id new := by
  cases h with
  | same | purge_files
  | mark hfile hstate | record htask hfile hstate | acknowledge haction htask => exact .inl ⟨new, hnew, .refl new⟩
  | expire now => exact .inl (expire_uploads_keeps hnew)
  | purge_uploads now => exact .inl ⟨new, purge_uploads_keeps hnew, .refl new⟩
  | @reserve world upload_id file_id request now upload haction hserving hunused hgenerated hclock hfile hstate hmax =>
    rw [FileTables.put_upload, ordered_map.getElem?_insert] at hnew
    split at hnew
    · rename_i heq
      subst heq hfile
      cases hnew
      exact .inr ⟨⟨world, request, haction, hgenerated⟩, hserving, hunused, hmax⟩
    · exact .inl (purged_upload_keeps hnew)
  | claim htask hupload hstate =>
    exact .inl (insert_state_keeps hupload hnew (fun _ => by rw [hstate]; rfl) nofun)
  | fail hupload hstate => exact .inl (insert_state_keeps hupload hnew nofun nofun)
  | interrupted file_id =>
    rw [fail_uploading, ExtTreeMap.getElem?_map] at hnew
    obtain ⟨old, hold, rfl⟩ := Option.map_eq_some_iff.mp hnew
    refine .inl ⟨old, hold, ?_⟩
    split
    · exact ⟨rfl, rfl, nofun, nofun⟩
    · exact .refl old
  | complete _ _ htask hfresh hupload hstate => exact .inl (insert_state_keeps hupload hnew nofun nofun)

/-- The file is the one this step completes. -/
structure Completed (system : System) (action : Action) (file_id : String) (file : FileRecord) : Prop where
  task : ∃ (id : Nat) (world : World) (row : UploadRow) (upload : UploadRecord), action = .Step id world ∧
    system.mode = .Serving ∧ row.file_id = file_id ∧
    system.tasks[id]? =
      some (.Completing row file.size_bytes file.sha256 file.backend_e_tag file.backend_version) ∧
    system.tables.uploads[row.upload_id]? = some upload ∧ upload.state = .uploading
  fresh : file_id ∉ system.tables.files
  state : file.state = .ready

/-- Every file after a step was there before it, or this step completes it. -/
theorem Change.file (h : Change limits system action tables' entries) {file_id : String} {new : FileRecord}
    (hnew : tables'.files[file_id]? = some new) :
    (∃ old, system.tables.files[file_id]? = some old ∧ old.Keeps new) ∨ Completed system action file_id new := by
  have hsame : ∀ {file : FileRecord}, file.Keeps file := ⟨rfl, rfl, rfl, rfl, id, rfl⟩
  cases h with
  | purge_files | reserve => exact .inl ⟨new, purge_files_keeps hnew, hsame⟩
  | complete haction hserving htask hfresh hupload hstate =>
    change (system.tables.files.insert _ _)[file_id]? = some new at hnew
    rw [ordered_map.getElem?_insert] at hnew
    split at hnew
    · rename_i heq
      subst heq
      cases hnew
      exact .inr ⟨⟨_, _, _, _, haction, hserving, rfl, htask, hupload, hstate⟩, hfresh, rfl⟩
    · exact .inl ⟨new, hnew, hsame⟩
  | mark hfile hstate =>
    rw [FileTables.put_file, ordered_map.getElem?_insert] at hnew
    split at hnew
    · rename_i heq
      subst heq
      cases hnew
      exact .inl ⟨_, hfile, rfl, rfl, rfl, rfl, nofun, by rw [hstate]; rfl⟩
    · exact .inl ⟨new, hnew, hsame⟩
  | record htask hfile hstate => exact .inl ⟨new, ordered_map.getElem?_of_erase hnew, hsame⟩
  | _ => exact .inl ⟨new, hnew, hsame⟩

end

/-- The upload that a request carries. -/
def Task.row : Task → Option UploadRow
  | .Claiming row _ | .Putting row _ | .Completing row _ _ _ _ | .Cleaning row => some row
  | _ => none

/-- Uploads and requests belong to grants, and no identifier to two of them. -/
structure Identified (system : System) : Prop where
  uploads_nodup : (system.grants.map Prod.fst).Nodup
  files_nodup : (system.grants.map Prod.snd).Nodup
  granted : ∀ (id : String) (upload : UploadRecord), system.tables.uploads[id]? = some upload →
    (id, upload.file_id) ∈ system.grants
  rows : ∀ (id : Nat) (task : Task) (row : UploadRow), system.tasks[id]? = some task → task.row = some row →
    (row.upload_id, row.file_id) ∈ system.grants ∧
    ∀ upload : UploadRecord, system.tables.uploads[row.upload_id]? = some upload → upload.max_bytes = row.max_bytes

section
variable {limits : FileStorageLimits} {sha256 : List UInt8 → Sha256Digest} {system : System} {action : Action}

variable {upload : UploadRecord}

theorem Identified.file_id (h : Identified system) {upload_id file_id : String}
    (hgrant : (upload_id, file_id) ∈ system.grants) (hupload : system.tables.uploads[upload_id]? = some upload) :
    upload.file_id = file_id :=
  congrArg Prod.snd (List.inj_on_of_nodup_map h.uploads_nodup (h.granted upload_id upload hupload) hgrant rfl)

theorem Identified.upload_id (h : Identified system) {upload_id other file_id : String}
    (hgrant : (upload_id, file_id) ∈ system.grants) (hother : (other, file_id) ∈ system.grants) : upload_id = other :=
  congrArg Prod.fst (List.inj_on_of_nodup_map h.files_nodup hgrant hother rfl)

theorem grants_subset (limits : FileStorageLimits) (sha256 : List UInt8 → Sha256Digest) (system : System)
    (action : Action) : system.grants ⊆ (system.step limits sha256 action).grants := by
  rcases step_grants limits sha256 system action with hsame | ⟨_, _, _, _, _, _, _, hnew⟩
  · rw [hsame]
    exact List.Subset.refl _
  · rw [hnew]
    exact List.subset_cons_self _ _

/-- A reserved upload is among the grants after the step. -/
theorem Reserved.granted {upload_id : String} (h : Reserved limits system action upload_id upload) :
    (upload_id, upload.file_id) ∈ (system.step limits sha256 action).grants := by
  obtain ⟨world, request, rfl, hgenerated⟩ := h.generated
  rw [step_generated h.serving h.unused hgenerated]
  exact List.mem_cons_self

/-- An identifier in use is not one that this step reserves. -/
theorem Reserved.ne {upload_id other file_id : String}
    (h : Reserved limits system action upload_id upload) (hother : (other, file_id) ∈ system.grants) :
    upload_id ≠ other ∧ upload.file_id ≠ file_id := by
  constructor
  · rintro rfl
    exact h.unused.1 (List.mem_map_of_mem hother)
  · rintro rfl
    exact h.unused.2 (List.mem_map_of_mem hother)

/-- A request that carries an upload got it from the row, or from the step before. -/
theorem Spawned.row {system' : System} {old : Option Task} {task : Task} {row : UploadRow}
    (h : Spawned sha256 system system' old task) (hrow : task.row = some row) :
    (∃ before, old = some before ∧ before.row = some row) ∨
      ∃ upload, system.tables.uploads[row.upload_id]? = some upload ∧ row.file_id = upload.file_id ∧
        row.max_bytes = upload.max_bytes := by
  cases h with
  | claiming hupload hfile hmax =>
    cases hrow
    exact .inr ⟨_, hupload, hfile, hmax⟩
  | putting | completing => exact .inl ⟨_, rfl, hrow⟩
  | cleaning hold =>
    cases hrow
    rcases hold with ⟨_, rfl⟩ | ⟨_, _, _, _, rfl⟩ <;> exact .inl ⟨_, rfl, rfl⟩
  | failing => cases hrow
  | deletes h => cases h <;> cases hrow
  | acknowledging => cases hrow

/-- Every step leaves uploads with their grants. -/
theorem Identified.step (h : Identified system) (hbounded : system.tables.Bounded) :
    Identified (system.step limits sha256 action) := by
  obtain ⟨entries, hchange, _⟩ := step_follows limits sha256 hbounded action
  have hgrants := grants_subset limits sha256 system action
  refine ⟨?_, ?_, fun id upload hupload => ?_, fun id task row htask hrow => ?_⟩
  · rcases step_grants limits sha256 system action with hsame | ⟨_, upload_id, file_id, _, _, _, hunused, hnew⟩
    · rw [hsame]
      exact h.uploads_nodup
    · rw [hnew, List.map_cons, List.nodup_cons]
      exact ⟨hunused.1, h.uploads_nodup⟩
  · rcases step_grants limits sha256 system action with hsame | ⟨_, upload_id, file_id, _, _, _, hunused, hnew⟩
    · rw [hsame]
      exact h.files_nodup
    · rw [hnew, List.map_cons, List.nodup_cons]
      exact ⟨hunused.2, h.files_nodup⟩
  · rcases hchange.upload hupload with ⟨old, hold, hkeeps⟩ | hreserved
    · rw [hkeeps.file_id]
      exact hgrants (h.granted id old hold)
    · exact hreserved.granted
  · -- The row was granted before the step, so no upload that the step reserves has its identifier.
    suffices hbefore : (row.upload_id, row.file_id) ∈ system.grants ∧
        ∀ upload : UploadRecord, system.tables.uploads[row.upload_id]? = some upload →
          upload.max_bytes = row.max_bytes by
      refine ⟨hgrants hbefore.1, fun upload hupload => ?_⟩
      rcases hchange.upload hupload with ⟨old, hold, hkeeps⟩ | hreserved
      · rw [hkeeps.max_bytes]
        exact hbefore.2 old hold
      · exact absurd rfl (hreserved.ne hbefore.1).1
    obtain ⟨moved, hothers, hmoved⟩ := step_moves limits sha256 system action
    by_cases hid : id = moved
    · subst hid
      rcases hmoved task htask with hold | hspawned
      · exact h.rows id task row hold hrow
      · rcases hspawned.row hrow with ⟨before, hbefore, hsame⟩ | ⟨upload, hupload, hfile, hmax⟩
        · exact h.rows id before row hbefore hsame
        · refine ⟨hfile ▸ h.granted _ upload hupload, fun other hother => ?_⟩
          rw [hmax, Option.some.inj (hother.symm.trans hupload)]
    · exact h.rows id task row (hothers id task hid htask) hrow

end

/-- The sum of a measure over the uploads that hold a reservation. -/
def FileTables.held (measure : UploadRecord → Nat) (tables : FileTables) : Nat :=
  ordered_map.total (fun _ upload => if upload.state.holds then measure upload else 0) tables.uploads

/-- The sum of a measure over the files that count against the limits. -/
def FileTables.counted (measure : FileRecord → Nat) (tables : FileTables) : Nat :=
  ordered_map.total (fun _ file => if file.state.counted then measure file else 0) tables.files

/-- The uploads that hold a reservation. -/
def FileTables.open_uploads (tables : FileTables) : Nat := tables.held fun _ => 1

section
variable {measure : UploadRecord → Nat} {size : FileRecord → Nat} {tables : FileTables} {now : TimestampMicros}

theorem held_expire_le (measure : UploadRecord → Nat) :
    (expire_uploads now tables).held measure ≤ tables.held measure := by
  rw [FileTables.held, expire_uploads, ordered_map.total_map]
  refine ordered_map.total_mono fun id upload _ => ?_
  split
  · split
    · rename_i hexpired hholds
      cases hholds
    · exact Nat.zero_le _
  · exact Nat.le_refl _

theorem held_purge (measure : UploadRecord → Nat) :
    (purge_uploads now tables).held measure = tables.held measure := by
  refine ordered_map.total_filter _ fun id upload _ hpurged => ?_
  cases hstate : upload.state <;> simp_all [UploadState.holds]

theorem counted_purge (size : FileRecord → Nat) : (purge_files tables).counted size = tables.counted size := by
  refine ordered_map.total_filter _ fun id file _ hpurged => ?_
  cases hstate : file.state <;> simp_all [FileState.counted]

/-- Moving an upload to another state. -/
theorem held_set_state {id : String} {upload : UploadRecord} {state : UploadState}
    (hupload : tables.uploads[id]? = some upload) (hmeasure : measure { upload with state } = measure upload) :
    (tables.put_upload id { upload with state }).held measure +
        (if upload.state.holds then measure upload else 0) =
      tables.held measure + if state.holds then measure upload else 0 := by
  rw [FileTables.held, FileTables.held, FileTables.put_upload, ordered_map.total_insert,
    ordered_map.total_eq_add_erase _ hupload, hmeasure]
  dsimp only
  omega

/-- Moving a file to another state. -/
theorem counted_set_state {file_id : String} {file : FileRecord} {state : FileState}
    (hfile : tables.files[file_id]? = some file) (hsize : size { file with state } = size file)
    (hcounted : state.counted = file.state.counted) :
    (tables.put_file file_id { file with state }).counted size = tables.counted size := by
  rw [FileTables.counted, FileTables.counted, FileTables.put_file, ordered_map.total_insert, ordered_map.total_eq_add_erase _ hfile, hsize, hcounted]

end

/-- A bound on files and reservations together, each weighed by a measure that does not depend on the state. -/
structure Weighed (limit : Nat) (size : FileRecord → Nat) (measure : UploadRecord → Nat) (tables : FileTables) : Prop where
  size_state : ∀ file state, size { file with state } = size file
  measure_state : ∀ upload state, measure { upload with state } = measure upload
  le : tables.counted size + tables.held measure ≤ limit

section
variable {limits : FileStorageLimits} {sha256 : List UInt8 → Sha256Digest} {system : System} {action : Action}
  {tables' : FileTables} {entries : List LedgerEntry} {limit : Nat} {size : FileRecord → Nat}
  {measure : UploadRecord → Nat}

/-- Only a reservation adds to the weight, if a completed file weighs no more than its reservation did. -/
theorem Weighed.change (h : Weighed limit size measure system.tables)
    (hchange : Change limits system action tables' entries)
    (hreserve : ∀ world upload_id file_id request now (upload : UploadRecord),
      action = .Reserve world upload_id file_id request → world.clock = .ok now →
      (system.tables.purged now).committed_bytes + (system.tables.purged now).reserved_bytes + upload.max_bytes ≤
        limits.environment_bytes →
      (system.tables.purged now).file_count < limits.maximum_files → system.mode = .Serving →
      tables'.uploads[upload_id]? = some upload → (system.tables.purged now).counted size +
        (measure upload + (system.tables.purged now).held measure) ≤ limit)
    (hcomplete : ∀ (id : Nat) row bytes digest e_tag version upload now,
      system.tasks[id]? = some (.Completing row bytes digest e_tag version) →
      system.tables.uploads[row.upload_id]? = some upload →
      size ⟨.ready, bytes, digest, row.content_type, now, e_tag, version⟩ ≤ measure upload) :
    Weighed limit size measure tables' := by
  refine ⟨h.size_state, h.measure_state, ?_⟩
  have hle := h.le
  cases hchange with
  | same => exact hle
  | expire now =>
    have hexpire : (expire_uploads now system.tables).held measure ≤ system.tables.held measure := held_expire_le measure
    change system.tables.counted size + (expire_uploads now system.tables).held measure ≤ limit
    omega
  | purge_uploads now =>
    change system.tables.counted size + (purge_uploads now system.tables).held measure ≤ limit
    rwa [held_purge]
  | purge_files =>
    change (purge_files system.tables).counted size + system.tables.held measure ≤ limit
    rwa [counted_purge]
  | @reserve world upload_id file_id request now upload haction hserving _ _ hclock hfile hstate _ hcount hfit =>
    have hroom := hreserve world upload_id file_id request now upload haction hclock hfit hcount hserving
      ExtTreeMap.getElem?_insert_self
    have herase := ordered_map.total_erase_le (fun _ upload => if upload.state.holds then measure upload else 0)
      (system.tables.purged now).uploads upload_id
    change (system.tables.purged now).counted size +
      ordered_map.total _ ((system.tables.purged now).uploads.insert upload_id upload) ≤ limit
    rw [ordered_map.total_insert, hstate]
    rw [if_pos (show UploadState.reserved.holds = true from rfl)]
    unfold FileTables.held at hroom
    omega
  | @claim id row stream upload htask hupload hstate =>
    have hset := @held_set_state measure system.tables _ _ .uploading hupload (h.measure_state _ _)
    rw [hstate, if_pos (show UploadState.reserved.holds = true from rfl),
      if_pos (show UploadState.uploading.holds = true from rfl)] at hset
    change system.tables.counted size +
      (system.tables.put_upload row.upload_id { upload with state := .uploading }).held measure ≤ limit
    omega
  | @fail upload_id upload hupload hstate =>
    have hset := @held_set_state measure system.tables _ _ .failed hupload (h.measure_state _ _)
    rw [if_neg (show ¬UploadState.failed.holds = true from nofun)] at hset
    change system.tables.counted size +
      (system.tables.put_upload upload_id { upload with state := .failed }).held measure ≤ limit
    omega
  | interrupted file_id =>
    refine Nat.le_trans (Nat.add_le_add_left ?_ _) hle
    change ordered_map.total _ (system.tables.uploads.map _) ≤ _
    rw [ordered_map.total_map]
    refine ordered_map.total_mono fun id upload _ => ?_
    split
    · exact Nat.zero_le _
    · exact Nat.le_refl _
  | @complete id row bytes digest e_tag version upload event_id now world _ _ htask hfresh hupload hstate =>
    have hweight := hcomplete id row bytes digest e_tag version upload now htask hupload
    have hset := @held_set_state measure system.tables _ _ .completed hupload (h.measure_state _ _)
    have herase := ordered_map.total_erase_le (fun _ file => if file.state.counted then size file else 0)
      system.tables.files row.file_id
    change ordered_map.total _ (system.tables.files.insert _ _) +
      (system.tables.put_upload row.upload_id { upload with state := .completed }).held measure ≤ limit
    rw [ordered_map.total_insert]
    rw [if_pos (show FileState.ready.counted = true from rfl)]
    rw [hstate, if_pos (show UploadState.uploading.holds = true from rfl),
      if_neg (show ¬UploadState.completed.holds = true from nofun)] at hset
    unfold FileTables.counted at hle
    omega
  | mark hfile hstate =>
    have hset := @counted_set_state size system.tables _ _ .deleting hfile (h.size_state _ _) (by rw [hstate]; rfl)
    change (system.tables.put_file _ _).counted size + system.tables.held measure ≤ limit
    rwa [hset]
  | @record file_id bytes file event_id now htask hfile hstate =>
    have herase := ordered_map.total_erase_le (fun _ file => if file.state.counted then size file else 0)
      system.tables.files file_id
    change ordered_map.total _ (system.tables.files.erase _) + system.tables.held measure ≤ limit
    unfold FileTables.counted at hle
    omega
  | acknowledge haction htask => exact hle

theorem Change.bounded (hbounded : system.tables.Bounded) (h : Change limits system action tables' entries) :
    tables'.Bounded := by
  have happend : ∀ {tables : FileTables} {row : UsageRow}, tables.Bounded → (tables.append_usage row).Bounded := by
    intro tables row htables sequence other hother
    rw [FileTables.append_usage, ordered_map.getElem?_insert] at hother
    split at hother
    · rename_i heq
      exact Nat.le_of_eq heq.symm
    · exact Nat.le_succ_of_le (htables sequence other hother)
  cases h with
  | complete | record => exact happend hbounded
  | acknowledge =>
    intro sequence row hrow
    rw [purge_usage, ExtTreeMap.getElem?_filter'] at hrow
    exact hbounded sequence row (Option.filter_eq_some_iff.mp hrow).1
  | _ => exact hbounded

/-- What every reachable state keeps about identifiers and sizes. -/
structure Within (limits : FileStorageLimits) (system : System) : Prop where
  bounded : system.tables.Bounded
  identified : Identified system
  weighed : Weighed limits.environment_bytes FileRecord.size_bytes UploadRecord.max_bytes system.tables
  uploads : ∀ (id : String) (upload : UploadRecord), system.tables.uploads[id]? = some upload →
    upload.max_bytes ≤ limits.file_bytes
  files : ∀ (file_id : String) (file : FileRecord), system.tables.files[file_id]? = some file →
    file.size_bytes ≤ limits.file_bytes
  sizes : ∀ (id : Nat) row size digest e_tag version,
    system.tasks[id]? = some (.Completing row size digest e_tag version) → size ≤ row.max_bytes

theorem Within.new (limits : FileStorageLimits) : Within limits .new where
  bounded sequence row hrow := by simp [System.new, FileTables.empty] at hrow
  identified := ⟨List.nodup_nil, List.nodup_nil, fun id upload h => by simp [System.new, FileTables.empty] at h,
    fun id task row h => by simp [System.new] at h⟩
  weighed := ⟨fun _ _ => rfl, fun _ _ => rfl, by
    simp [System.new, FileTables.empty, FileTables.counted, FileTables.held]⟩
  uploads id upload h := by simp [System.new, FileTables.empty] at h
  files id file h := by simp [System.new, FileTables.empty] at h
  sizes id row size digest e_tag version h := by simp [System.new] at h

/-- One step keeps the bytes within the limit. -/
theorem Within.step (h : Within limits system) (sha256 : List UInt8 → Sha256Digest) (action : Action) :
    Within limits (system.step limits sha256 action) := by
  obtain ⟨entries, hchange, _⟩ := step_follows limits sha256 h.bounded action
  have hreservation : ∀ (id : Nat) row size digest e_tag version (upload : UploadRecord),
      system.tasks[id]? = some (.Completing row size digest e_tag version) →
      system.tables.uploads[row.upload_id]? = some upload → size ≤ upload.max_bytes := by
    intro id row size digest e_tag version upload htask hupload
    rw [(h.identified.rows id _ row htask rfl).2 upload hupload]
    exact h.sizes id row size digest e_tag version htask
  refine ⟨hchange.bounded h.bounded, h.identified.step h.bounded, ?_, fun id upload hupload => ?_,
    fun file_id file hfile => ?_, fun id row size digest e_tag version htask => ?_⟩
  · refine h.weighed.change hchange (fun world upload_id file_id request now upload _ _ hfit _ _ _ => ?_)
      fun id row size digest e_tag version upload now => hreservation id row size digest e_tag version upload
    change (system.tables.purged now).committed_bytes +
      (upload.max_bytes + (system.tables.purged now).reserved_bytes) ≤ limits.environment_bytes
    omega
  · rcases hchange.upload hupload with ⟨old, hold, hkeeps⟩ | hreserved
    · rw [hkeeps.max_bytes]
      exact h.uploads id old hold
    · exact hreserved.fits
  · rcases hchange.file hfile with ⟨old, hold, hkeeps⟩ | hcompleted
    · rw [hkeeps.size_bytes]
      exact h.files file_id old hold
    · obtain ⟨id, _, row, upload, _, _, _, htask, hupload, _⟩ := hcompleted.task
      exact Nat.le_trans (hreservation id row _ _ _ _ upload htask hupload) (h.uploads _ upload hupload)
  · obtain ⟨moved, hothers, hmoved⟩ := step_moves limits sha256 system action
    by_cases hid : id = moved
    · subst hid
      rcases hmoved _ htask with hold | hspawned
      · exact h.sizes id row size digest e_tag version hold
      · generalize system.tasks[id]? = old at hspawned
        cases hspawned with
        | completing hbytes _ => exact read_stream_eq_ok hbytes (Nat.zero_le _)
        | deletes hdeletes => cases hdeletes
    · exact h.sizes id row size digest e_tag version (hothers id _ hid htask)

theorem Within.run (h : Within limits system) (sha256 : List UInt8 → Sha256Digest) (actions : List Action) :
    Within limits (machine.run (System.step limits sha256) system actions) := by
  induction actions generalizing system with
  | nil => exact h
  | cons action actions ih => exact ih (h.step sha256 action)

/-- Whatever requests, failures, crashes and restarts: the files that are ready or being deleted and the open
reservations never exceed the Environment's bytes together, and no file exceeds the bytes of one file. -/
theorem file_bytes_within (limits : FileStorageLimits) (sha256 : List UInt8 → Sha256Digest) (actions : List Action) :
    let tables := (machine.run (System.step limits sha256) .new actions).tables
    tables.committed_bytes + tables.reserved_bytes ≤ limits.environment_bytes ∧
      ∀ (file_id : String) (file : FileRecord), tables.files[file_id]? = some file →
        file.size_bytes ≤ limits.file_bytes := by
  have hwithin := (Within.new limits).run sha256 actions
  exact ⟨hwithin.weighed.le, hwithin.files⟩

/-- When a grant is stored, the files and the reservations that are still open leave room for one more. -/
def leaves_room (limits : FileStorageLimits) (system : System) : Action → Bool
  | .Reserve world upload_id file_id request =>
    match system.mode, world.clock with
    | .Serving, .ok now =>
      -- a request that is refused or rolled back stores none
      (system.request limits (.Reserve world upload_id file_id request)).tables.uploads[upload_id]?.isNone ||
        (system.tables.purged now).file_count + (system.tables.purged now).open_uploads < limits.maximum_files
    | _, _ => true
  | _ => true

/-- A step that leaves room keeps the count within. -/
theorem Weighed.count_step (h : Weighed limits.maximum_files (fun _ => 1) (fun _ => 1) system.tables)
    (hbounded : system.tables.Bounded) (sha256 : List UInt8 → Sha256Digest)
    (hroom : leaves_room limits system action = true) :
    Weighed limits.maximum_files (fun _ => 1) (fun _ => 1) (system.step limits sha256 action).tables := by
  obtain ⟨entries, hchange, _⟩ := step_follows limits sha256 hbounded action
  refine h.change hchange (fun world upload_id file_id request now upload haction hclock _ _ hserving hstored => ?_)
    fun _ _ _ _ _ _ _ _ _ _ => Nat.le_refl 1
  subst haction
  simp only [System.step, hserving] at hstored
  simp only [leaves_room, hserving, hclock, hstored, Option.isNone_some, Bool.false_or, decide_eq_true_eq] at hroom
  change (system.tables.purged now).file_count + (1 + (system.tables.purged now).open_uploads) ≤ limits.maximum_files
  omega

/-- An Environment that may hold one file. -/
def one_file : FileStorageLimits where
  environment_bytes := 100
  file_bytes := 10
  concurrent_uploads := 4
  maximum_live_upload_grants := 4
  maximum_files := 1
  maximum_pending_usage_events := 10
  filesystem_minimum_free_bytes := 0
  upload_grant_ttl := 1000000

/-- A step in which nothing fails, at time zero. -/
def calm (event_id : String) : World where
  clock := .ok 0
  faults := []
  outcome := .Committed
  available := .ok none
  put := .Committed (some "tag") none
  delete := .Deleted
  event_id

/-- The service starts on an empty store. -/
def opening : List Action :=
  [.Start, .Startup (calm ""), .Startup (calm ""), .Startup (calm ""), .Startup (calm ""), .Startup (calm "")]

/-- One upload of one byte, from the grant on, as request `task`. -/
def uploading (task : Nat) (upload_id event_id : String) : List Action :=
  [.Upload task (calm "") (.ok ()) upload_id none none [.ok [1]], .Step task (calm ""), .Step task (calm ""),
    .Step task (calm event_id)]

def reserving (upload_id file_id : String) : Action := .Reserve (calm "") upload_id file_id ⟨1, none, none⟩

/-- An Environment that may hold two files. -/
def two_files : FileStorageLimits := { one_file with maximum_files := 2 }

/-- Two grants are open together and give the two files that are allowed; a third one is refused. -/
def two_grants : List Action :=
  opening ++ [reserving "u1" "f1", reserving "u2" "f2"] ++ uploading 1 "u1" "e1" ++ uploading 2 "u2" "e2" ++
    [reserving "u3" "f3"]

end

end runku.file_storage
