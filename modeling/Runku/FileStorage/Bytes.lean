import Runku.FileStorage.Ledger

namespace runku.file_storage

open Std (ExtTreeMap)
open runku.data (Sha256Digest)
open transaction

/-- A metadata commit that reports an error did not take effect. -/
def World.certain (world : World) : Bool :=
  match world.outcome with
  | .Failed _ true => false
  | _ => true

def Action.certain : Action → Bool
  | .Reserve world _ _ _ | .Upload _ world _ _ _ _ _ | .Delete _ world _ | .Acknowledge _ world _ | .Step _ world
  | .Startup world => world.certain
  | _ => true

/-- The file whose bytes a request may write, or has written. -/
def Task.writer : Task → Option String
  | .Putting row _ | .Completing row _ _ _ _ => some row.file_id
  | _ => none

/-- The file whose bytes a request is about to delete. -/
def Task.deletes : Task → Option String
  | .Cleaning row => some row.file_id
  | .Removing file_id _ => some file_id
  | _ => none

/-- The files whose bytes the start is about to delete, by what it has read. -/
def Startup.deletes : Startup → List String
  | .DeleteInterrupted file_id file_ids => file_id :: file_ids
  | .FailInterrupted _ file_ids => file_ids
  | .Finish task _ => task.deletes.toList
  | _ => []

/-- Something is about to delete or to overwrite the bytes of the file. -/
inductive System.Threatens (system : System) (file_id : String) : Prop
  | task {id : Nat} {task : Task} (htask : system.tasks[id]? = some task) (hdeletes : task.deletes = some file_id)
  | late {effect : ObjectEffect} (hlate : effect ∈ system.late) (hfile : effect.file_id = file_id)
  | startup {startup : Startup} (hmode : system.mode = .Starting startup) (hdeletes : file_id ∈ startup.deletes)

/-- No reservation of the file is left, so that no request can come to write it. -/
structure System.Closed (system : System) (file_id : String) : Prop where
  granted : file_id ∈ system.grants.map Prod.snd
  reserved : ∀ (id : String) (upload : UploadRecord), system.tables.uploads[id]? = some upload →
    upload.file_id = file_id → upload.state ≠ .reserved

/-- The file is not ready and will not become ready. -/
structure System.Dead (system : System) (file_id : String) : Prop extends system.Closed file_id where
  writer : ∀ (id : Nat) (task : Task), system.tasks[id]? = some task → task.writer ≠ some file_id
  ready : ∀ file : FileRecord, system.tables.files[file_id]? = some file → file.state ≠ .ready

/-- The object is the one that the metadata describes. -/
def StoredObject.Matches (sha256 : List UInt8 → Sha256Digest) (object : StoredObject) (size : Nat)
    (digest : Sha256Digest) (e_tag : String) (version : Option String) : Prop :=
  object.bytes.length = size ∧ sha256 object.bytes = digest ∧ object.e_tag = some e_tag ∧ object.version = version

/-- While the service is not open there are no requests. -/
def System.Idle (system : System) : Prop := system.mode ≠ .Serving → ∀ id : Nat, system.tasks[id]? = none

/-- What every reachable state keeps about bytes. -/
structure Backed (sha256 : List UInt8 → Sha256Digest) (system : System) : Prop where
  exact : Exact system
  idle : system.Idle
  ready : ∀ (file_id : String) (file : FileRecord), system.tables.files[file_id]? = some file → file.state = .ready →
    ∃ object, system.objects[file_id]? = some object ∧
      object.Matches sha256 file.size_bytes file.sha256 file.backend_e_tag file.backend_version
  completing : ∀ (id : Nat) row size digest e_tag version,
    system.tasks[id]? = some (.Completing row size digest e_tag version) →
    ∃ object, system.objects[row.file_id]? = some object ∧ object.Matches sha256 size digest e_tag version
  unique : ∀ (id id' : Nat) (task task' : Task) file_id, system.tasks[id]? = some task →
    system.tasks[id']? = some task' → task.writer = some file_id → task'.writer = some file_id → id = id'
  writer : ∀ (id : Nat) (task : Task) file_id, system.tasks[id]? = some task → task.writer = some file_id →
    system.Closed file_id ∧ file_id ∉ system.tables.files
  dead : ∀ file_id, system.Threatens file_id → system.Dead file_id

section
variable {limits : FileStorageLimits} {sha256 : List UInt8 → Sha256Digest} {system system' : System} {action : Action}
  {world : World} {file_id : String}

/-- What one step may do to the objects and to the effects that are still to come. -/
inductive ObjectStep (system system' : System) : Prop
  | same (hobjects : system'.objects = system.objects) (hlate : system'.late = system.late)
  | delete {file_id : String} (hthreatens : system.Threatens file_id)
    (hobjects : system'.objects = system.objects.erase file_id) (hlate : system'.late = system.late)
  | delete_late {file_id : String} (hthreatens : system.Threatens file_id) (hobjects : system'.objects = system.objects)
    (hlate : system'.late = ⟨file_id, none⟩ :: system.late)
  | put {id : Nat} {row : UploadRow} {stream : FileUploadStream} {object : StoredObject}
    (htask : system.tasks[id]? = some (.Putting row stream))
    (hobjects : system'.objects = system.objects.insert row.file_id object) (hlate : system'.late = system.late)
  | put_late {id : Nat} {row : UploadRow} {stream : FileUploadStream} {object : StoredObject}
    (htask : system.tasks[id]? = some (.Putting row stream)) (hobjects : system'.objects = system.objects)
    (hlate : system'.late = ⟨row.file_id, some object⟩ :: system.late)
    (hnext : system'.tasks[id]? = some (.Cleaning row))
  | settle {effect : ObjectEffect} (hmem : effect ∈ system.late)
    (hobjects : system'.objects = effect.apply system.objects) (hlate : system'.late ⊆ system.late)

/-- A deletion that was asked for happens, or may happen later. -/
theorem ObjectStep.of_delete_object (outcome : DeleteOutcome) (hthreatens : system.Threatens file_id)
    (hobjects : system'.objects = (system.delete_object outcome file_id).2.objects)
    (hlate : system'.late = (system.delete_object outcome file_id).2.late) : ObjectStep system system' := by
  cases outcome with
  | Deleted => exact .delete hthreatens hobjects hlate
  | Failed error => exact .delete_late hthreatens hobjects hlate

theorem ObjectStep.delete_step (world : World) (task : Task) (hthreatens : ∀ file_id, task.deletes = some file_id →
      system.Threatens file_id) (hobjects : system'.objects = (system.delete_step world task).2.objects)
    (hlate : system'.late = (system.delete_step world task).2.late) : ObjectStep system system' := by
  cases task with
  | Inspecting file_id | Selecting file_id =>
    rw [System.delete_step] at hobjects hlate
    split at hobjects <;> rename_i hfetch <;> rw [hfetch] at hlate <;> exact .same hobjects hlate
  | Removing file_id size =>
    rw [System.delete_step] at hobjects hlate
    refine .of_delete_object world.delete (hthreatens file_id rfl) ?_ ?_
    · split at hobjects <;> rename_i hdelete <;> rw [hdelete] <;> exact hobjects
    · split at hlate <;> rename_i hdelete <;> rw [hdelete] <;> exact hlate
  | Recording file_id size =>
    rw [System.delete_step] at hobjects hlate
    split at hobjects <;> rename_i hclock <;> rw [hclock] at hlate <;> exact .same hobjects hlate
  | _ => exact .same hobjects hlate

variable {id : Nat} {task : Task}

theorem ObjectStep.task_step (htask : system.tasks[id]? = some task) :
    ObjectStep system ((system.task_step limits sha256 world task).2.put_task id
      (system.task_step limits sha256 world task).1) := by
  cases task with
  | Claiming row stream | Completing row size digest e_tag version =>
    rw [System.task_step]
    split <;> exact .same rfl rfl
  | Putting row stream =>
    change ObjectStep system ((system.put_object sha256 world.put row stream).2.put_task id
      (some (system.put_object sha256 world.put row stream).1))
    unfold System.put_object
    split
    · exact .same rfl rfl
    · split
      · exact .put htask rfl rfl
      · refine .put_late htask rfl rfl ?_
        rw [System.put_task, ordered_map.getElem?_write, if_pos rfl]
  | Cleaning row =>
    refine .of_delete_object world.delete (.task htask rfl) ?_ ?_
    all_goals
      rw [System.task_step]
      split <;> rename_i hdelete <;> rw [hdelete] <;> rfl
  | Failing upload_id | Acknowledging through_sequence => exact .same rfl rfl
  | Inspecting file_id | Selecting file_id | Removing file_id size | Recording file_id size =>
    exact .delete_step world _ (fun _ hdeletes => .task htask hdeletes) rfl rfl

theorem System.startup_sql_objects (body : Sql Unit) (next : Startup) :
    ObjectStep system (system.startup_sql world body next) := by
  unfold System.startup_sql
  split <;> exact .same rfl rfl

theorem ObjectStep.startup_step {startup : Startup} (hmode : system.mode = .Starting startup) :
    ObjectStep system (system.startup_step world startup) := by
  cases startup with
  | Expire =>
    rw [System.startup_step]
    split
    · exact System.startup_sql_objects _ _
    · exact .same rfl rfl
  | PurgeUploads now | PurgeFiles | FailInterrupted file_id file_ids => exact System.startup_sql_objects _ _
  | SelectInterrupted | SelectDeleting =>
    rw [System.startup_step]
    split <;> exact .same rfl rfl
  | DeleteInterrupted file_id file_ids =>
    refine .of_delete_object world.delete (.startup hmode List.mem_cons_self) ?_ ?_
    all_goals
      rw [System.startup_step]
      split <;> rename_i hdelete <;> rw [hdelete]
  | Finish task file_ids =>
    refine .delete_step world task
      (fun file_id hdeletes => .startup hmode (Option.mem_toList.mpr hdeletes)) ?_ ?_
    all_goals
      rw [System.startup_step]
      split <;> rename_i hstep <;> rw [hstep]

theorem ObjectStep.request (action : Action) : ObjectStep system (system.request limits action) := by
  cases action with
  | Reserve world upload_id file_id request =>
    rw [System.request]
    split
    · unfold System.reserve
      split <;> exact .same rfl rfl
    · exact .same rfl rfl
  | Upload id world verified upload_id content_length content_type stream | Delete id world file_id
  | Acknowledge id world through_sequence =>
    rw [System.request]
    split
    · exact .same rfl rfl
    · split <;> exact .same rfl rfl
  | _ => exact .same rfl rfl

/-- What one step may do to the objects. -/
theorem step_objects (limits : FileStorageLimits) (sha256 : List UInt8 → Sha256Digest) (system : System)
    (action : Action) : ObjectStep system (system.step limits sha256 action) := by
  unfold System.step
  split
  · split
    · rename_i htask
      exact .task_step htask
    · exact .same rfl rfl
  · exact .same rfl rfl
  · split
    · rename_i hlate
      exact .settle (List.mem_of_getElem? hlate) rfl (List.eraseIdx_subset)
    · exact .same rfl rfl
  · exact .same rfl rfl
  · exact .same rfl rfl
  · rename_i hmode
    exact .startup_step hmode
  · exact .request _
  · exact .same rfl rfl

theorem System.Idle.step (h : system.Idle) : (system.step limits sha256 action).Idle := by
  unfold System.step
  split
  · rename_i id world hmode
    split
    · rename_i task _
      obtain ⟨tables, objects, late, ledger, hframe⟩ := system.task_step_frame limits sha256 world task
      intro hclosed
      have hserving : (system.task_step limits sha256 world task).2.mode = .Serving :=
        (congrArg System.mode hframe).trans hmode
      exact absurd hserving hclosed
    · exact h
  · rename_i hmode
    exact fun hclosed => absurd hmode hclosed
  · split <;> exact h
  · exact fun _ id => by simp
  · rename_i hmode
    exact fun _ => h (by rw [hmode]; nofun)
  · rename_i world startup hmode
    intro _ id
    rw [(system.startup_step_frame world startup).1]
    exact h (by rw [hmode]; nofun) id
  · rename_i hmode
    intro hclosed
    rw [system.request_mode] at hclosed
    exact absurd hmode hclosed
  · exact h

variable {row : UploadRow}

theorem Spawned.cleaning_old {old : Option Task}
    (h : Spawned sha256 system system' old (.Cleaning row)) : (∃ stream, old = some (.Putting row stream)) ∨
      ∃ size digest e_tag version, old = some (.Completing row size digest e_tag version) := by
  cases h with
  | cleaning hold =>
    rcases hold with ⟨stream, rfl⟩ | ⟨size, digest, e_tag, version, rfl⟩
    · exact .inl ⟨stream, rfl⟩
    · exact .inr ⟨size, digest, e_tag, version, rfl⟩
  | deletes h => cases h

/-- An upload that fails for certain leaves the metadata alone. -/
theorem System.task_step_cleaning (hcertain : world.certain = true)
    (h : system.task_step limits sha256 world task = (some (.Cleaning row), system')) :
    system'.tables = system.tables := by
  rcases (System.task_step_spawned h).cleaning_old with ⟨stream, hold⟩ | ⟨size, digest, e_tag, version, hold⟩
  · cases hold
    obtain ⟨objects, late, hframe⟩ := system.put_object_frame sha256 world.put row stream
    have hsystem : (system.put_object sha256 world.put row stream).2 = system' := (Prod.mk.inj h).2
    rw [← hsystem, hframe]
  · cases hold
    rw [System.task_step] at h
    split at h
    · rename_i now _
      have hsame := @transact_eq_error _ _ _ (complete_upload limits now world.event_id row size digest e_tag version)
        world.faults world.outcome system.tables
      have hresult : after_complete row (world.transact
          (complete_upload limits now world.event_id row size digest e_tag version) system.tables).1 =
            some (.Cleaning _) := (Prod.mk.inj h).1
      have hsystem : system.set_tables row.file_id (world.transact
          (complete_upload limits now world.event_id row size digest e_tag version) system.tables).2 = system' :=
        (Prod.mk.inj h).2
      rw [← hsystem]
      cases hfirst : (world.transact (complete_upload limits now world.event_id row size digest e_tag version)
          system.tables).1 with
      | ok metadata =>
        rw [hfirst] at hresult
        cases hresult
      | error error =>
        refine hsame (fun e houtcome => ?_) (Prod.ext hfirst rfl)
        rw [World.certain, houtcome] at hcertain
        cases hcertain
    · rw [← (Prod.mk.inj h).2]

/-- No request starts a cleanup. -/
theorem System.request_cleaning (h : (system.request limits action).tasks[id]? = some (.Cleaning row)) :
    system.tasks[id]? = some (.Cleaning row) := by
  have hput : ∀ {middle : System} {other : Nat} {task : Task}, middle.tasks = system.tasks →
      (middle.put_task other (some task)).tasks[id]? = some (.Cleaning row) → (∀ row, task ≠ .Cleaning row) →
      system.tasks[id]? = some (.Cleaning row) := by
    intro middle other task htasks h htask
    rw [System.put_task, ordered_map.getElem?_write, htasks] at h
    split at h
    · exact absurd (Option.some.inj h) (htask row)
    · exact h
  cases action with
  | Reserve world upload_id file_id request =>
    rw [System.request] at h
    split at h
    · unfold System.reserve at h
      split at h <;> exact h
    · exact h
  | Upload other world verified upload_id content_length content_type stream
  | Acknowledge other world through_sequence =>
    rw [System.request] at h
    split at h
    · exact h
    · split at h
      · exact hput rfl h fun _ h => by cases h
      · exact h
  | Delete other world file_id =>
    rw [System.request] at h
    split at h
    · exact h
    · split at h
      · exact hput rfl h fun _ h => by cases h
      · exact hput rfl h fun _ h => by cases h
      · exact h
  | _ => exact h

/-- A cleanup that a step begins leaves the metadata alone. -/
theorem step_cleaning (hcertain : action.certain = true)
    (h : (system.step limits sha256 action).tasks[id]? = some (.Cleaning row)) :
    system.tasks[id]? = some (.Cleaning row) ∨ (system.step limits sha256 action).tables = system.tables := by
  unfold System.step at h ⊢
  split at h
  · rename_i moved world _
    split at h
    · rename_i task htask
      obtain ⟨tables, objects, late, ledger, hframe⟩ := system.task_step_frame limits sha256 world task
      cases hstep : system.task_step limits sha256 world task with
      | mk next middle =>
        rw [hstep] at hframe
        simp only [hstep] at h ⊢
        rw [System.put_task, ordered_map.getElem?_write] at h
        split at h
        · subst h
          have hworld : world.certain = true := hcertain
          have htables : middle.tables = system.tables := System.task_step_cleaning hworld hstep
          exact .inr htables
        · have htasks : middle.tasks = system.tasks := (congrArg System.tasks hframe :)
          rw [htasks] at h
          exact .inl h
    · exact .inl h
  · rw [System.put_task, ordered_map.getElem?_write] at h
    split at h
    · cases h
    · exact .inl h
  · split at h <;> exact .inl h
  · simp at h
  · exact .inl h
  · rename_i world startup _
    rw [(system.startup_step_frame world startup).1] at h
    exact .inl h
  · exact .inl (System.request_cleaning h)
  · exact .inl h

/-- The request has just claimed the upload of the file. -/
def Claimed (system system' : System) (id : Nat) (file_id : String) : Prop :=
  ∃ row stream upload, system.tasks[id]? = some (.Claiming row stream) ∧ row.file_id = file_id ∧
    system.tables.uploads[row.upload_id]? = some upload ∧ upload.state = .reserved ∧
    system'.tables = system.tables.put_upload row.upload_id { upload with state := .uploading }

/-- A writer after the step was one before it, or it has just claimed its upload; only one request has. -/
theorem step_writer (limits : FileStorageLimits) (sha256 : List UInt8 → Sha256Digest) (system : System)
    (action : Action) : ∃ moved : Nat, ∀ (id : Nat) (task : Task) (file_id : String),
      (system.step limits sha256 action).tasks[id]? = some task → task.writer = some file_id →
      (∃ before, system.tasks[id]? = some before ∧ before.writer = some file_id) ∨
        id = moved ∧ Claimed system (system.step limits sha256 action) id file_id := by
  obtain ⟨moved, hothers, hmoved⟩ := step_moves limits sha256 system action
  refine ⟨moved, fun id task file_id htask hwriter => ?_⟩
  by_cases hid : id = moved
  · subst hid
    rcases hmoved task htask with hold | hspawned
    · exact .inl ⟨task, hold, hwriter⟩
    · generalize hbefore : system.tasks[id]? = old at hspawned
      cases hspawned with
      | putting hupload hstate htables =>
        exact .inr ⟨rfl, _, _, _, hbefore, Option.some.inj hwriter, hupload, hstate, htables⟩
      | completing => exact .inl ⟨_, rfl, hwriter⟩
      | deletes h => cases h <;> cases hwriter
      | _ => cases hwriter
  · exact .inl ⟨task, hothers id task hid htask, hwriter⟩

variable {size : Nat} {digest : Sha256Digest} {e_tag : String} {version : Option String}

/-- A completion is the last step of its request that has to do with bytes. -/
theorem step_completing (hserving : system.mode = .Serving)
    (htask : system.tasks[id]? = some (.Completing row size digest e_tag version))
    (hnext : (system.step limits sha256 (.Step id world)).tasks[id]? = some task) : task.writer = none := by
  simp only [System.step, hserving, htask] at hnext
  rw [System.put_task, ordered_map.getElem?_write, if_pos rfl, System.task_step] at hnext
  split at hnext
  · rename_i now _
    cases hresult : (world.transact (complete_upload limits now world.event_id row size digest e_tag version)
        system.tables).1 with
    | ok metadata =>
      simp only [hresult, after_complete] at hnext
      cases hnext
    | error error =>
      simp only [hresult, after_complete] at hnext
      cases hnext
      rfl
  · cases hnext
    rfl

theorem System.Closed.step (h : system.Closed file_id) (hbounded : system.tables.Bounded) :
    (system.step limits sha256 action).Closed file_id := by
  obtain ⟨entries, hchange, _⟩ := step_follows limits sha256 hbounded action
  refine ⟨List.map_subset _ (grants_subset limits sha256 system action) h.granted, fun id upload hupload hfile hstate => ?_⟩
  rcases hchange.upload hupload with ⟨old, hold, hkeeps⟩ | hreserved
  · exact h.reserved id old hold (hkeeps.file_id.symm.trans hfile) (hkeeps.reserved hstate)
  · exact hreserved.unused.2 (hfile ▸ h.granted)

/-- No request claims an upload of a file without a reservation. -/
theorem System.Closed.not_claimed (h : system.Closed file_id) (hidentified : Identified system) :
    ¬Claimed system system' id file_id := by
  rintro ⟨row, stream, upload, htask, rfl, hupload, hstate, _⟩
  have hgrant := (hidentified.rows id _ row htask rfl).1
  exact h.reserved row.upload_id upload hupload (hidentified.file_id hgrant hupload) hstate

theorem System.Dead.step (h : system.Dead file_id) (hexact : Exact system) :
    (system.step limits sha256 action).Dead file_id := by
  obtain ⟨entries, hchange, _⟩ := step_follows limits sha256 hexact.bounded action
  obtain ⟨moved, hwriter⟩ := step_writer limits sha256 system action
  refine ⟨h.toClosed.step hexact.bounded, fun id task htask htaskwriter => ?_, fun file hfile hready => ?_⟩
  · rcases hwriter id task file_id htask htaskwriter with ⟨before, hbefore, hsame⟩ | ⟨_, hclaimed⟩
    · exact h.writer id before hbefore hsame
    · exact h.toClosed.not_claimed hexact.identified hclaimed
  · rcases hchange.file hfile with ⟨old, hold, hkeeps⟩ | hcompleted
    · exact h.ready old hold (hkeeps.ready hready)
    · obtain ⟨id, _, row, _, _, _, rfl, htask, _⟩ := hcompleted.task
      exact h.writer id _ htask rfl

variable {file : FileRecord}

/-- A file that exists was committed, and then no upload of it holds a reservation. -/
theorem Exact.holds_of_file (h : Exact system) (hfile : system.tables.files[file_id]? = some file) :
    file_id ∈ system.grants.map Prod.snd ∧ ∀ (id : String) (upload : UploadRecord),
      system.tables.uploads[id]? = some upload → upload.file_id = file_id → upload.state.holds = false := by
  obtain ⟨_, entry, hentry, hkind, rfl, _⟩ := h.accounts.files file_id file hfile
  exact ⟨h.accounts.granted entry hentry hkind, h.accounts.released entry hentry hkind⟩

theorem Exact.not_mem_files (h : Exact system) {id : String} {upload : UploadRecord}
    (hupload : system.tables.uploads[id]? = some upload) (hholds : upload.state.holds = true) :
    upload.file_id ∉ system.tables.files := by
  intro hmem
  rw [ExtTreeMap.mem_iff_isSome_getElem?, Option.isSome_iff_exists] at hmem
  obtain ⟨file, hfile⟩ := hmem
  cases hholds.symm.trans ((h.holds_of_file hfile).2 id upload hupload rfl)

theorem Backed.dead_of_deleting (h : Backed sha256 system)
    (hfile : system.tables.files[file_id]? = some file) (hstate : file.state = .deleting) : system.Dead file_id where
  granted := (h.exact.holds_of_file hfile).1
  reserved id upload hupload hsame hreserved := by
    have hholds := (h.exact.holds_of_file hfile).2 id upload hupload hsame
    rw [hreserved] at hholds
    cases hholds
  writer id task htask hwriter := by
    refine (h.writer id task file_id htask hwriter).2 ?_
    rw [ExtTreeMap.mem_iff_isSome_getElem?, hfile]
    rfl
  ready other hother hready := by
    rw [Option.some.inj (hother.symm.trans hfile), hstate] at hready
    cases hready

/-- While there are no requests, the upload that a dead process left behind is not completed any more. -/
theorem Backed.dead_of_interrupted (h : Backed sha256 system) (hclosed : system.mode ≠ .Serving) {id : String}
    {upload : UploadRecord} (hupload : system.tables.uploads[id]? = some upload)
    (hstate : upload.state = .uploading) : system.Dead upload.file_id where
  granted := List.mem_map_of_mem (h.exact.identified.granted id upload hupload)
  reserved other new hnew hsame hreserved := by
    have hgrant := h.exact.identified.granted other new hnew
    rw [hsame] at hgrant
    obtain rfl := h.exact.identified.upload_id hgrant (h.exact.identified.granted id upload hupload)
    rw [Option.some.inj (hnew.symm.trans hupload), hstate] at hreserved
    cases hreserved
  writer other task htask := by
    rw [h.idle hclosed other] at htask
    cases htask
  ready file hfile := by
    have hfresh := h.exact.not_mem_files hupload (by rw [hstate]; rfl)
    rw [ExtTreeMap.mem_iff_isSome_getElem?, hfile] at hfresh
    exact absurd rfl hfresh

/-- A failed upload is not completed any more. -/
theorem Backed.dead_of_cleaning (h : Backed sha256 system) (hcertain : action.certain = true)
    {before : Task} (hbefore : system.tasks[id]? = some before) (hwriter : before.writer = some row.file_id)
    (htask : (system.step limits sha256 action).tasks[id]? = some (.Cleaning row)) :
    (system.step limits sha256 action).Dead row.file_id := by
  obtain ⟨hclosed, hfresh⟩ := h.writer id before row.file_id hbefore hwriter
  have htables : (system.step limits sha256 action).tables = system.tables := by
    rcases step_cleaning hcertain htask with hold | htables
    · rw [Option.some.inj (hbefore.symm.trans hold)] at hwriter
      cases hwriter
    · exact htables
  obtain ⟨moved, hwriters⟩ := step_writer limits sha256 system action
  refine ⟨hclosed.step h.exact.bounded, fun other task hother hsame => ?_, fun file hfile => ?_⟩
  · rcases hwriters other task row.file_id hother hsame with ⟨old, hold, holdwriter⟩ | ⟨_, hclaimed⟩
    · obtain rfl := h.unique other id old before row.file_id hold hbefore holdwriter hwriter
      rw [Option.some.inj (hother.symm.trans htask)] at hsame
      cases hsame
    · exact hclosed.not_claimed h.exact.identified hclaimed
  · rw [htables] at hfile
    rw [ExtTreeMap.mem_iff_isSome_getElem?, hfile] at hfresh
    exact absurd rfl hfresh

/-- Why the start is about to delete the bytes of a file. -/
inductive System.Doomed (system : System) (file_id : String) : Prop
  | listed {startup : Startup} (hmode : system.mode = .Starting startup) (hdeletes : file_id ∈ startup.deletes)
  | interrupted {id : String} {upload : UploadRecord} (hupload : system.tables.uploads[id]? = some upload)
    (hstate : upload.state = .uploading) (hfile : upload.file_id = file_id)
  | deleting {file : FileRecord} (hfile : system.tables.files[file_id]? = some file) (hstate : file.state = .deleting)

theorem Startup.doomed_of_sql {body : Sql Unit} {startup next reached : Startup}
    (hmode : system.mode = .Starting startup)
    (hreached : (system.startup_sql world body next).mode = .Starting reached) (hdeletes : file_id ∈ reached.deletes)
    (hnext : next.deletes ⊆ startup.deletes) : system.Doomed file_id := by
  rcases (system.startup_sql_frame world body next).2.2 with hstarting | hdown
  · obtain rfl := Mode.Starting.inj (hstarting.symm.trans hreached)
    exact .listed hmode (hnext hdeletes)
  · cases hdown.symm.trans hreached

theorem Startup.interrupted_deletes (file_ids : List String) : (Startup.interrupted file_ids).deletes = file_ids := by
  cases file_ids <;> rfl

theorem Startup.deleting_deletes (file_ids : List String) : (Startup.deleting file_ids).deletes = [] := by
  cases file_ids <;> rfl

theorem select_interrupted_runs {tables tables' : FileTables} {file_ids : List String}
    (h : Runs select_interrupted tables file_ids tables') (hmem : file_id ∈ file_ids) :
    ∃ (id : String) (upload : UploadRecord), tables.uploads[id]? = some upload ∧ upload.state = .uploading ∧
      upload.file_id = file_id := by
  rw [select_interrupted] at h
  obtain ⟨rfl, _⟩ := h.fetch
  obtain ⟨row, hrow, rfl⟩ := List.mem_map.mp hmem
  obtain ⟨hrow, hstate⟩ := List.mem_filter.mp (List.mem_of_mem_take hrow)
  exact ⟨row.1, row.2, ExtTreeMap.mem_toList_iff_getElem?_eq_some.mp hrow, of_decide_eq_true hstate, rfl⟩

theorem System.startup_step_doomed {startup reached : Startup} (hmode : system.mode = .Starting startup)
    (hreached : (system.startup_step world startup).mode = .Starting reached) (hdeletes : file_id ∈ reached.deletes) :
    system.Doomed file_id := by
  cases startup with
  | Expire =>
    rw [System.startup_step] at hreached
    split at hreached
    · exact Startup.doomed_of_sql hmode hreached hdeletes (List.Subset.refl _)
    · cases hreached
  | PurgeUploads now | PurgeFiles => exact Startup.doomed_of_sql hmode hreached hdeletes (List.Subset.refl _)
  | SelectInterrupted =>
    rw [System.startup_step] at hreached
    split at hreached
    · obtain rfl := Mode.Starting.inj hreached
      cases hdeletes
    · rename_i hrows
      obtain rfl := Mode.Starting.inj hreached
      obtain ⟨id, upload, hupload, hstate, hfile⟩ :=
        select_interrupted_runs (World.transact_fst_eq_ok hrows) hdeletes
      exact .interrupted hupload hstate hfile
    · cases hreached
  | DeleteInterrupted other file_ids =>
    rw [System.startup_step] at hreached
    split at hreached
    · obtain rfl := Mode.Starting.inj hreached
      exact .listed hmode (List.mem_cons_of_mem _ hdeletes)
    · cases hreached
  | FailInterrupted other file_ids =>
    refine Startup.doomed_of_sql hmode hreached hdeletes ?_
    rw [Startup.interrupted_deletes]
    exact List.Subset.refl _
  | SelectDeleting =>
    rw [System.startup_step] at hreached
    split at hreached
    · cases hreached
    · obtain rfl := Mode.Starting.inj hreached
      cases hdeletes
    · cases hreached
  | Finish task file_ids =>
    rw [System.startup_step] at hreached
    split at hreached
    · rename_i next middle hstep
      obtain rfl := Mode.Starting.inj hreached
      have hspawned : DeleteSpawned system (some task) next := System.delete_step_spawned (congrArg Prod.fst hstep)
      cases hspawned with
      | removing hfile hstate =>
        obtain rfl := List.mem_singleton.mp hdeletes
        exact .deleting hfile hstate
      | _ => cases hdeletes
    · obtain rfl := Mode.Starting.inj hreached
      rw [Startup.deleting_deletes] at hdeletes
      cases hdeletes
    · cases hreached

/-- What a start deletes was doomed before. -/
theorem step_doomed {reached : Startup} (hreached : (system.step limits sha256 action).mode = .Starting reached)
    (hdeletes : file_id ∈ reached.deletes) : system.mode ≠ .Serving ∧ system.Doomed file_id := by
  have hsame : system.mode = .Starting reached → system.mode ≠ .Serving ∧ system.Doomed file_id :=
    fun hmode => ⟨by rw [hmode]; nofun, .listed hmode hdeletes⟩
  unfold System.step at hreached
  split at hreached
  · rename_i id world hmode
    split at hreached
    · rename_i task _
      obtain ⟨tables, objects, late, ledger, hframe⟩ := system.task_step_frame limits sha256 world task
      exact hsame ((congrArg System.mode hframe :).symm.trans hreached)
    · exact hsame hreached
  · exact hsame hreached
  · split at hreached <;> exact hsame hreached
  · cases hreached
  · obtain rfl := Mode.Starting.inj hreached
    cases hdeletes
  · rename_i world startup hmode
    exact ⟨by rw [hmode]; nofun, System.startup_step_doomed hmode hreached hdeletes⟩
  · exact hsame (by rwa [system.request_mode] at hreached)
  · exact hsame hreached

/-- A step leaves the object of a file alone that is not dead and that no request is putting. -/
theorem Backed.object_kept (h : Backed sha256 system) (halive : ¬system.Dead file_id)
    (hputting : ∀ (id : Nat) row stream, system.tasks[id]? = some (.Putting row stream) → row.file_id ≠ file_id) :
    (system.step limits sha256 action).objects[file_id]? = system.objects[file_id]? := by
  have hne : ∀ {other : String}, system.Threatens other → other ≠ file_id := by
    rintro other hthreatens rfl
    exact halive (h.dead other hthreatens)
  cases step_objects limits sha256 system action with
  | same hobjects _ => rw [hobjects]
  | delete hthreatens hobjects _ => rw [hobjects, ordered_map.getElem?_erase, if_neg (hne hthreatens)]
  | delete_late _ hobjects _ => rw [hobjects]
  | put htask hobjects _ => rw [hobjects, ordered_map.getElem?_insert, if_neg (hputting _ _ _ htask)]
  | put_late _ hobjects _ _ => rw [hobjects]
  | settle hmem hobjects _ =>
    rw [hobjects, ObjectEffect.apply, ordered_map.getElem?_write, if_neg (hne (.late hmem rfl))]

/-- The object of an upload that is to be completed stays. -/
theorem Backed.completing_kept (h : Backed sha256 system)
    (htask : system.tasks[id]? = some (.Completing row size digest e_tag version)) :
    ∃ object, (system.step limits sha256 action).objects[row.file_id]? = some object ∧
      object.Matches sha256 size digest e_tag version := by
  rw [h.object_kept (fun hdead => hdead.writer id _ htask rfl) fun other row' stream hother hfile => ?_]
  · exact h.completing id row size digest e_tag version htask
  · obtain rfl := h.unique other id _ _ row.file_id hother htask (congrArg some hfile) rfl
    cases hother.symm.trans htask

/-- The object of a ready file stays. -/
theorem Backed.ready_kept (h : Backed sha256 system)
    (hfile : system.tables.files[file_id]? = some file) (hready : file.state = .ready) :
    ∃ object, (system.step limits sha256 action).objects[file_id]? = some object ∧
      object.Matches sha256 file.size_bytes file.sha256 file.backend_e_tag file.backend_version := by
  rw [h.object_kept (fun hdead => hdead.ready file hfile hready) fun other row stream hother hsame => ?_]
  · exact h.ready file_id file hfile hready
  · refine (h.writer other _ file_id hother (congrArg some hsame)).2 ?_
    rw [ExtTreeMap.mem_iff_isSome_getElem?, hfile]
    rfl

theorem Backed.writer_step (h : Backed sha256 system)
    (htask : (system.step limits sha256 action).tasks[id]? = some task) (hwriter : task.writer = some file_id) :
    (system.step limits sha256 action).Closed file_id ∧
      file_id ∉ (system.step limits sha256 action).tables.files := by
  obtain ⟨entries, hchange, _⟩ := step_follows limits sha256 h.exact.bounded action
  obtain ⟨moved, hwriters⟩ := step_writer limits sha256 system action
  rcases hwriters id task file_id htask hwriter with ⟨before, hbefore, hsame⟩ | ⟨_, hclaimed⟩
  · obtain ⟨hclosed, hfresh⟩ := h.writer id before file_id hbefore hsame
    refine ⟨hclosed.step h.exact.bounded, fun hmem => ?_⟩
    rw [ExtTreeMap.mem_iff_isSome_getElem?, Option.isSome_iff_exists] at hmem
    obtain ⟨file, hfile⟩ := hmem
    rcases hchange.file hfile with ⟨old, hold, _⟩ | hcompleted
    · rw [ExtTreeMap.mem_iff_isSome_getElem?, hold] at hfresh
      exact absurd rfl hfresh
    · -- The only writer of the file has just completed it, and is no writer any more.
      obtain ⟨other, world, row, _, rfl, hserving, rfl, hother, _⟩ := hcompleted.task
      obtain rfl := h.unique other id _ before row.file_id hother hbefore rfl hsame
      rw [step_completing hserving hother htask] at hwriter
      cases hwriter
  · obtain ⟨row, stream, upload, hbefore, rfl, hupload, hstate, htables⟩ := hclaimed
    have hgrant := (h.exact.identified.rows id _ row hbefore rfl).1
    have hfile := h.exact.identified.file_id hgrant hupload
    refine ⟨⟨List.map_subset _ (grants_subset limits sha256 system action) (List.mem_map_of_mem hgrant),
      fun other new hnew hsame hreserved => ?_⟩, ?_⟩
    · rw [htables, FileTables.put_upload, ordered_map.getElem?_insert] at hnew
      split at hnew
      · cases hnew
        cases hreserved
      · rename_i hne
        have hothergrant := h.exact.identified.granted other new hnew
        rw [hsame] at hothergrant
        exact hne (h.exact.identified.upload_id hgrant hothergrant)
    · rw [htables, ← hfile]
      exact h.exact.not_mem_files hupload (by rw [hstate]; rfl)

theorem Backed.unique_step (h : Backed sha256 system) {id id' : Nat} {task task' : Task}
    (htask : (system.step limits sha256 action).tasks[id]? = some task)
    (htask' : (system.step limits sha256 action).tasks[id']? = some task') (hwriter : task.writer = some file_id)
    (hwriter' : task'.writer = some file_id) : id = id' := by
  obtain ⟨moved, hwriters⟩ := step_writer limits sha256 system action
  rcases hwriters id task file_id htask hwriter with ⟨before, hbefore, hsame⟩ | ⟨rfl, hclaimed⟩
  · rcases hwriters id' task' file_id htask' hwriter' with ⟨before', hbefore', hsame'⟩ | ⟨_, hclaimed'⟩
    · exact h.unique id id' before before' file_id hbefore hbefore' hsame hsame'
    · exact absurd hclaimed' ((h.writer id before file_id hbefore hsame).1.not_claimed h.exact.identified)
  · rcases hwriters id' task' file_id htask' hwriter' with ⟨before', hbefore', hsame'⟩ | ⟨hmoved, _⟩
    · exact absurd hclaimed ((h.writer id' before' file_id hbefore' hsame').1.not_claimed h.exact.identified)
    · exact hmoved.symm

theorem Backed.completing_step (h : Backed sha256 system)
    (htask : (system.step limits sha256 action).tasks[id]? = some (.Completing row size digest e_tag version)) :
    ∃ object, (system.step limits sha256 action).objects[row.file_id]? = some object ∧
      object.Matches sha256 size digest e_tag version := by
  obtain ⟨moved, hothers, hmoved⟩ := step_moves limits sha256 system action
  by_cases hid : id = moved
  · subst hid
    rcases hmoved _ htask with hold | hspawned
    · exact h.completing_kept hold
    · generalize system.tasks[id]? = old at hspawned
      cases hspawned with
      | @completing row stream bytes e_tag version hbytes hobjects =>
        refine ⟨⟨bytes, some e_tag, version⟩, ?_, rfl, rfl, rfl, rfl⟩
        rw [hobjects, ordered_map.getElem?_insert, if_pos rfl]
      | deletes hdeletes => cases hdeletes
  · exact h.completing_kept (hothers id _ hid htask)

theorem Backed.ready_step (h : Backed sha256 system)
    (hfile : (system.step limits sha256 action).tables.files[file_id]? = some file) (hready : file.state = .ready) :
    ∃ object, (system.step limits sha256 action).objects[file_id]? = some object ∧
      object.Matches sha256 file.size_bytes file.sha256 file.backend_e_tag file.backend_version := by
  obtain ⟨entries, hchange, _⟩ := step_follows limits sha256 h.exact.bounded action
  rcases hchange.file hfile with ⟨old, hold, hkeeps⟩ | hcompleted
  · rw [hkeeps.size_bytes, hkeeps.sha256, hkeeps.backend_e_tag, hkeeps.backend_version]
    exact h.ready_kept hold (hkeeps.ready hready)
  · obtain ⟨id, _, row, _, _, _, rfl, htask, _⟩ := hcompleted.task
    exact h.completing_kept htask

/-- A request that is about to delete bytes: the file is dead. -/
theorem Backed.dead_task (h : Backed sha256 system) (hcertain : action.certain = true)
    (htask : (system.step limits sha256 action).tasks[id]? = some task) (hdeletes : task.deletes = some file_id) :
    (system.step limits sha256 action).Dead file_id := by
  have hkept : system.tasks[id]? = some task → (system.step limits sha256 action).Dead file_id :=
    fun hold => (h.dead file_id (.task hold hdeletes)).step h.exact
  obtain ⟨moved, hothers, hmoved⟩ := step_moves limits sha256 system action
  by_cases hid : id = moved
  · subst hid
    rcases hmoved task htask with hold | hspawned
    · exact hkept hold
    · generalize hbefore : system.tasks[id]? = old at hspawned
      cases hspawned with
      | cleaning hold =>
        cases hdeletes
        rcases hold with ⟨stream, rfl⟩ | ⟨size, digest, e_tag, version, rfl⟩
        · exact h.dead_of_cleaning hcertain hbefore rfl htask
        · exact h.dead_of_cleaning hcertain hbefore rfl htask
      | deletes hspawned =>
        cases hspawned with
        | removing hfile hstate =>
          cases hdeletes
          exact (h.dead_of_deleting hfile hstate).step h.exact
        | _ => cases hdeletes
      | _ => cases hdeletes
  · exact hkept (hothers id task hid htask)

/-- An effect that is still to come: the file is dead. -/
theorem Backed.dead_late (h : Backed sha256 system) (hcertain : action.certain = true) {effect : ObjectEffect}
    (hlate : effect ∈ (system.step limits sha256 action).late) :
    (system.step limits sha256 action).Dead effect.file_id := by
  have hkept : effect ∈ system.late → (system.step limits sha256 action).Dead effect.file_id :=
    fun hold => (h.dead _ (.late hold rfl)).step h.exact
  cases step_objects limits sha256 system action with
  | same _ hsame | delete _ _ hsame => exact hkept (hsame ▸ hlate)
  | delete_late hthreatens _ hnew =>
    rw [hnew] at hlate
    rcases List.mem_cons.mp hlate with rfl | hold
    · exact (h.dead _ hthreatens).step h.exact
    · exact hkept hold
  | put _ _ hsame => exact hkept (hsame ▸ hlate)
  | put_late htask _ hnew hnext =>
    rw [hnew] at hlate
    rcases List.mem_cons.mp hlate with rfl | hold
    · exact h.dead_of_cleaning hcertain htask rfl hnext
    · exact hkept hold
  | settle _ _ hsubset => exact hkept (hsubset hlate)

/-- The start is about to delete bytes: the file is dead. -/
theorem Backed.dead_startup (h : Backed sha256 system) {startup : Startup}
    (hmode : (system.step limits sha256 action).mode = .Starting startup) (hdeletes : file_id ∈ startup.deletes) :
    (system.step limits sha256 action).Dead file_id := by
  obtain ⟨hclosed, hdoomed⟩ := step_doomed hmode hdeletes
  refine System.Dead.step ?_ h.exact
  cases hdoomed with
  | listed hold hlisted => exact h.dead file_id (.startup hold hlisted)
  | interrupted hupload hstate hfile => exact hfile ▸ h.dead_of_interrupted hclosed hupload hstate
  | deleting hfile hstate => exact h.dead_of_deleting hfile hstate

/-- One step keeps the files backed by their bytes. -/
theorem Backed.step (h : Backed sha256 system) (hcertain : action.certain = true) :
    Backed sha256 (system.step limits sha256 action) where
  exact := h.exact.step limits sha256 action
  idle := h.idle.step
  ready _ _ hfile hready := h.ready_step hfile hready
  completing _ _ _ _ _ _ htask := h.completing_step htask
  unique _ _ _ _ _ htask htask' hwriter hwriter' := h.unique_step htask htask' hwriter hwriter'
  writer _ _ _ htask hwriter := h.writer_step htask hwriter
  dead file_id hthreatens := by
    cases hthreatens with
    | task htask hdeletes => exact h.dead_task hcertain htask hdeletes
    | late hlate hfile => exact hfile ▸ h.dead_late hcertain hlate
    | startup hmode hdeletes => exact h.dead_startup hmode hdeletes

theorem Backed.new (sha256 : List UInt8 → Sha256Digest) : Backed sha256 .new where
  exact := .new
  idle _ id := by simp [System.new]
  ready file_id file hfile := by simp [System.new, FileTables.empty] at hfile
  completing id row size digest e_tag version htask := by simp [System.new] at htask
  unique id id' task task' file_id htask := by simp [System.new] at htask
  writer id task file_id htask := by simp [System.new] at htask
  dead file_id hthreatens := by
    cases hthreatens with
    | task htask _ => simp [System.new] at htask
    | late hlate _ => cases hlate
    | startup hmode _ => cases hmode

theorem Backed.run (h : Backed sha256 system) {actions : List Action}
    (hcertain : ∀ action ∈ actions, action.certain = true) :
    Backed sha256 (machine.run (System.step limits sha256) system actions) := by
  induction actions generalizing system with
  | nil => exact h
  | cons action actions ih =>
    exact ih (h.step (hcertain action List.mem_cons_self)) fun other hother =>
      hcertain other (List.mem_cons_of_mem _ hother)

/-- After every run in which a metadata commit that reports an error did not take effect, the backend holds, for every
file that is ready, an object with the file's size, checksum, entity tag and version. -/
theorem ready_file_has_bytes (limits : FileStorageLimits) (sha256 : List UInt8 → Sha256Digest) (actions : List Action)
    (hcertain : ∀ action ∈ actions, action.certain = true) (file_id : String) (file : FileRecord)
    (hfile : (machine.run (System.step limits sha256) .new actions).tables.files[file_id]? = some file)
    (hready : file.state = .ready) :
    ∃ object, (machine.run (System.step limits sha256) .new actions).objects[file_id]? = some object ∧
      object.bytes.length = file.size_bytes ∧ sha256 object.bytes = file.sha256 ∧
      object.e_tag = some file.backend_e_tag ∧ object.version = file.backend_version :=
  ((Backed.new sha256).run hcertain).ready file_id file hfile hready

theorem uploaded_file_has_bytes :
    ∃ (file : FileRecord) (object : StoredObject), file.state = .ready ∧ file.size_bytes = 1 ∧
      (machine.run (System.step one_file runku.data.checksum) .new
        (opening ++ [reserving "u1" "f1"] ++ uploading 1 "u1" "e1")).objects["f1"]? = some object ∧
      object.bytes.length = file.size_bytes := by
  have hcertain : ∀ action ∈ opening ++ [reserving "u1" "f1"] ++ uploading 1 "u1" "e1", action.certain = true := by
    decide +kernel
  have hfile : (machine.run (System.step one_file runku.data.checksum) .new
      (opening ++ [reserving "u1" "f1"] ++ uploading 1 "u1" "e1")).tables.files["f1"]? =
        some ⟨.ready, 1, runku.data.checksum [1], "application/octet-stream", 0, "tag", none⟩ := by
    decide +kernel
  obtain ⟨object, hobject, hlength, _⟩ :=
    ready_file_has_bytes one_file runku.data.checksum _ hcertain "f1" _ hfile rfl
  exact ⟨_, object, rfl, rfl, hobject, hlength⟩

end

end runku.file_storage
