import Runku.FileStorage.Quota

namespace runku.file_storage

open Std (ExtTreeMap)
open runku.data (Sha256Digest)

/-- The events of one kind. -/
def events (kind : UsageKind) (ledger : List LedgerEntry) : List LedgerEntry :=
  ledger.filter (·.event.kind = kind)

/-- The bytes of the events of one kind. -/
def bytes_of (kind : UsageKind) (ledger : List LedgerEntry) : Nat :=
  ((events kind ledger).map fun entry => entry.event.quantity).sum

/-- An event of this kind about this file, with this many bytes, was appended. -/
def Entered (ledger : List LedgerEntry) (kind : UsageKind) (file_id : String) (quantity : Nat) : Prop :=
  ∃ entry ∈ ledger, entry.event.kind = kind ∧ entry.file_id = file_id ∧ entry.event.quantity = quantity

/-- What the ledger says about grants, uploads and files. -/
structure Accounts (grants : List (String × String)) (tables : FileTables) (ledger : List LedgerEntry) : Prop where
  committed_once : ((events .committed ledger).map LedgerEntry.file_id).Nodup
  deleted_once : ((events .deleted ledger).map LedgerEntry.file_id).Nodup
  granted : ∀ entry ∈ ledger, entry.event.kind = .committed → entry.file_id ∈ grants.map Prod.snd
  released : ∀ entry ∈ ledger, entry.event.kind = .committed → ∀ (id : String) (upload : UploadRecord),
    tables.uploads[id]? = some upload → upload.file_id = entry.file_id → upload.state.holds = false
  deleted : ∀ entry ∈ ledger, entry.event.kind = .deleted →
    Entered ledger .committed entry.file_id entry.event.quantity ∧ entry.file_id ∉ tables.files
  files : ∀ (file_id : String) (file : FileRecord), tables.files[file_id]? = some file →
    file.state.counted = true ∧ Entered ledger .committed file_id file.size_bytes
  balance : bytes_of .committed ledger = bytes_of .deleted ledger + tables.committed_bytes

section
variable {limits : FileStorageLimits} {sha256 : List UInt8 → Sha256Digest} {system system' : System} {action : Action}
  {tables' : FileTables} {entries ledger : List LedgerEntry} {kind : UsageKind} {file_id : String} {quantity : Nat}

theorem Entered.append (h : Entered ledger kind file_id quantity) : Entered (ledger ++ entries) kind file_id quantity := by
  obtain ⟨entry, hentry, h⟩ := h
  exact ⟨entry, List.mem_append_left _ hentry, h⟩

theorem Entered.mem (h : Entered ledger kind file_id quantity) :
    file_id ∈ (events kind ledger).map LedgerEntry.file_id := by
  obtain ⟨entry, hentry, hkind, rfl, _⟩ := h
  exact List.mem_map_of_mem (List.mem_filter.mpr ⟨hentry, decide_eq_true hkind⟩)

/-- A file has one size in the ledger. -/
theorem Entered.unique (hnodup : ((events kind ledger).map LedgerEntry.file_id).Nodup) {quantity' : Nat}
    (h : Entered ledger kind file_id quantity) (h' : Entered ledger kind file_id quantity') : quantity = quantity' := by
  obtain ⟨entry, hentry, hkind, hfile, rfl⟩ := h
  obtain ⟨entry', hentry', hkind', hfile', rfl⟩ := h'
  rw [List.inj_on_of_nodup_map hnodup (List.mem_filter.mpr ⟨hentry, decide_eq_true hkind⟩)
    (List.mem_filter.mpr ⟨hentry', decide_eq_true hkind'⟩) (hfile.trans hfile'.symm)]

theorem events_append_singleton (entry : LedgerEntry) : events kind (ledger ++ [entry]) =
    if entry.event.kind = kind then events kind ledger ++ [entry] else events kind ledger := by
  unfold events
  rw [List.filter_append, List.filter_cons, List.filter_nil]
  split
  · rename_i hkind
    rw [if_pos (of_decide_eq_true hkind)]
  · rename_i hkind
    rw [if_neg (fun h => hkind (decide_eq_true h)), List.append_nil]

theorem bytes_append_singleton (entry : LedgerEntry) : bytes_of kind (ledger ++ [entry]) =
    bytes_of kind ledger + if entry.event.kind = kind then entry.event.quantity else 0 := by
  rw [bytes_of, events_append_singleton, bytes_of]
  split
  · rw [List.map_append, List.sum_append, List.map_singleton, List.sum_singleton]
  · rfl

end

section
variable {grants grants' : List (String × String)} {tables tables' : FileTables} {ledger : List LedgerEntry}
  {file_id : String} {file : FileRecord} {row : UsageRow} {sequence : Nat}

/-- A change without events keeps the accounts, as long as new uploads are about new files. -/
theorem Accounts.silent (h : Accounts grants tables ledger) (hgrants : grants ⊆ grants')
    (huploads : ∀ (id : String) (new : UploadRecord), tables'.uploads[id]? = some new →
      (∃ old, tables.uploads[id]? = some old ∧ old.Keeps new) ∨ new.file_id ∉ grants.map Prod.snd)
    (hfiles : ∀ (file_id : String) (new : FileRecord), tables'.files[file_id]? = some new →
      ∃ old, tables.files[file_id]? = some old ∧ old.Keeps new)
    (hbytes : tables'.committed_bytes = tables.committed_bytes) : Accounts grants' tables' ledger where
  committed_once := h.committed_once
  deleted_once := h.deleted_once
  granted entry hentry hkind := List.map_subset _ hgrants (h.granted entry hentry hkind)
  released entry hentry hkind id new hnew hfile := by
    rcases huploads id new hnew with ⟨old, hold, hkeeps⟩ | hfresh
    · have hreleased := h.released entry hentry hkind id old hold (hkeeps.file_id.symm.trans hfile)
      exact Bool.eq_false_iff.mpr fun hholds => Bool.eq_false_iff.mp hreleased (hkeeps.holds hholds)
    · exact absurd (hfile ▸ h.granted entry hentry hkind) hfresh
  deleted entry hentry hkind := by
    refine ⟨(h.deleted entry hentry hkind).1, fun hmem => ?_⟩
    rw [ExtTreeMap.mem_iff_isSome_getElem?, Option.isSome_iff_exists] at hmem
    obtain ⟨new, hnew⟩ := hmem
    obtain ⟨old, hold, _⟩ := hfiles _ new hnew
    refine (h.deleted entry hentry hkind).2 ?_
    rw [ExtTreeMap.mem_iff_isSome_getElem?, hold]
    rfl
  files file_id new hnew := by
    obtain ⟨old, hold, hkeeps⟩ := hfiles file_id new hnew
    rw [hkeeps.counted, hkeeps.size_bytes]
    exact h.files file_id old hold
  balance := by rw [hbytes]; exact h.balance

/-- A new file and its event. -/
theorem Accounts.commit (h : Accounts grants tables ledger) (hkind : row.kind = .committed)
    (hstate : file.state = .ready) (hsize : row.quantity = file.size_bytes) (hfresh : file_id ∉ tables.files)
    (hnew : file_id ∉ (events .committed ledger).map LedgerEntry.file_id) (hgrant : file_id ∈ grants.map Prod.snd)
    (hreleased : ∀ (id : String) (upload : UploadRecord), tables.uploads[id]? = some upload →
      upload.file_id = file_id → upload.state.holds = false) :
    Accounts grants ((tables.put_file file_id file).append_usage row) (ledger ++ [⟨file_id, sequence, row⟩]) where
  committed_once := by
    rw [events_append_singleton, if_pos hkind, List.map_append, List.nodup_append]
    refine ⟨h.committed_once, List.nodup_singleton _, fun a ha b hb heq => ?_⟩
    rw [List.map_singleton, List.mem_singleton] at hb
    have hsame : a = file_id := heq.trans hb
    exact hnew (hsame ▸ ha)
  deleted_once := by
    rw [events_append_singleton, if_neg (by rw [hkind]; nofun)]
    exact h.deleted_once
  granted entry hentry hcommitted := by
    rcases List.mem_append.mp hentry with hold | hlast
    · exact h.granted entry hold hcommitted
    · obtain rfl := List.mem_singleton.mp hlast
      exact hgrant
  released entry hentry hcommitted := by
    rcases List.mem_append.mp hentry with hold | hlast
    · exact h.released entry hold hcommitted
    · obtain rfl := List.mem_singleton.mp hlast
      exact hreleased
  deleted entry hentry hdeleted := by
    rcases List.mem_append.mp hentry with hold | hlast
    · obtain ⟨hentered, hgone⟩ := h.deleted entry hold hdeleted
      refine ⟨hentered.append, fun hmem => ?_⟩
      rcases ExtTreeMap.mem_insert.mp hmem with heq | hmem
      · exact hnew ((compare_eq_iff_eq.mp heq) ▸ hentered.mem)
      · exact hgone hmem
    · obtain rfl := List.mem_singleton.mp hlast
      cases hkind.symm.trans hdeleted
  files other new hfile := by
    change (tables.files.insert file_id file)[other]? = some new at hfile
    rw [ordered_map.getElem?_insert] at hfile
    split at hfile
    · rename_i heq
      subst heq
      cases hfile
      refine ⟨by rw [hstate]; rfl, _, List.mem_append_right _ List.mem_cons_self, hkind, rfl, hsize⟩
    · obtain ⟨hcounted, hentered⟩ := h.files other new hfile
      exact ⟨hcounted, hentered.append⟩
  balance := by
    rw [bytes_append_singleton, bytes_append_singleton, if_pos hkind, if_neg (by rw [hkind]; nofun), h.balance]
    change _ = _ + ordered_map.total _ (tables.files.insert file_id file)
    rw [ordered_map.total_insert_of_none _ (ExtTreeMap.getElem?_eq_none hfresh), hstate,
      if_pos (show FileState.ready.counted = true from rfl), hsize, FileTables.committed_bytes]
    omega

/-- The end of a file and its event. -/
theorem Accounts.delete (h : Accounts grants tables ledger) (hkind : row.kind = .deleted)
    (hsize : row.quantity = file.size_bytes) (hfile : tables.files[file_id]? = some file) :
    Accounts grants ((tables.erase_file file_id).append_usage row) (ledger ++ [⟨file_id, sequence, row⟩]) where
  committed_once := by
    rw [events_append_singleton, if_neg (by rw [hkind]; nofun)]
    exact h.committed_once
  deleted_once := by
    rw [events_append_singleton, if_pos hkind, List.map_append, List.nodup_append]
    refine ⟨h.deleted_once, List.nodup_singleton _, fun a ha b hb heq => ?_⟩
    rw [List.map_singleton, List.mem_singleton] at hb
    obtain ⟨entry, hentry, rfl⟩ := List.mem_map.mp ha
    obtain ⟨hmem, hdeleted⟩ := List.mem_filter.mp hentry
    refine (h.deleted entry hmem (of_decide_eq_true hdeleted)).2 ?_
    rw [heq, hb, ExtTreeMap.mem_iff_isSome_getElem?, hfile]
    rfl
  granted entry hentry hcommitted := by
    rcases List.mem_append.mp hentry with hold | hlast
    · exact h.granted entry hold hcommitted
    · obtain rfl := List.mem_singleton.mp hlast
      cases hkind.symm.trans hcommitted
  released entry hentry hcommitted := by
    rcases List.mem_append.mp hentry with hold | hlast
    · exact h.released entry hold hcommitted
    · obtain rfl := List.mem_singleton.mp hlast
      cases hkind.symm.trans hcommitted
  deleted entry hentry hdeleted := by
    rcases List.mem_append.mp hentry with hold | hlast
    · obtain ⟨hentered, hgone⟩ := h.deleted entry hold hdeleted
      exact ⟨hentered.append, fun hmem => hgone (ExtTreeMap.mem_erase.mp hmem).2⟩
    · obtain rfl := List.mem_singleton.mp hlast
      refine ⟨?_, fun hmem => (ExtTreeMap.mem_erase.mp hmem).1 (compare_eq_iff_eq.mpr rfl)⟩
      change Entered _ _ file_id row.quantity
      rw [hsize]
      exact (h.files file_id file hfile).2.append
  files other new hnew := by
    obtain ⟨hcounted, hentered⟩ := h.files other new (ordered_map.getElem?_of_erase hnew)
    exact ⟨hcounted, hentered.append⟩
  balance := by
    rw [bytes_append_singleton, bytes_append_singleton, if_pos hkind, if_neg (by rw [hkind]; nofun), h.balance,
      FileTables.committed_bytes, ordered_map.total_eq_add_erase _ hfile, (h.files file_id file hfile).1, hsize]
    change _ = _ + ordered_map.total _ (tables.files.erase file_id)
    simp only [if_true]
    omega

end

section
variable {limits : FileStorageLimits} {sha256 : List UInt8 → Sha256Digest} {system : System} {action : Action}
  {tables' : FileTables} {entries : List LedgerEntry} {grants' : List (String × String)}

/-- A deletion under way knows the size that its file was committed with. -/
def DeletionsExact (system : System) : Prop :=
  ∀ file_id size, system.Running (.Removing file_id size) ∨ system.Running (.Recording file_id size) →
    Entered system.ledger .committed file_id size

/-- Every change keeps the accounts. -/
theorem Accounts.change (h : Accounts system.grants system.tables system.ledger) (hidentified : Identified system)
    (hdeletions : DeletionsExact system) (hgrants : system.grants ⊆ grants')
    (hchange : Change limits system action tables' entries) : Accounts grants' tables' (system.ledger ++ entries) := by
  have huploads : ∀ (id : String) (new : UploadRecord), tables'.uploads[id]? = some new →
      (∃ old, system.tables.uploads[id]? = some old ∧ old.Keeps new) ∨ new.file_id ∉ system.grants.map Prod.snd :=
    fun id new hnew => (hchange.upload hnew).imp_right fun hreserved => hreserved.unused.2
  have hsilent : (∀ (file_id : String) (new : FileRecord), tables'.files[file_id]? = some new →
      ∃ old, system.tables.files[file_id]? = some old ∧ old.Keeps new) →
      tables'.committed_bytes = system.tables.committed_bytes →
      Accounts grants' tables' (system.ledger ++ []) := by
    rw [List.append_nil]
    exact h.silent hgrants huploads
  have hkeeps : ∀ {file_id : String} {file : FileRecord}, system.tables.files[file_id]? = some file →
      ∃ old, system.tables.files[file_id]? = some old ∧ old.Keeps file :=
    fun {_ file} hfile => ⟨file, hfile, rfl, rfl, rfl, rfl, id, rfl⟩
  cases hchange with
  | purge_files | reserve => exact hsilent (fun _ _ hnew => hkeeps (purge_files_keeps hnew)) (counted_purge _)
  | @complete id row size digest e_tag version upload event_id now world _ _ htask hfresh hupload hstate =>
    have hgrant := (hidentified.rows id _ row htask rfl).1
    have hfile := hidentified.file_id hgrant hupload
    -- The reservation of this file is open, so the file has not been committed.
    have hnew : row.file_id ∉ (events .committed system.ledger).map LedgerEntry.file_id := by
      intro hmem
      obtain ⟨entry, hentry, heq⟩ := List.mem_map.mp hmem
      obtain ⟨hmem, hkind⟩ := List.mem_filter.mp hentry
      have hreleased := h.released entry hmem (of_decide_eq_true hkind) _ upload hupload (hfile.trans heq.symm)
      rw [hstate] at hreleased
      cases hreleased
    have hmoved : Accounts grants' (system.tables.put_upload row.upload_id { upload with state := .completed })
        system.ledger :=
      h.silent hgrants (fun _ _ hnew => .inl (insert_state_keeps hupload hnew (fun h => by cases h) (by decide)))
        (fun _ _ hnew => hkeeps hnew) rfl
    refine hmoved.commit rfl rfl rfl hfresh hnew (List.map_subset _ hgrants (List.mem_map_of_mem hgrant)) ?_
    intro other new hother hsame
    -- Every other upload is about another file.
    rw [FileTables.put_upload, ordered_map.getElem?_insert] at hother
    split at hother
    · cases hother
      rfl
    · rename_i hne
      have hgranted := hidentified.granted other new hother
      rw [hsame] at hgranted
      exact absurd (hidentified.upload_id hgrant hgranted) hne
  | @mark file_id file hfile hstate =>
    refine hsilent (fun other new hnew => ?_)
      (counted_set_state hfile rfl (by rw [hstate]; rfl))
    rw [FileTables.put_file, ordered_map.getElem?_insert] at hnew
    split at hnew
    · rename_i heq
      subst heq
      cases hnew
      exact ⟨file, hfile, rfl, rfl, rfl, rfl, fun h => (by cases h), by rw [hstate]; rfl⟩
    · exact hkeeps hnew
  | @record file_id size file event_id now htask hfile hstate =>
    have hsize := Entered.unique h.committed_once (hdeletions file_id size (.inr htask)) (h.files file_id file hfile).2
    have hsame : Accounts grants' system.tables system.ledger :=
      h.silent hgrants (fun _ new hnew => .inl ⟨new, hnew, .refl new⟩) (fun _ _ hnew => hkeeps hnew) rfl
    exact hsame.delete rfl hsize hfile
  | _ => exact hsilent (fun _ _ hnew => hkeeps hnew) rfl

/-- A request that comes to delete bytes or to record a deletion knows the size of its file. -/
theorem DeleteSpawned.entered {old : Option Task} {task : Task} {file_id : String} {size : Nat}
    (h : DeleteSpawned system old task) (haccounts : Accounts system.grants system.tables system.ledger)
    (hdeletions : DeletionsExact system) (hold : ∀ before, old = some before → system.Running before)
    (htask : task = .Removing file_id size ∨ task = .Recording file_id size) :
    Entered system.ledger .committed file_id size := by
  cases h with
  | inspecting | selecting => rcases htask with h | h <;> cases h
  | removing hfile _ =>
    rcases htask with h | h
    · cases h
      exact (haccounts.files _ _ hfile).2
    · cases h
  | recording =>
    rcases htask with h | h
    · cases h
    · cases h
      exact hdeletions _ _ (.inl (hold _ rfl))

/-- One step keeps the deletions exact. -/
theorem DeletionsExact.step (h : DeletionsExact system)
    (haccounts : Accounts system.grants system.tables system.ledger) (hbounded : system.tables.Bounded) :
    DeletionsExact (system.step limits sha256 action) := by
  obtain ⟨entries, _, hledger⟩ := step_follows limits sha256 hbounded action
  have hkey : ∀ task file_id size, (system.step limits sha256 action).Running task →
      task = .Removing file_id size ∨ task = .Recording file_id size →
      Entered system.ledger .committed file_id size := by
    intro task file_id size hrunning htask
    have hold : system.Running task → Entered system.ledger .committed file_id size := by
      intro hold
      rcases htask with rfl | rfl
      · exact h file_id size (.inl hold)
      · exact h file_id size (.inr hold)
    rcases hrunning with ⟨id, hid⟩ | ⟨file_ids, hmode⟩
    · obtain ⟨moved, hothers, hmoved⟩ := step_moves limits sha256 system action
      by_cases heq : id = moved
      · subst heq
        rcases hmoved task hid with hsame | hspawned
        · exact hold (.inl ⟨id, hsame⟩)
        · have hdelete : DeleteSpawned system system.tasks[id]? task := by
            generalize system.tasks[id]? = old at hspawned
            rcases htask with rfl | rfl <;> cases hspawned <;> assumption
          exact hdelete.entered haccounts h (fun before hbefore => .inl ⟨id, hbefore⟩) htask
      · exact hold (.inl ⟨id, hothers id task heq hid⟩)
    · rcases step_finish hmode with hsame | ⟨old, hdelete, hbefore⟩
      · exact hold (.inr ⟨file_ids, hsame⟩)
      · exact hdelete.entered haccounts h hbefore htask
  intro file_id size hrunning
  rw [hledger]
  rcases hrunning with hrunning | hrunning
  · exact (hkey _ file_id size hrunning (.inl rfl)).append
  · exact (hkey _ file_id size hrunning (.inr rfl)).append

/-- What every reachable state keeps about the ledger. -/
structure Exact (system : System) : Prop where
  bounded : system.tables.Bounded
  identified : Identified system
  accounts : Accounts system.grants system.tables system.ledger
  deletions : DeletionsExact system

theorem Exact.new : Exact .new where
  bounded := (Within.new one_file).bounded
  identified := (Within.new one_file).identified
  accounts := {
    committed_once := List.nodup_nil
    deleted_once := List.nodup_nil
    granted := nofun
    released := nofun
    deleted := nofun
    files := fun file_id file hfile => by simp [System.new, FileTables.empty] at hfile
    balance := by simp [System.new, FileTables.empty, FileTables.committed_bytes, bytes_of, events] }
  deletions file_id size hrunning := by
    rcases hrunning with (⟨id, hid⟩ | ⟨_, hmode⟩) | (⟨id, hid⟩ | ⟨_, hmode⟩)
    · simp [System.new] at hid
    · cases hmode
    · simp [System.new] at hid
    · cases hmode

theorem Exact.step (h : Exact system) (limits : FileStorageLimits) (sha256 : List UInt8 → Sha256Digest)
    (action : Action) : Exact (system.step limits sha256 action) := by
  obtain ⟨entries, hchange, hledger⟩ := step_follows limits sha256 h.bounded action
  refine ⟨hchange.bounded h.bounded, h.identified.step h.bounded, ?_, h.deletions.step h.accounts h.bounded⟩
  rw [hledger]
  exact h.accounts.change h.identified h.deletions (grants_subset limits sha256 system action) hchange

theorem Exact.run (h : Exact system) (limits : FileStorageLimits) (sha256 : List UInt8 → Sha256Digest)
    (actions : List Action) : Exact (machine.run (System.step limits sha256) system actions) := by
  induction actions generalizing system with
  | nil => exact h
  | cons action actions ih => exact ih (h.step limits sha256 action)

/-- After every run: no two grants share an identifier; each file was committed once, under a grant, and deleted at
most once, with the same size; a file that exists was committed with its size and not deleted; the events balance the
files. One more step removes an event from the outbox only if it is the `DELETE` of an acknowledgement that covers it. -/
theorem usage_ledger_exact (limits : FileStorageLimits) (sha256 : List UInt8 → Sha256Digest) (actions : List Action)
    (action : Action) :
    let system := machine.run (System.step limits sha256) .new actions
    (system.grants.map Prod.fst).Nodup ∧ (system.grants.map Prod.snd).Nodup ∧
    ((events .committed system.ledger).map LedgerEntry.file_id).Nodup ∧
    (∀ entry ∈ system.ledger, entry.event.kind = .committed → entry.file_id ∈ system.grants.map Prod.snd) ∧
    ((events .deleted system.ledger).map LedgerEntry.file_id).Nodup ∧
    (∀ entry ∈ system.ledger, entry.event.kind = .deleted →
      Entered system.ledger .committed entry.file_id entry.event.quantity ∧
      entry.file_id ∉ system.tables.files) ∧
    (∀ (file_id : String) (file : FileRecord), system.tables.files[file_id]? = some file →
      Entered system.ledger .committed file_id file.size_bytes) ∧
    bytes_of .committed system.ledger = bytes_of .deleted system.ledger + system.tables.committed_bytes ∧
    (∀ (sequence : Nat) (row : UsageRow), system.tables.usage_outbox[sequence]? = some row →
      (system.step limits sha256 action).tables.usage_outbox[sequence]? ≠ some row →
      ∃ id world through_sequence, action = .Step id world ∧
        system.tasks[id]? = some (.Acknowledging through_sequence) ∧ sequence ≤ through_sequence) := by
  intro system
  have hexact : Exact system := Exact.new.run limits sha256 actions
  refine ⟨hexact.identified.uploads_nodup, hexact.identified.files_nodup, hexact.accounts.committed_once,
    hexact.accounts.granted, hexact.accounts.deleted_once, hexact.accounts.deleted,
    fun file_id file hfile => (hexact.accounts.files file_id file hfile).2, hexact.accounts.balance, ?_⟩
  intro sequence row hrow hgone
  obtain ⟨entries, hchange, _⟩ := step_follows limits sha256 hexact.bounded action
  have happend : ∀ {tables : FileTables} {event : UsageRow}, tables.usage_outbox = system.tables.usage_outbox →
      tables.last_sequence = system.tables.last_sequence →
      (tables.append_usage event).usage_outbox[sequence]? = some row := by
    intro tables event houtbox hlast
    have hle := hexact.bounded sequence row hrow
    rw [FileTables.append_usage, houtbox, hlast, ordered_map.getElem?_insert, if_neg (by omega), hrow]
  generalize (system.step limits sha256 action).tables = tables' at hchange hgone
  cases hchange with
  | @acknowledge id world through_sequence haction htask =>
    refine ⟨id, world, through_sequence, haction, htask, ?_⟩
    by_contra hlate
    refine hgone ?_
    rw [purge_usage, ExtTreeMap.getElem?_filter', hrow, Option.filter_some, if_pos]
    simpa using hlate
  | complete | record => exact absurd (happend rfl rfl) hgone
  | _ => exact absurd hrow hgone

end

end runku.file_storage
