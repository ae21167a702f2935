import Runku.ObjectStorageRepository.Adapter

namespace runku.object_storage

open runku.value (TimestampMicros)

/-- The bucket after its configuration was replaced. -/
def Bucket.updated (bucket : Bucket) (configuration : BucketConfiguration) (time : TimestampMicros) : Bucket :=
  { bucket with configuration, revision := bucket.revision + 1, updated_at := time }

def Bucket.archived (bucket : Bucket) (time : TimestampMicros) : Bucket :=
  { bucket with state := .Archived, revision := bucket.revision + 1, updated_at := time }

/-- The key after a rotation, and after its revocation. -/
def AccessKeyMetadata.rotated (metadata : AccessKeyMetadata) (overlap time : TimestampMicros) : AccessKeyMetadata :=
  { metadata with
    revision := metadata.revision + 1, updated_at := time, previous_generation_valid_until := some overlap }

def AccessKeyMetadata.revoked (metadata : AccessKeyMetadata) (time : TimestampMicros) : AccessKeyMetadata :=
  { metadata with
    revision := metadata.revision + 1, state := .Revoked, updated_at := time, previous_generation_valid_until := none }

end runku.object_storage

namespace runku.object_storage_repository

open Std (ExtTreeMap)
open runku.core runku.object_storage
open runku.value (TimestampMicros)
open runku.data (Sha256Digest)
open transaction

section
variable {α β : Type} {tables tables' : StorageTables} {error : ObjectStorageError}

variable {u : Unit}

theorem execute_one_runs {update : StorageTables → Option StorageTables}
    (h : Runs (execute_one error update) tables u tables') : update tables = some tables' := by
  have h := Runs.statement h
  split at h
  · rename_i hupdate
    rw [hupdate, (Prod.mk.inj (Except.ok.inj h)).2]
  · cases h

variable {b : β}

theorem execute_one_bind {update : StorageTables → Option StorageTables} {f : Unit → Sql β}
    (h : Runs (execute_one error update >>= f) tables b tables') :
    ∃ middle, update tables = some middle ∧ Runs (f ()) middle b tables' := by
  obtain ⟨_, middle, hone, h⟩ := h.bind
  exact ⟨middle, execute_one_runs hone, h⟩

theorem ensure_bind {condition : Bool} {f : Unit → Sql β}
    (h : Runs (ensure condition error >>= f) tables b tables') : condition = true ∧ Runs (f ()) tables b tables' := by
  obtain ⟨_, hcondition, h⟩ := Runs.lift_bind h
  split at hcondition
  · rename_i hholds
    exact ⟨hholds, h⟩
  · cases hcondition

theorem ok_or_eq_ok {value : Option α} {a : α} (h : ok_or error value = .ok a) : value = some a := by
  cases value with
  | none => cases h
  | some value => rw [Except.ok.inj h]

variable {validate : α → Except ObjectStorageError Unit}

theorem decode_eq_ok {row value : Option α}
    (h : decode validate row = .ok value) : value = row ∧ ∀ a, row = some a → validate a = .ok () := by
  cases row with
  | none => exact ⟨(Except.ok.inj h).symm, nofun⟩
  | some row =>
    rw [decode] at h
    cases hvalid : validate row with
    | error error =>
      rw [hvalid] at h
      cases h
    | ok _ =>
      rw [hvalid] at h
      refine ⟨(Except.ok.inj h).symm, fun a ha => ?_⟩
      rw [← Option.some.inj ha, hvalid]

/-- Reading a row and decoding it. -/
theorem load_bind {query : StorageTables → Option α} {f : Option α → Sql β}
    (h : Runs ((fetch query >>= fun row => lift (decode validate row)) >>= f) tables b tables') :
    (∀ a, query tables = some a → validate a = .ok ()) ∧ Runs (f (query tables)) tables b tables' := by
  obtain ⟨value, middle, hload, h⟩ := h.bind
  obtain ⟨hdecode, rfl⟩ := hload.fetch_bind.lift
  obtain ⟨rfl, hvalid⟩ := decode_eq_ok hdecode
  exact ⟨hvalid, h⟩

/-- Reading a row that has to be there. -/
theorem load_some_bind {query : StorageTables → Option α} {f : α → Sql β}
    (h : Runs ((fetch query >>= fun row => lift (decode validate row)) >>= fun row => lift (ok_or error row) >>= f)
      tables b tables') : ∃ a, query tables = some a ∧ validate a = .ok () ∧ Runs (f a) tables b tables' := by
  obtain ⟨hvalid, h⟩ := load_bind h
  obtain ⟨a, hsome, h⟩ := h.lift_bind
  have hrow := ok_or_eq_ok hsome
  exact ⟨a, hrow, hvalid a hrow, h⟩

theorem checked_add_eq_ok {left right sum : UInt64} (h : checked_add left right = .ok sum) :
    sum = left + right ∧ sum.toNat = left.toNat + right.toNat := by
  unfold checked_add at h
  split at h
  · rename_i hfits
    cases h
    exact ⟨rfl, by rw [UInt64.toNat_add, Nat.mod_eq_of_lt hfits]⟩
  · cases h

variable {expected : UInt64}

theorem require_active_eq_ok {bucket : Bucket}
    (h : require_active bucket expected = .ok u) : bucket.state = .Active ∧ bucket.revision = expected := by
  unfold require_active at h
  split at h
  · cases h
  · rename_i hactive
    rw [not_or, not_not, not_not] at hactive
    exact hactive

theorem require_not_before_eq_ok {time current : TimestampMicros}
    (h : require_not_before time current = .ok u) : ¬time < current := by
  unfold require_not_before at h
  split at h
  · cases h
  · assumption

theorem mapError_eq_ok {f : ObjectStorageError → ObjectStorageError} {x : Except ObjectStorageError α} {a : α}
    (h : x.mapError f = .ok a) : x = .ok a := by
  cases x with
  | error error => cases h
  | ok value => exact h

theorem expected_bucket_eq_some {bucket_id : BucketId} {row : Bucket}
    (h : tables.expected_bucket bucket_id expected = some row) :
    tables.buckets[bucket_id]? = some row ∧ row.revision = expected ∧ row.state = .Active := by
  obtain ⟨hrow, hexpected⟩ := Option.filter_eq_some_iff.mp h
  rw [Bool.and_eq_true, decide_eq_true_eq, decide_eq_true_eq] at hexpected
  exact ⟨hrow, hexpected⟩

theorem expected_key_eq_some {key : AccessKeyRef} {row : AccessKeyMetadata}
    (h : tables.expected_key key expected = some row) :
    tables.access_keys[key]? = some row ∧ row.revision = expected ∧ row.state = .Active := by
  obtain ⟨hrow, hexpected⟩ := Option.filter_eq_some_iff.mp h
  rw [Bool.and_eq_true, decide_eq_true_eq, decide_eq_true_eq] at hexpected
  exact ⟨hrow, hexpected⟩

end

/-- What a command does to the tables, and under which conditions. -/
inductive Performed (tables : StorageTables) : ObjectStorageCommand → StorageTables → Prop
  | create {bucket_id : BucketId} {configuration : BucketConfiguration} {actor : ObjectStorageActor}
    {time : TimestampMicros} (hfresh : bucket_id ∉ tables.buckets)
    (hvalid : (⟨configuration, 1, .Active, time, time⟩ : Bucket).validate = .ok ()) :
    Performed tables (.CreateBucket bucket_id configuration actor time)
      (tables.put_bucket bucket_id ⟨configuration, 1, .Active, time, time⟩)
  | update {bucket_id : BucketId} {expected_revision : UInt64} {configuration : BucketConfiguration}
    {actor : ObjectStorageActor} {time : TimestampMicros} {current : Bucket}
    (hcurrent : tables.buckets[bucket_id]? = some current) (hstate : current.state = .Active)
    (hvalid : (current.updated configuration time).validate = .ok ()) :
    Performed tables (.UpdateBucket bucket_id expected_revision configuration actor time)
      (tables.put_bucket bucket_id (current.updated configuration time))
  | archive {bucket_id : BucketId} {expected_revision : UInt64} {actor : ObjectStorageActor} {time : TimestampMicros}
    {current : Bucket} (hcurrent : tables.buckets[bucket_id]? = some current) (hstate : current.state = .Active)
    (hempty : tables.object_count bucket_id = 0)
    (hlatest : ∀ (key : AccessKeyRef) (metadata : AccessKeyMetadata), tables.access_keys[key]? = some metadata →
      key.bucket_id = bucket_id → ¬time < metadata.updated_at) :
    Performed tables (.ArchiveBucket bucket_id expected_revision actor time)
      (((tables.put_bucket bucket_id (current.archived time)).revoke_keys bucket_id time).revoke_generations time
        (·.bucket_id = bucket_id))
  | issue {bucket_id : BucketId} {access_key_id : AccessKeyId} {configuration : AccessKeyConfiguration}
    {secret_digest : Sha256Digest} {encrypted_secret : EncryptedAccessKeySecret} {actor : ObjectStorageActor}
    {time : TimestampMicros} {bucket : Bucket} (hbucket : tables.buckets[bucket_id]? = some bucket)
    (hstate : bucket.state = .Active) (hfresh : ⟨bucket_id, access_key_id⟩ ∉ tables.access_keys)
    (hvalid : (⟨configuration, 1, .Active, time, time, none⟩ : AccessKeyMetadata).validate = .ok ()) :
    Performed tables
      (.IssueAccessKey bucket_id access_key_id configuration secret_digest encrypted_secret actor time)
      ((tables.put_access_key ⟨bucket_id, access_key_id⟩ ⟨configuration, 1, .Active, time, time, none⟩).put_generation
        ⟨bucket_id, access_key_id, 1⟩ ⟨secret_digest, time, none, none, some encrypted_secret⟩)
  | rotate {bucket_id : BucketId} {access_key_id : AccessKeyId} {expected_revision : UInt64}
    {secret_digest : Sha256Digest} {encrypted_secret : EncryptedAccessKeySecret} {overlap_until : TimestampMicros}
    {actor : ObjectStorageActor} {time : TimestampMicros} {bucket : Bucket} {current : AccessKeyMetadata}
    {row : GenerationRow} (hbucket : tables.buckets[bucket_id]? = some bucket) (hactive : bucket.state = .Active)
    (hcurrent : tables.access_keys[(⟨bucket_id, access_key_id⟩ : AccessKeyRef)]? = some current)
    (hstate : current.state = .Active) (hrevision : current.revision = expected_revision)
    (hnext : (current.revision + 1).toNat = current.revision.toNat + 1) (htime : ¬time < current.updated_at)
    (hrow : tables.generations[(⟨bucket_id, access_key_id, current.revision.toNat⟩ : GenerationKey)]? = some row)
    (hopen : row.revoked_at = none ∧ row.valid_until = none) :
    Performed tables
      (.RotateAccessKey bucket_id access_key_id expected_revision secret_digest encrypted_secret overlap_until actor time)
      (((tables.put_access_key ⟨bucket_id, access_key_id⟩ (current.rotated overlap_until time)).put_generation
          ⟨bucket_id, access_key_id, current.revision.toNat⟩ { row with valid_until := some overlap_until }).put_generation
        ⟨bucket_id, access_key_id, current.revision.toNat + 1⟩
        ⟨secret_digest, time, none, none, some encrypted_secret⟩)
  | revoke {bucket_id : BucketId} {access_key_id : AccessKeyId} {expected_revision : UInt64}
    {actor : ObjectStorageActor} {time : TimestampMicros} {current : AccessKeyMetadata}
    (hcurrent : tables.access_keys[(⟨bucket_id, access_key_id⟩ : AccessKeyRef)]? = some current)
    (hstate : current.state = .Active) (htime : ¬time < current.updated_at) :
    Performed tables (.RevokeAccessKey bucket_id access_key_id expected_revision actor time)
      ((tables.put_access_key ⟨bucket_id, access_key_id⟩ (current.revoked time)).revoke_generations time
        fun generation => generation.bucket_id = bucket_id && generation.access_key_id = access_key_id)

section
variable {tables tables' : StorageTables} {changed : Changed}

variable {bucket_id : BucketId} {actor : ObjectStorageActor} {time : TimestampMicros}

theorem create_bucket_runs {configuration : BucketConfiguration}
    (h : Runs (perform (.CreateBucket bucket_id configuration actor time)) tables changed tables') :
    Performed tables (.CreateBucket bucket_id configuration actor time) tables' := by
  rw [perform] at h
  obtain ⟨_, hvalid, h⟩ := h.lift_bind
  obtain ⟨_, middle, hinsert, h⟩ := h.bind
  obtain ⟨_, rfl⟩ := h.pure
  obtain ⟨_, _, hinsert⟩ := Runs.lift_bind hinsert
  have hinsert := execute_one_runs hinsert
  split at hinsert
  · cases hinsert
  · rename_i hfresh
    rw [not_or] at hfresh
    cases hinsert
    exact .create hfresh.1 (mapError_eq_ok hvalid)

variable {expected_revision : UInt64}

theorem update_bucket_runs {configuration : BucketConfiguration}
    (h : Runs (perform (.UpdateBucket bucket_id expected_revision configuration actor time)) tables changed tables') :
    Performed tables (.UpdateBucket bucket_id expected_revision configuration actor time) tables' := by
  rw [perform] at h
  obtain ⟨current, hcurrent, _, h⟩ := load_some_bind h
  obtain ⟨_, hactive, h⟩ := h.lift_bind
  obtain ⟨hstate, rfl⟩ := require_active_eq_ok hactive
  obtain ⟨_, _, h⟩ := h.lift_bind
  obtain ⟨revision, hrevision, h⟩ := h.lift_bind
  obtain ⟨rfl, _⟩ := checked_add_eq_ok hrevision
  obtain ⟨_, hvalid, h⟩ := h.lift_bind
  obtain ⟨_, middle, hupdate, h⟩ := h.bind
  obtain ⟨_, rfl⟩ := h.pure
  obtain ⟨_, _, hupdate⟩ := Runs.lift_bind hupdate
  obtain ⟨_, _, hupdate⟩ := hupdate.lift_bind
  obtain ⟨row, hrow, hupdate⟩ := Option.bind_eq_some_iff.mp (execute_one_runs hupdate)
  cases hcurrent.symm.trans (expected_bucket_eq_some hrow).1
  split at hupdate
  · cases hupdate
  · cases hupdate
    exact .update hcurrent hstate (mapError_eq_ok hvalid)

/-- All that archiving a bucket does. -/
theorem archive_bucket_runs
    (h : Runs (perform (.ArchiveBucket bucket_id expected_revision actor time)) tables changed tables') :
    Performed tables (.ArchiveBucket bucket_id expected_revision actor time) tables' := by
  rw [perform] at h
  obtain ⟨current, hcurrent, _, h⟩ := load_some_bind h
  obtain ⟨_, hactive, h⟩ := h.lift_bind
  obtain ⟨hstate, rfl⟩ := require_active_eq_ok hactive
  obtain ⟨_, _, h⟩ := h.lift_bind
  have h := Runs.fetch_bind h
  obtain ⟨hlatest, h⟩ := ensure_bind h
  have h := h.fetch_bind
  obtain ⟨hempty, h⟩ := ensure_bind h
  obtain ⟨revision, hrevision, h⟩ := h.lift_bind
  obtain ⟨rfl, _⟩ := checked_add_eq_ok hrevision
  obtain ⟨_, middle, harchive, h⟩ := h.bind
  obtain ⟨_, middle', hrevoke, h⟩ := h.bind
  obtain ⟨_, rfl⟩ := h.pure
  obtain ⟨_, _, harchive⟩ := Runs.lift_bind harchive
  obtain ⟨_, _, harchive⟩ := harchive.lift_bind
  obtain ⟨row, hrow, harchive⟩ := Option.bind_eq_some_iff.mp (execute_one_runs harchive)
  cases hcurrent.symm.trans (expected_bucket_eq_some hrow).1
  cases harchive
  obtain rfl := (Runs.execute_bind hrevoke).execute
  refine .archive hcurrent hstate (of_decide_eq_true hempty) fun key metadata hmetadata hkey hbefore => ?_
  -- The newest change among the keys is not older than this one.
  have hmem : metadata.updated_at.toInt ∈ (tables.access_keys.toList.filter (·.1.bucket_id = bucket_id)).map
      fun row => row.2.updated_at.toInt := by
    rw [List.mem_map]
    exact ⟨(key, metadata), List.mem_filter.mpr
      ⟨ExtTreeMap.mem_toList_iff_getElem?_eq_some.mpr hmetadata, decide_eq_true hkey⟩, rfl⟩
  cases hmax : ((tables.access_keys.toList.filter (·.1.bucket_id = bucket_id)).map
      fun row => row.2.updated_at.toInt).max? with
  | none =>
    rw [List.max?_eq_none_iff.mp hmax] at hmem
    cases hmem
  | some latest =>
    have hle := (List.max?_eq_some_iff.mp hmax).2 _ hmem
    rw [hmax, Option.any_some, Bool.not_eq_true', decide_eq_false_iff_not] at hlatest
    exact hlatest (Int.lt_of_lt_of_le (Int64.lt_iff_toInt_lt.mp hbefore) hle)

variable {access_key_id : AccessKeyId}

theorem issue_access_key_runs {configuration : AccessKeyConfiguration} {secret_digest : Sha256Digest}
    {encrypted_secret : EncryptedAccessKeySecret}
    (h : Runs (perform (.IssueAccessKey bucket_id access_key_id configuration secret_digest encrypted_secret actor time))
      tables changed tables') : Performed tables
      (.IssueAccessKey bucket_id access_key_id configuration secret_digest encrypted_secret actor time) tables' := by
  rw [perform] at h
  obtain ⟨bucket, hbucket, _, h⟩ := load_some_bind h
  obtain ⟨hstate, h⟩ := ensure_bind h
  obtain ⟨_, _, h⟩ := h.lift_bind
  obtain ⟨_, hvalid, h⟩ := h.lift_bind
  obtain ⟨_, middle, hinsert, h⟩ := h.bind
  obtain ⟨_, rfl⟩ := h.pure
  obtain ⟨keyed, hkey, hinsert⟩ := execute_one_bind hinsert
  have hgeneration := execute_one_runs hinsert
  split at hkey
  · cases hkey
  rename_i hfresh
  rw [not_or] at hfresh
  cases hkey
  split at hgeneration
  · cases hgeneration
  cases hgeneration
  exact .issue hbucket (of_decide_eq_true hstate) hfresh.1 (mapError_eq_ok hvalid)

theorem rotate_access_key_runs
    {secret_digest : Sha256Digest} {encrypted_secret : EncryptedAccessKeySecret} {overlap_until : TimestampMicros}
    (h : Runs (perform (.RotateAccessKey bucket_id access_key_id expected_revision secret_digest encrypted_secret
      overlap_until actor time)) tables changed tables') :
    Performed tables (.RotateAccessKey bucket_id access_key_id expected_revision secret_digest encrypted_secret
      overlap_until actor time) tables' := by
  rw [perform] at h
  obtain ⟨bucket, hbucket, _, h⟩ := load_some_bind h
  obtain ⟨hactive, h⟩ := ensure_bind h
  obtain ⟨current, hcurrent, _, h⟩ := load_some_bind h
  obtain ⟨hexpected, h⟩ := ensure_bind h
  rw [Bool.and_eq_true, decide_eq_true_eq, decide_eq_true_eq] at hexpected
  obtain ⟨hstate, rfl⟩ := hexpected
  obtain ⟨_, htime, h⟩ := h.lift_bind
  obtain ⟨revision, hrevision, h⟩ := h.lift_bind
  obtain ⟨rfl, hnext⟩ := checked_add_eq_ok hrevision
  obtain ⟨_, middle, hrotate, h⟩ := h.bind
  obtain ⟨_, rfl⟩ := h.pure
  obtain ⟨_, _, hrotate⟩ := Runs.lift_bind hrotate
  obtain ⟨_, _, hrotate⟩ := hrotate.lift_bind
  obtain ⟨keyed, hkey, hrotate⟩ := execute_one_bind hrotate
  obtain ⟨retired, hretire, hrotate⟩ := execute_one_bind hrotate
  have hinsert := execute_one_runs hrotate
  obtain ⟨found, hfound, hkey⟩ := Option.bind_eq_some_iff.mp hkey
  cases hcurrent.symm.trans (expected_key_eq_some hfound).1
  cases hkey
  obtain ⟨row, hrow, hretire⟩ := Option.bind_eq_some_iff.mp hretire
  split at hretire
  · rename_i hopen
    cases hretire
    split at hinsert
    · cases hinsert
    · cases hinsert
      have hone : (1 : UInt64).toNat = 1 := rfl
      rw [hone] at hnext
      rw [hnext]
      exact .rotate hbucket (of_decide_eq_true hactive) hcurrent hstate rfl hnext
        (require_not_before_eq_ok htime) hrow hopen
  · cases hretire

theorem revoke_access_key_runs
    (h : Runs (perform (.RevokeAccessKey bucket_id access_key_id expected_revision actor time)) tables changed tables') :
    Performed tables (.RevokeAccessKey bucket_id access_key_id expected_revision actor time) tables' := by
  rw [perform] at h
  obtain ⟨current, hcurrent, _, h⟩ := load_some_bind h
  obtain ⟨hexpected, h⟩ := ensure_bind h
  rw [Bool.and_eq_true, decide_eq_true_eq, decide_eq_true_eq] at hexpected
  obtain ⟨hstate, rfl⟩ := hexpected
  obtain ⟨_, htime, h⟩ := h.lift_bind
  obtain ⟨revision, hrevision, h⟩ := h.lift_bind
  obtain ⟨rfl, _⟩ := checked_add_eq_ok hrevision
  obtain ⟨_, middle, hrevoke, h⟩ := h.bind
  obtain ⟨_, rfl⟩ := h.pure
  obtain ⟨_, _, hrevoke⟩ := Runs.lift_bind hrevoke
  obtain ⟨_, _, hrevoke⟩ := hrevoke.lift_bind
  obtain ⟨keyed, hkey, hrevoke⟩ := execute_one_bind hrevoke
  obtain ⟨found, hfound, hkey⟩ := Option.bind_eq_some_iff.mp hkey
  cases hcurrent.symm.trans (expected_key_eq_some hfound).1
  cases hkey
  obtain rfl := hrevoke.execute
  exact .revoke hcurrent hstate (require_not_before_eq_ok htime)

theorem perform_runs {command : ObjectStorageCommand} (h : Runs (perform command) tables changed tables') :
    Performed tables command tables' := by
  cases command with
  | CreateBucket => exact create_bucket_runs h
  | UpdateBucket => exact update_bucket_runs h
  | ArchiveBucket => exact archive_bucket_runs h
  | IssueAccessKey => exact issue_access_key_runs h
  | RotateAccessKey => exact rotate_access_key_runs h
  | RevokeAccessKey => exact revoke_access_key_runs h

/-- A command is in the journal already, or takes effect now. -/
theorem apply_runs {sha256 : List UInt8 → Sha256Digest} {scope : EnvironmentScope} {operation_id : OperationId}
    {command : ObjectStorageCommand} {result : ObjectStorageOperationResult}
    (h : Runs (apply sha256 scope operation_id command) tables result tables') :
    (∃ stored, tables.operations[operation_id]? = some stored ∧ stored.digest = command.digest sha256 scope ∧
      result = ⟨stored.operation, true⟩ ∧ tables' = tables) ∨
    (tables.operations[operation_id]? = none ∧ command.validate_new = .ok () ∧
      ∃ middle operation audit, Performed tables command middle ∧ result = ⟨operation, false⟩ ∧
        tables' = { middle with
          operations := middle.operations.insert operation_id ⟨command.digest sha256 scope, operation⟩, audit }) := by
  have h := h.fetch_bind
  split at h
  · rename_i stored hstored
    split at h
    · cases h.lift.1
    · rename_i hdigest
      obtain ⟨rfl, rfl⟩ := h.pure
      exact .inl ⟨stored, hstored, not_not.mp hdigest, rfl, rfl⟩
  · rename_i hstored
    obtain ⟨_, hvalid, h⟩ := h.lift_bind
    obtain ⟨changed, middle, hperform, h⟩ := h.bind
    obtain ⟨_, journaled, hoperation, h⟩ := h.bind
    obtain ⟨_, audited, haudit, h⟩ := h.bind
    obtain ⟨rfl, rfl⟩ := h.pure
    obtain ⟨_, _, hoperation⟩ := Runs.lift_bind hoperation
    have hoperation := execute_one_runs hoperation
    have haudit := Runs.fetch_bind haudit
    obtain ⟨_, _, haudit⟩ := haudit.lift_bind
    have haudit := execute_one_runs haudit
    split at hoperation
    · cases hoperation
    cases hoperation
    split at haudit
    · cases haudit
    cases haudit
    exact .inr ⟨hstored, hvalid, middle, _, _, perform_runs hperform, rfl, rfl⟩

end

/-- The tables with an object operation in the journal. -/
def StorageTables.journal (tables : StorageTables) (operation_id : OperationId) (stored : StoredObjectOperation)
    (object_audit : List ObjectAuditRow) : StorageTables :=
  { tables with object_operations := tables.object_operations.insert operation_id stored, object_audit }

/-- The conditions under which a put takes effect. -/
structure Admitted (tables : StorageTables) (bucket_id : BucketId) (command : PutObjectCommand) (bucket : Bucket) :
    Prop where
  found : tables.buckets[bucket_id]? = some bucket
  active : bucket.state = .Active
  size : command.size ≤ bucket.configuration.quota.max_object_bytes
  quota : check_quota bucket.configuration.quota (tables.total_bytes bucket_id) (tables.object_count bucket_id)
    tables.objects[(⟨bucket_id, command.key⟩ : ObjectKey)]? command.size = .ok ()
  fresh : (⟨bucket_id, command.key, command.version_id⟩ : VersionKey) ∉ tables.versions
  valid : (command.object bucket_id).validate = .ok ()

section
variable {tables tables' : StorageTables} {sha256 : List UInt8 → Sha256Digest} {scope : EnvironmentScope}
  {bucket_id : BucketId} {operation_id : OperationId} {result : ObjectOperationResult}

theorem insert_object_audit_runs {operation : ObjectOperation} {actor : ObjectStorageActor} {size : UInt64} {u : Unit}
    (h : Runs (insert_object_audit operation_id operation actor size) tables u tables') :
    ∃ object_audit, tables' = { tables with object_audit } := by
  have h := Runs.fetch_bind h
  obtain ⟨_, _, h⟩ := h.lift_bind
  obtain ⟨_, _, h⟩ := h.lift_bind
  have h := execute_one_runs h
  split at h
  · cases h
  · exact ⟨_, (Option.some.inj h).symm⟩

/-- All that a put does. -/
theorem put_new_object_runs {digest : Sha256Digest} {command : PutObjectCommand}
    (h : Runs (put_new_object digest bucket_id operation_id command) tables result tables') :
    (∃ bucket, Admitted tables bucket_id command bucket) ∧
      result = ⟨⟨.put, bucket_id, command.key, command.version_id, command.at⟩, some (command.object bucket_id), false⟩ ∧
      ∃ object_audit, tables' = ((tables.put_version (command.object bucket_id)).put_object
        (command.object bucket_id)).journal operation_id ⟨digest, result.operation⟩ object_audit := by
  obtain ⟨_, _, h⟩ := Runs.lift_bind h
  obtain ⟨bucket, hbucket, _, h⟩ := load_some_bind h
  obtain ⟨hactive, h⟩ := ensure_bind h
  obtain ⟨hsize, h⟩ := ensure_bind h
  obtain ⟨_, h⟩ := load_bind h
  obtain ⟨totals, same, htotals, h⟩ := h.statement_bind
  split at htotals
  · cases htotals
    obtain ⟨_, hquota, h⟩ := h.lift_bind
    obtain ⟨_, hvalid, h⟩ := h.lift_bind
    obtain ⟨_, versioned, hversion, h⟩ := h.bind
    obtain ⟨_, current, hcurrent, h⟩ := h.bind
    obtain ⟨_, journaled, hoperation, h⟩ := h.bind
    obtain ⟨_, audited, haudit, h⟩ := h.bind
    obtain ⟨rfl, rfl⟩ := h.pure
    obtain ⟨_, _, hversion⟩ := Runs.lift_bind hversion
    have hversion := execute_one_runs hversion
    split at hversion
    · cases hversion
    rename_i hfresh
    rw [not_or] at hfresh
    cases hversion
    obtain ⟨_, _, hcurrent⟩ := Runs.lift_bind hcurrent
    have hcurrent := execute_one_runs hcurrent
    split at hcurrent
    · cases hcurrent
    cases hcurrent
    have hoperation := execute_one_runs hoperation
    split at hoperation
    · cases hoperation
    cases hoperation
    obtain ⟨object_audit, rfl⟩ := insert_object_audit_runs haudit
    exact ⟨⟨bucket, hbucket, of_decide_eq_true hactive, of_decide_eq_true hsize, hquota, hfresh.1,
      mapError_eq_ok hvalid⟩, rfl, object_audit, rfl⟩
  · cases htotals

/-- A put is in the journal already, and its version is still there; or it takes effect now. -/
theorem put_object_runs {command : PutObjectCommand}
    (h : Runs (put_object sha256 scope bucket_id operation_id command) tables result tables') :
    (∃ stored object, tables.object_operations[operation_id]? = some stored ∧
      stored.digest = command.digest sha256 scope bucket_id ∧
      tables.versions[(⟨stored.operation.bucket_id, stored.operation.key, stored.operation.version_id⟩ : VersionKey)]? =
        some object ∧ result = ⟨stored.operation, some object, true⟩ ∧ tables' = tables) ∨
    (tables.object_operations[operation_id]? = none ∧ (∃ bucket, Admitted tables bucket_id command bucket) ∧
      result = ⟨⟨.put, bucket_id, command.key, command.version_id, command.at⟩, some (command.object bucket_id), false⟩ ∧
      ∃ object_audit, tables' = ((tables.put_version (command.object bucket_id)).put_object
        (command.object bucket_id)).journal operation_id
          ⟨command.digest sha256 scope bucket_id, result.operation⟩ object_audit) := by
  have h := h.fetch_bind
  split at h
  · rename_i stored hstored
    split at h
    · cases h.lift.1
    · rename_i hdigest
      obtain ⟨object, hobject, _, h⟩ := load_some_bind h
      obtain ⟨rfl, rfl⟩ := h.pure
      exact .inl ⟨stored, object, hstored, not_not.mp hdigest, hobject, rfl, rfl⟩
  · rename_i hstored
    exact .inr ⟨hstored, put_new_object_runs h⟩

theorem delete_current_object_runs {digest : Sha256Digest} {command : DeleteObjectCommand}
    (h : Runs (delete_current_object digest bucket_id operation_id command) tables result tables') :
    (∃ bucket, tables.buckets[bucket_id]? = some bucket ∧ bucket.state = .Active) ∧
      (∃ current, tables.objects[(⟨bucket_id, command.key⟩ : ObjectKey)]? = some current ∧
        current.version_id = command.expected_version_id) ∧
      result = ⟨⟨.delete, bucket_id, command.key, command.expected_version_id, command.at⟩, none, false⟩ ∧
      ∃ object_audit, tables' = (tables.erase_object ⟨bucket_id, command.key⟩).journal operation_id
        ⟨digest, result.operation⟩ object_audit := by
  obtain ⟨_, _, h⟩ := Runs.lift_bind h
  obtain ⟨bucket, hbucket, _, h⟩ := load_some_bind h
  obtain ⟨hactive, h⟩ := ensure_bind h
  obtain ⟨current, hcurrent, _, h⟩ := load_some_bind h
  obtain ⟨hversion, h⟩ := ensure_bind h
  obtain ⟨erased, herase, h⟩ := execute_one_bind h
  obtain ⟨_, journaled, hoperation, h⟩ := h.bind
  obtain ⟨_, audited, haudit, h⟩ := h.bind
  obtain ⟨rfl, rfl⟩ := h.pure
  obtain ⟨row, _, herase⟩ := Option.bind_eq_some_iff.mp herase
  split at herase
  · cases herase
    have hoperation := execute_one_runs hoperation
    split at hoperation
    · cases hoperation
    cases hoperation
    obtain ⟨object_audit, rfl⟩ := insert_object_audit_runs haudit
    exact ⟨⟨bucket, hbucket, of_decide_eq_true hactive⟩, ⟨current, hcurrent, of_decide_eq_true hversion⟩, rfl,
      object_audit, rfl⟩
  · cases herase

theorem delete_object_runs {command : DeleteObjectCommand}
    (h : Runs (delete_object sha256 scope bucket_id operation_id command) tables result tables') :
    (∃ stored, tables.object_operations[operation_id]? = some stored ∧
      stored.digest = command.digest sha256 scope bucket_id ∧ result = ⟨stored.operation, none, true⟩ ∧
      tables' = tables) ∨ (tables.object_operations[operation_id]? = none ∧
      (∃ bucket, tables.buckets[bucket_id]? = some bucket ∧ bucket.state = .Active) ∧
      (∃ current, tables.objects[(⟨bucket_id, command.key⟩ : ObjectKey)]? = some current ∧
        current.version_id = command.expected_version_id) ∧
      result = ⟨⟨.delete, bucket_id, command.key, command.expected_version_id, command.at⟩, none, false⟩ ∧
      ∃ object_audit, tables' = (tables.erase_object ⟨bucket_id, command.key⟩).journal operation_id
        ⟨command.digest sha256 scope bucket_id, result.operation⟩ object_audit) := by
  have h := h.fetch_bind
  split at h
  · rename_i stored hstored
    split at h
    · cases h.lift.1
    · rename_i hdigest
      obtain ⟨rfl, rfl⟩ := h.pure
      exact .inl ⟨stored, hstored, not_not.mp hdigest, rfl, rfl⟩
  · rename_i hstored
    exact .inr ⟨hstored, delete_current_object_runs h⟩

/-- The tables after the current version of a key was removed: the newest remaining version is current. -/
def StorageTables.promoted (tables : StorageTables) (key : ObjectKey) : StorageTables :=
  match (tables.versions_of key).getLast? with
  | some prior => (tables.erase_object key).put_object prior
  | none => tables.erase_object key

/-- All that the promotion of a version does. -/
theorem promote_runs {key : ObjectKey} {u : Unit} (h : Runs (promote key) tables u tables') :
    tables' = tables.promoted key := by
  have h := (Runs.execute_bind h).fetch_bind
  obtain ⟨prior, hprior, h⟩ := h.lift_bind
  obtain ⟨rfl, _⟩ := decode_eq_ok hprior
  have hversions : (tables.erase_object key).versions_of key = tables.versions_of key := rfl
  unfold StorageTables.promoted
  rw [hversions] at h
  cases hprior : (tables.versions_of key).getLast? with
  | some prior =>
    rw [hprior] at h
    obtain ⟨_, _, h⟩ := Runs.lift_bind h
    have h := execute_one_runs h
    split at h
    · cases h
    · exact (Option.some.inj h).symm
  | none =>
    rw [hprior] at h
    exact h.pure.2

/-- Removing one version: nothing is there, or the version goes and the key falls back to the newest of the others if
it was current. -/
theorem delete_object_version_runs {key : String} {version_id : ObjectVersionId} {deleted : Bool}
    (h : Runs (delete_object_version bucket_id key version_id) tables deleted tables') :
    (deleted = false ∧ tables.versions[(⟨bucket_id, key, version_id⟩ : VersionKey)]? = none ∧ tables' = tables) ∨
    (deleted = true ∧ (∃ target, tables.versions[(⟨bucket_id, key, version_id⟩ : VersionKey)]? = some target) ∧
      tables' = if tables.is_current ⟨bucket_id, key, version_id⟩ then
          (tables.erase_version ⟨bucket_id, key, version_id⟩).promoted ⟨bucket_id, key⟩
        else tables.erase_version ⟨bucket_id, key, version_id⟩) := by
  obtain ⟨_, _, h⟩ := Runs.lift_bind h
  obtain ⟨_, h⟩ := load_bind h
  split at h
  · rename_i hnone
    obtain ⟨rfl, rfl⟩ := h.pure
    exact .inl ⟨rfl, hnone, rfl⟩
  · rename_i target htarget
    obtain ⟨_, h⟩ := load_bind h
    obtain ⟨erased, herase, h⟩ := execute_one_bind h
    split at herase
    · cases herase
      obtain ⟨_, promoted, hpromote, h⟩ := h.bind
      obtain ⟨rfl, rfl⟩ := h.pure
      refine .inr ⟨rfl, ⟨target, htarget⟩, ?_⟩
      unfold promote_after at hpromote
      unfold StorageTables.is_current
      split at hpromote
      · rename_i hcurrent
        rw [if_pos hcurrent]
        exact promote_runs hpromote
      · rename_i hcurrent
        rw [if_neg hcurrent]
        exact hpromote.pure.2
    · cases herase

end

/-- The uploads after the rule on incomplete uploads, if it is set. -/
def StorageTables.abort_uploads (tables : StorageTables) (bucket_id : BucketId) (time : TimestampMicros) (limit : Nat) :
    Option UInt32 → ExtTreeMap UploadKey UploadRow
  | some days => tables.uploads.map fun key row =>
      if (tables.incomplete_uploads bucket_id (cutoff time days) limit).contains key then row.set_state .Aborted else row
  | none => tables.uploads

/-- What a lifecycle pass leaves behind. -/
structure Expired (tables : StorageTables) (objects : ExtTreeMap ObjectKey ObjectMetadata)
    (versions : ExtTreeMap VersionKey ObjectMetadata) : Prop where
  object_kept : ∀ (key : ObjectKey) (object : ObjectMetadata), objects[key]? = some object →
    tables.objects[key]? = some object
  version_kept : ∀ (key : VersionKey) (version : ObjectMetadata), versions[key]? = some version →
    tables.versions[key]? = some version
  noncurrent : ∀ (key : VersionKey) (version object : ObjectMetadata), tables.versions[key]? = some version →
    versions[key]? = none → objects[(⟨key.bucket_id, key.key⟩ : ObjectKey)]? = some object →
    object.version_id ≠ key.version_id

section
variable {tables tables' : StorageTables} {bucket_id : BucketId} {before : Int} {limit removed : Nat}

theorem delete_each_runs {κ : Type} {delete : κ → StorageTables → Option StorageTables} {keys : List κ}
    {inv : StorageTables → Prop} (h : Runs (delete_each delete keys) tables removed tables')
    (hstep : ∀ key ∈ keys, ∀ s s', delete key s = some s' → inv s → inv s') (hs : inv tables) : inv tables' := by
  obtain ⟨_, middle, hcollect, h⟩ := Runs.bind h
  obtain ⟨_, rfl⟩ := h.pure
  refine hcollect.collect_induction (fun key hkey s s' a hbody hinv => ?_) hs
  have hbody := hbody.statement
  split at hbody
  · rename_i hdelete
    obtain ⟨_, rfl⟩ := Prod.mk.inj (Except.ok.inj hbody)
    exact hstep key hkey s _ hdelete hinv
  · obtain ⟨_, rfl⟩ := Prod.mk.inj (Except.ok.inj hbody)
    exact hinv

theorem expire_current_runs (h : Runs (expire_current bucket_id before limit) tables removed tables') :
    ∃ objects, tables' = { tables with objects } ∧
      ∀ (key : ObjectKey) (object : ObjectMetadata), objects[key]? = some object →
        tables.objects[key]? = some object := by
  refine @delete_each_runs tables tables' removed ObjectKey _ _
    (fun s => ∃ objects, s = { tables with objects } ∧ ∀ (key : ObjectKey) (object : ObjectMetadata),
      objects[key]? = some object → tables.objects[key]? = some object) (Runs.fetch_bind h)
    (fun key _ s s' hdelete => ?_) ⟨tables.objects, rfl, fun _ _ hobject => hobject⟩
  rintro ⟨objects, rfl, hsubset⟩
  split at hdelete
  · cases hdelete
    exact ⟨objects.erase key, rfl, fun other object hobject => hsubset other object (ordered_map.getElem?_of_erase hobject)⟩
  · cases hdelete

theorem expire_noncurrent_runs (h : Runs (expire_noncurrent bucket_id before limit) tables removed tables') :
    ∃ versions, tables' = { tables with versions } ∧
      (∀ (key : VersionKey) (version : ObjectMetadata), versions[key]? = some version →
        tables.versions[key]? = some version) ∧
      ∀ (key : VersionKey) (version : ObjectMetadata), tables.versions[key]? = some version →
        versions[key]? = none → tables.is_current key = false := by
  refine @delete_each_runs tables tables' removed VersionKey _ _
    (fun s => ∃ versions, s = { tables with versions } ∧
      (∀ (key : VersionKey) (version : ObjectMetadata), versions[key]? = some version →
        tables.versions[key]? = some version) ∧
      ∀ (key : VersionKey) (version : ObjectMetadata), tables.versions[key]? = some version →
        versions[key]? = none → tables.is_current key = false) (Runs.fetch_bind h)
    (fun key hkey s s' hdelete => ?_)
    ⟨tables.versions, rfl, fun _ _ hversion => hversion, fun key version hversion hnone => by
      rw [hversion] at hnone
      cases hnone⟩
  rintro ⟨versions, rfl, hsubset, hcurrent⟩
  split at hdelete
  · cases hdelete
    refine ⟨versions.erase key, rfl,
      fun other version hversion => hsubset other version (ordered_map.getElem?_of_erase hversion),
      fun other version hversion hnone => ?_⟩
    rw [ordered_map.getElem?_erase] at hnone
    split at hnone
    · -- Only versions that were not current were selected.
      rename_i heq
      subst heq
      obtain ⟨row, hrow, rfl⟩ := List.mem_map.mp hkey
      have hselected := (List.mem_filter.mp (List.mem_of_mem_take hrow)).2
      simp only [Bool.and_eq_true, Bool.not_eq_true'] at hselected
      exact hselected.2
    · exact hcurrent other version hversion hnone
  · cases hdelete

theorem abort_incomplete_runs (h : Runs (abort_incomplete bucket_id before limit) tables removed tables') :
    tables' = { tables with uploads := tables.uploads.map fun key row =>
      if (tables.incomplete_uploads bucket_id before limit).contains key then row.set_state .Aborted else row } :=
  (Prod.mk.inj (Except.ok.inj (Runs.statement h))).2.symm

/-- All that a lifecycle pass does. -/
theorem apply_lifecycle_runs {lifecycle : BucketLifecycle} {time : TimestampMicros} {result : LifecycleResult}
    (h : Runs (apply_lifecycle lifecycle bucket_id time limit) tables result tables') :
    ∃ objects versions, Expired tables objects versions ∧
      tables' = { tables with
        objects, versions
        uploads := tables.abort_uploads bucket_id time limit lifecycle.abort_incomplete_after_days } := by
  obtain ⟨_, first, hfirst, h⟩ := Runs.bind h
  obtain ⟨_, second, hsecond, h⟩ := h.bind
  obtain ⟨_, third, hthird, h⟩ := h.bind
  obtain ⟨_, rfl⟩ := h.pure
  have hobjects : ∃ objects, first = { tables with objects } ∧
      ∀ (key : ObjectKey) (object : ObjectMetadata), objects[key]? = some object →
        tables.objects[key]? = some object := by
    unfold rule at hfirst
    split at hfirst
    · exact expire_current_runs hfirst
    · exact ⟨tables.objects, hfirst.pure.2, fun _ _ hobject => hobject⟩
  obtain ⟨objects, rfl, hobjects⟩ := hobjects
  have hversions : ∃ versions, second = { ({ tables with objects } : StorageTables) with versions } ∧
      (∀ (key : VersionKey) (version : ObjectMetadata), versions[key]? = some version →
        tables.versions[key]? = some version) ∧
      ∀ (key : VersionKey) (version : ObjectMetadata), tables.versions[key]? = some version →
        versions[key]? = none → ({ tables with objects } : StorageTables).is_current key = false := by
    unfold rule at hsecond
    split at hsecond
    · exact expire_noncurrent_runs hsecond
    · refine ⟨tables.versions, hsecond.pure.2, fun _ _ hversion => hversion, fun key version hversion hnone => ?_⟩
      rw [hversion] at hnone
      cases hnone
  obtain ⟨versions, rfl, hversions, hcurrent⟩ := hversions
  refine ⟨objects, versions, ⟨hobjects, hversions, fun key version object hversion hnone hobject heq => ?_⟩, ?_⟩
  · have hnot := hcurrent key version hversion hnone
    rw [StorageTables.is_current, hobject, Option.any_some, decide_eq_false_iff_not] at hnot
    exact hnot heq
  · unfold rule at hthird
    split at hthird
    · rename_i days hdays
      rw [hdays]
      exact abort_incomplete_runs hthird
    · rename_i hnone
      rw [hnone]
      exact hthird.pure.2

end

section
variable {tables tables' : StorageTables} {key : UploadKey}

variable {u : Unit}

theorem create_multipart_upload_runs {upload : MultipartUpload}
    (h : Runs (create_multipart_upload key upload) tables u tables') :
    key ∉ tables.uploads ∧ upload.state = .Active ∧ upload.completed_at = none ∧ upload.validate = .ok () ∧
      tables' = tables.put_upload key ⟨upload, none⟩ := by
  obtain ⟨_, hvalid, h⟩ := Runs.lift_bind h
  obtain ⟨hactive, h⟩ := ensure_bind h
  rw [Bool.and_eq_true, Option.isNone_iff_eq_none, decide_eq_true_eq] at hactive
  have h := execute_one_runs h
  split at h
  · cases h
  · rename_i hfresh
    rw [not_or] at hfresh
    exact ⟨hfresh.1, hactive.2, hactive.1, hvalid, (Option.some.inj h).symm⟩

theorem put_multipart_part_runs {part : MultipartPart} (h : Runs (put_multipart_part key part) tables u tables') :
    part.validate = .ok () ∧ (∃ row, tables.uploads[key]? = some row ∧ row.upload.state = .Active) ∧
      tables' = tables.put_part ⟨key.bucket_id, key.upload_id, part.number.toNat⟩ part := by
  obtain ⟨_, hvalid, h⟩ := Runs.lift_bind h
  have h := h.fetch_bind
  obtain ⟨state, hstate, h⟩ := h.lift_bind
  obtain ⟨row, hrow, rfl⟩ := Option.map_eq_some_iff.mp (ok_or_eq_ok hstate)
  obtain ⟨hactive, h⟩ := ensure_bind h
  obtain ⟨_, _, h⟩ := h.lift_bind
  exact ⟨hvalid, ⟨row, hrow, of_decide_eq_true hactive⟩, h.execute⟩

/-- The upload belongs to this completion body from now on, or did before. -/
theorem claim_multipart_completion_runs {completion_digest : Sha256Digest}
    (h : Runs (claim_multipart_completion key completion_digest) tables u tables') :
    ∃ row, tables.uploads[key]? = some row ∧
      (row.upload.state = .Active ∧ tables' = tables.put_upload key
          { row.set_state .Completing with completion_digest := some completion_digest } ∨
        (row.upload.state = .Completing ∨ row.upload.state = .Completed) ∧
          row.completion_digest = some completion_digest ∧ tables' = tables) := by
  have h := Runs.fetch_bind h
  obtain ⟨row, hrow, h⟩ := h.lift_bind
  have hrow := ok_or_eq_ok hrow
  refine ⟨row, hrow, ?_⟩
  have hheld : Runs (ensure (row.completion_digest = some completion_digest) .Conflict) tables u tables' →
      row.completion_digest = some completion_digest ∧ tables' = tables := by
    intro h
    obtain ⟨hdigest, htables⟩ := Runs.lift h
    split at hdigest
    · rename_i heq
      exact ⟨of_decide_eq_true heq, htables⟩
    · cases hdigest
  split at h
  · rename_i hstate
    obtain ⟨again, hagain, hput⟩ := Option.bind_eq_some_iff.mp (execute_one_runs h)
    cases hrow.symm.trans hagain
    rw [if_pos hstate] at hput
    exact .inl ⟨hstate, (Option.some.inj hput).symm⟩
  · rename_i hstate
    exact .inr ⟨.inl hstate, hheld h⟩
  · rename_i hstate
    exact .inr ⟨.inr hstate, hheld h⟩
  · cases h.lift.1

theorem complete_multipart_upload_runs {version_id : ObjectVersionId} {time : TimestampMicros}
    {completed : Option ObjectVersionId}
    (h : Runs (complete_multipart_upload key version_id time) tables completed tables') :
    ∃ row, tables.uploads[key]? = some row ∧
      (row.upload.state = .Completed ∧ completed = row.upload.completed_version_id ∧ tables' = tables ∨
        row.upload.state = .Completing ∧ completed = some version_id ∧
          tables' = tables.put_upload key (row.complete version_id time)) := by
  obtain ⟨_, h⟩ := ensure_bind h
  have h := h.fetch_bind
  obtain ⟨row, hrow, h⟩ := h.lift_bind
  have hrow := ok_or_eq_ok hrow
  refine ⟨row, hrow, ?_⟩
  split at h
  · rename_i hstate
    exact .inl ⟨hstate, h.pure⟩
  · obtain ⟨hstate, h⟩ := ensure_bind h
    have hstate := of_decide_eq_true hstate
    obtain ⟨hcompleted, htables⟩ := (Runs.execute_bind h).pure
    rw [hrow] at htables
    dsimp only at htables
    rw [if_pos hstate] at htables
    exact .inr ⟨hstate, hcompleted, htables⟩

end

end runku.object_storage_repository
