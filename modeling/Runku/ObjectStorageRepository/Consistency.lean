import Runku.ObjectStorageRepository.History

namespace runku.object_storage_repository

open Std (ExtTreeMap)
open runku.core runku.object_storage
open runku.value (TimestampMicros)
open runku.data (Sha256Digest)
open transaction

def object_key (object : ObjectMetadata) : ObjectKey := ⟨object.bucket_id, object.key⟩

def version_key (object : ObjectMetadata) : VersionKey := ⟨object.bucket_id, object.key, object.version_id⟩

/-- The two tables of objects agree, and hold what can be decoded again. -/
structure StorageTables.Consistent (tables : StorageTables) : Prop where
  current : ∀ (key : ObjectKey) (object : ObjectMetadata), tables.objects[key]? = some object →
    object_key object = key ∧ tables.versions[version_key object]? = some object
  keyed : ∀ (key : VersionKey) (version : ObjectMetadata), tables.versions[key]? = some version →
    version_key version = key
  valid : ∀ (key : VersionKey) (version : ObjectMetadata), tables.versions[key]? = some version →
    version.validate = .ok ()

section
variable {sha256 : List UInt8 → Sha256Digest} {scope : EnvironmentScope} {tables tables' : StorageTables}
  {key : ObjectKey} {call : Call}

theorem is_current_eq_true {version : VersionKey} : tables.is_current version = true ↔
    ∃ object, tables.objects[(⟨version.bucket_id, version.key⟩ : ObjectKey)]? = some object ∧
      object.version_id = version.version_id := by
  unfold StorageTables.is_current
  cases tables.objects[(⟨version.bucket_id, version.key⟩ : ObjectKey)]? <;> simp

/-- The last of the versions of a key is one of them, and none is newer. -/
theorem getLast?_versions_of {prior : ObjectMetadata} (h : (tables.versions_of key).getLast? = some prior) :
    ∃ version_id, tables.versions[(⟨key.bucket_id, key.key, version_id⟩ : VersionKey)]? = some prior ∧
      ∀ other, (⟨key.bucket_id, key.key, other⟩ : VersionKey) ∈ tables.versions → other ≤ version_id := by
  rw [StorageTables.versions_of, List.getLast?_map] at h
  obtain ⟨⟨⟨bucket_id, name, version_id⟩, _⟩, hlast, rfl⟩ := Option.map_eq_some_iff.mp h
  obtain ⟨hrow, hkey, hgreatest⟩ := @ordered_map.getLast?_filter_toList _ _ _ _
    (fun (row : VersionKey) (_ : ObjectMetadata) => row.bucket_id = key.bucket_id && row.key = key.key) _ hlast
  rw [Bool.and_eq_true, decide_eq_true_eq, decide_eq_true_eq] at hkey
  obtain ⟨rfl, rfl⟩ := hkey
  refine ⟨version_id, hrow, fun other hother => ?_⟩
  obtain ⟨version, hversion⟩ := ExtTreeMap.isSome_getElem?_iff_mem.mpr hother |> Option.isSome_iff_exists.mp
  have hle := hgreatest _ version hversion (by simp)
  -- The keys agree but for their version, so the order of the keys is that of the versions.
  have hlex : toLex (key.bucket_id, toLex (key.key, other)) ≤ toLex (key.bucket_id, toLex (key.key, version_id)) := hle
  simpa [Prod.Lex.toLex_le_toLex] using hlex

theorem getLast?_versions_of_eq_none (h : (tables.versions_of key).getLast? = none) (version_id : ObjectVersionId) :
    (⟨key.bucket_id, key.key, version_id⟩ : VersionKey) ∉ tables.versions := by
  intro hmem
  obtain ⟨version, hversion⟩ := ExtTreeMap.isSome_getElem?_iff_mem.mpr hmem |> Option.isSome_iff_exists.mp
  rw [List.getLast?_eq_none_iff, StorageTables.versions_of, List.map_eq_nil_iff, List.filter_eq_nil_iff] at h
  exact h _ (ExtTreeMap.mem_toList_iff_getElem?_eq_some.mpr hversion) (by simp)

/-- A key that lost its current version shows the newest one that remains, if any does. -/
theorem promoted_cases (key : ObjectKey) (htables : ∀ (key : VersionKey) (version : ObjectMetadata),
      tables.versions[key]? = some version → version_key version = key) :
    (tables.promoted key = tables.erase_object key ∧
      ∀ version_id, (⟨key.bucket_id, key.key, version_id⟩ : VersionKey) ∉ tables.versions) ∨
    ∃ prior, object_key prior = key ∧ tables.versions[version_key prior]? = some prior ∧
      (∀ other, (⟨key.bucket_id, key.key, other⟩ : VersionKey) ∈ tables.versions → other ≤ prior.version_id) ∧
      tables.promoted key = (tables.erase_object key).put_object prior := by
  unfold StorageTables.promoted
  split
  · rename_i prior hprior
    obtain ⟨version_id, hversion, hgreatest⟩ := getLast?_versions_of hprior
    have hkeyed := htables _ _ hversion
    obtain ⟨hbucket, hkey, rfl⟩ := VersionKey.mk.inj hkeyed
    exact .inr ⟨prior, by rw [object_key, hbucket, hkey], by rw [hkeyed, hversion], hgreatest, rfl⟩
  · rename_i hnone
    exact .inl ⟨rfl, getLast?_versions_of_eq_none hnone⟩

theorem promoted_versions (tables : StorageTables) (key : ObjectKey) : (tables.promoted key).versions = tables.versions := by
  unfold StorageTables.promoted
  split <;> rfl

theorem promoted_buckets (tables : StorageTables) (key : ObjectKey) : (tables.promoted key).buckets = tables.buckets := by
  unfold StorageTables.promoted
  split <;> rfl

/-- Fewer rows agree if no current version is lost. -/
theorem StorageTables.Consistent.subset (htables : tables.Consistent)
    (hobjects : ∀ (key : ObjectKey) (object : ObjectMetadata), tables'.objects[key]? = some object →
      tables.objects[key]? = some object ∧ tables'.versions[version_key object]? = some object)
    (hversions : ∀ (key : VersionKey) (version : ObjectMetadata), tables'.versions[key]? = some version →
      tables.versions[key]? = some version) : tables'.Consistent where
  current key object hobject := ⟨(htables.current key object (hobjects key object hobject).1).1,
    (hobjects key object hobject).2⟩
  keyed key version hversion := htables.keyed key version (hversions key version hversion)
  valid key version hversion := htables.valid key version (hversions key version hversion)

variable {object : ObjectMetadata}

/-- A version that is there may become current. -/
theorem StorageTables.Consistent.put_object (htables : tables.Consistent)
    (hversion : tables.versions[version_key object]? = some object) : (tables.put_object object).Consistent where
  current key current hcurrent := by
    rcases ordered_map.getElem?_of_insert hcurrent with ⟨hkey, rfl⟩ | hcurrent
    · exact ⟨hkey, hversion⟩
    · exact htables.current key current hcurrent
  keyed := htables.keyed
  valid := htables.valid

theorem StorageTables.Consistent.put_version (htables : tables.Consistent)
    (hfresh : version_key object ∉ tables.versions) (hvalid : object.validate = .ok ()) :
    (tables.put_version object).Consistent where
  current key current hcurrent := by
    obtain ⟨hkey, hversion⟩ := htables.current key current hcurrent
    refine ⟨hkey, ?_⟩
    rw [StorageTables.put_version, ordered_map.getElem?_insert, if_neg, hversion]
    intro heq
    refine hfresh (ExtTreeMap.mem_iff_isSome_getElem?.mpr ?_)
    rw [version_key, heq, hversion, Option.isSome_some]
  keyed key version hversion := by
    rcases ordered_map.getElem?_of_insert hversion with ⟨hkey, rfl⟩ | hversion
    · exact hkey
    · exact htables.keyed key version hversion
  valid key version hversion := by
    rcases ordered_map.getElem?_of_insert hversion with ⟨_, rfl⟩ | hversion
    · exact hvalid
    · exact htables.valid key version hversion

theorem StorageTables.Consistent.erase_object (htables : tables.Consistent) (key : ObjectKey) :
    (tables.erase_object key).Consistent :=
  htables.subset (fun other object hobject =>
    ⟨ordered_map.getElem?_of_erase hobject, (htables.current other object (ordered_map.getElem?_of_erase hobject)).2⟩)
    fun _ _ => id

/-- A key is the current one of its version only if its row says so. -/
theorem is_current_of_objects (htables : tables.Consistent)
    (hobject : tables.objects[key]? = some object) : tables.is_current (version_key object) = true := by
  obtain ⟨rfl, _⟩ := htables.current key object hobject
  exact is_current_eq_true.mpr ⟨object, hobject, rfl⟩

/-- Removing a version that is not current. -/
theorem StorageTables.Consistent.erase_version (htables : tables.Consistent) {version : VersionKey}
    (hcurrent : tables.is_current version = false) : (tables.erase_version version).Consistent := by
  refine htables.subset (fun key object hobject => ⟨hobject, ?_⟩) fun key found hfound => ordered_map.getElem?_of_erase hfound
  rw [StorageTables.erase_version, ordered_map.getElem?_erase, if_neg]
  · exact (htables.current key object hobject).2
  · rintro rfl
    rw [is_current_of_objects htables hobject] at hcurrent
    cases hcurrent

/-- Removing the current version of a key, and the row that shows it. -/
theorem StorageTables.Consistent.erase_current (htables : tables.Consistent) (version : VersionKey) :
    ((tables.erase_version version).erase_object ⟨version.bucket_id, version.key⟩).Consistent := by
  refine htables.subset (fun key object hobject => ?_) fun key found hfound => ordered_map.getElem?_of_erase hfound
  rw [StorageTables.erase_object, ordered_map.getElem?_erase] at hobject
  split at hobject
  · cases hobject
  · rename_i hother
    obtain ⟨hkey, hversion⟩ := htables.current key object hobject
    refine ⟨hobject, ?_⟩
    have hne : version ≠ version_key object := by
      rintro rfl
      exact hother hkey
    rw [StorageTables.erase_object, StorageTables.erase_version, ordered_map.getElem?_erase, if_neg hne, hversion]

theorem erase_version_keyed (htables : tables.Consistent) {version key : VersionKey}
    (h : (tables.erase_version version).versions[key]? = some object) : version_key object = key :=
  htables.keyed key object (ordered_map.getElem?_of_erase h)

theorem StorageTables.Consistent.promoted (htables : tables.Consistent) (version : VersionKey) :
    ((tables.erase_version version).promoted ⟨version.bucket_id, version.key⟩).Consistent := by
  have herased := htables.erase_current version
  rcases promoted_cases ⟨version.bucket_id, version.key⟩ (fun _ _ => erase_version_keyed htables) with
    ⟨hpromoted, _⟩ | ⟨prior, _, hprior, _, hpromoted⟩
  · rw [hpromoted]
    exact herased
  · rw [hpromoted]
    exact herased.put_object hprior

variable {command : ObjectStorageCommand}

/-- A command leaves the objects alone. -/
theorem Performed.objects (h : Performed tables command tables') :
    tables'.objects = tables.objects ∧ tables'.versions = tables.versions ∧
      tables'.object_operations = tables.object_operations := by
  cases h <;> exact ⟨rfl, rfl, rfl⟩

/-- No transaction breaks the consistency of the tables. -/
theorem Effect.consistent (h : Effect sha256 scope tables call tables') (htables : tables.Consistent) :
    tables'.Consistent := by
  cases h with
  | unchanged => exact htables
  | command _ _ hperformed =>
    obtain ⟨hobjects, hversions, _⟩ := hperformed.objects
    refine htables.subset (fun key object hobject => ?_) fun key version hversion => hversions ▸ hversion
    have hobject : tables.objects[key]? = some object := hobjects ▸ hobject
    exact ⟨hobject, (congrArg (·[version_key object]?) hversions).trans (htables.current key object hobject).2⟩
  | @put bucket_id _ command _ _ _ hadmitted =>
    have hversion : (tables.put_version (command.object bucket_id)).Consistent :=
      htables.put_version hadmitted.fresh hadmitted.valid
    have hcurrent := hversion.put_object (ordered_map.getElem?_insert .. |>.trans (if_pos rfl))
    exact ⟨hcurrent.current, hcurrent.keyed, hcurrent.valid⟩
  | delete => exact ⟨(htables.erase_object _).current, htables.keyed, htables.valid⟩
  | delete_version hcurrent => exact htables.erase_version hcurrent
  | delete_current => exact htables.promoted _
  | multipart => exact ⟨htables.current, htables.keyed, htables.valid⟩
  | @expire _ _ _ _ objects versions _ hexpired =>
    refine htables.subset (fun key object hobject => ?_) hexpired.version_kept
    have hbefore := hexpired.object_kept key object hobject
    obtain ⟨rfl, hversion⟩ := htables.current key object hbefore
    refine ⟨hbefore, ?_⟩
    -- A version that went was not current.
    by_contra hlost
    cases hafter : versions[version_key object]? with
    | some found =>
      rw [hexpired.version_kept _ _ hafter] at hversion
      exact hlost (hafter.trans hversion)
    | none => exact hexpired.noncurrent _ _ object hversion hafter hobject rfl

theorem history_consistent (calls : List (World × Call)) : (history sha256 scope calls).Consistent :=
  history_induction (fun _ _ _ h => h.consistent) ⟨nofun, nofun, nofun⟩ calls

/-- The bucket is there and archived. -/
def StorageTables.Archived (tables : StorageTables) (bucket_id : BucketId) : Prop :=
  ∃ bucket, tables.buckets[bucket_id]? = some bucket ∧ bucket.state = .Archived

/-- The bucket has no current object and no active access key. -/
structure StorageTables.Closed (tables : StorageTables) (bucket_id : BucketId) : Prop where
  objects : ∀ key ∈ tables.objects, key.bucket_id ≠ bucket_id
  access_keys : ∀ (key : AccessKeyRef) (metadata : AccessKeyMetadata), tables.access_keys[key]? = some metadata →
    key.bucket_id = bucket_id → metadata.state ≠ .Active

variable {bucket_id : BucketId} {bucket : Bucket}

theorem not_archived (hbucket : tables.buckets[bucket_id]? = some bucket)
    (hactive : bucket.state = .Active) : ¬tables.Archived bucket_id := by
  rintro ⟨found, hfound, harchived⟩
  cases hbucket.symm.trans hfound
  rw [hactive] at harchived
  cases harchived

theorem archived_put_bucket {bucket_id other : BucketId} : (tables.put_bucket bucket_id bucket).Archived other ↔
      if bucket_id = other then bucket.state = .Archived else tables.Archived other := by
  unfold StorageTables.Archived StorageTables.put_bucket
  dsimp only
  rw [ordered_map.getElem?_insert]
  split <;> simp

/-- No command opens an archived bucket again. -/
theorem Performed.archived (h : Performed tables command tables')
    (harchived : tables.Archived bucket_id) : tables'.Archived bucket_id := by
  cases h with
  | create hfresh =>
    refine archived_put_bucket.mpr ?_
    rw [if_neg]
    · exact harchived
    · rintro rfl
      obtain ⟨bucket, hbucket, _⟩ := harchived
      exact hfresh (ExtTreeMap.mem_iff_isSome_getElem?.mpr (hbucket ▸ rfl))
  | update hcurrent hstate =>
    refine archived_put_bucket.mpr ?_
    rw [if_neg]
    · exact harchived
    · rintro rfl
      exact not_archived hcurrent hstate harchived
  | archive =>
    refine archived_put_bucket.mpr ?_
    split
    · rfl
    · exact harchived
  | issue | rotate | revoke => exact harchived

/-- One more row is not an active key of a bucket that has none. -/
theorem not_active_of_insert {access_keys : ExtTreeMap AccessKeyRef AccessKeyMetadata}
    {key other : AccessKeyRef} {metadata found : AccessKeyMetadata}
    (hkeys : ∀ (key : AccessKeyRef) (metadata : AccessKeyMetadata), access_keys[key]? = some metadata →
      key.bucket_id = bucket_id → metadata.state ≠ .Active)
    (hkey : key.bucket_id = bucket_id → metadata.state ≠ .Active)
    (hfound : (access_keys.insert key metadata)[other]? = some found) (hbucket : other.bucket_id = bucket_id) :
    found.state ≠ .Active := by
  rcases ordered_map.getElem?_of_insert hfound with ⟨rfl, rfl⟩ | hfound
  · exact hkey hbucket
  · exact hkeys other found hfound hbucket

theorem revoke_not_active (metadata : AccessKeyMetadata) (time : TimestampMicros) :
    (metadata.revoke time).state ≠ .Active := by
  unfold AccessKeyMetadata.revoke
  split
  · nofun
  · assumption

/-- Archiving closes the bucket. -/
theorem closed_archive {time : TimestampMicros} {selects : GenerationKey → Bool}
    (hempty : tables.object_count bucket_id = 0) :
    (((tables.put_bucket bucket_id bucket).revoke_keys bucket_id time).revoke_generations time selects).Closed
      bucket_id := by
  refine ⟨fun key hkey heq => ?_, fun key metadata hmetadata heq => ?_⟩
  · obtain ⟨object, hobject⟩ := Option.isSome_iff_exists.mp (ExtTreeMap.isSome_getElem?_iff_mem.mpr hkey)
    have hcount := ordered_map.le_total (fun (key : ObjectKey) (_ : ObjectMetadata) =>
      if key.bucket_id = bucket_id then 1 else 0) hobject
    rw [if_pos heq] at hcount
    have hzero : ordered_map.total (fun (key : ObjectKey) (_ : ObjectMetadata) =>
      if key.bucket_id = bucket_id then 1 else 0) tables.objects = 0 := hempty
    exact absurd (hzero ▸ hcount) (by decide)
  · rw [StorageTables.revoke_generations, StorageTables.revoke_keys, ExtTreeMap.getElem?_map] at hmetadata
    obtain ⟨old, _, rfl⟩ := Option.map_eq_some_iff.mp hmetadata
    rw [if_pos heq]
    exact revoke_not_active old time

/-- After a command, archived buckets are closed. -/
theorem Performed.closed (h : Performed tables command tables')
    (htables : ∀ bucket_id, tables.Archived bucket_id → tables.Closed bucket_id) (bucket_id : BucketId)
    (harchived : tables'.Archived bucket_id) : tables'.Closed bucket_id := by
  cases h with
  | create =>
    rw [archived_put_bucket] at harchived
    split at harchived
    · cases harchived
    · exact ⟨(htables _ harchived).objects, (htables _ harchived).access_keys⟩
  | update _ hstate =>
    rw [archived_put_bucket] at harchived
    split at harchived
    · cases harchived.symm.trans hstate
    · exact ⟨(htables _ harchived).objects, (htables _ harchived).access_keys⟩
  | archive _ _ hempty =>
    replace harchived := archived_put_bucket.mp harchived
    split at harchived
    · rename_i heq
      subst heq
      exact closed_archive hempty
    · refine ⟨(htables _ harchived).objects, fun key metadata hmetadata heq => ?_⟩
      rw [StorageTables.revoke_generations, StorageTables.revoke_keys, ExtTreeMap.getElem?_map] at hmetadata
      obtain ⟨old, hold, rfl⟩ := Option.map_eq_some_iff.mp hmetadata
      split
      · exact revoke_not_active old _
      · exact (htables _ harchived).access_keys key old hold heq
  | issue hbucket hstate | rotate hbucket hstate =>
    have harchived : tables.Archived bucket_id := harchived
    refine ⟨(htables _ harchived).objects, fun _ _ => not_active_of_insert (htables _ harchived).access_keys ?_⟩
    rintro rfl
    exact absurd harchived (not_archived hbucket hstate)
  | revoke =>
    have harchived : tables.Archived bucket_id := harchived
    refine ⟨(htables _ harchived).objects, fun _ _ => not_active_of_insert (htables _ harchived).access_keys ?_⟩
    intro _ hactive
    cases hactive

/-- Besides the commands, no transaction touches buckets or keys, and a new current object is in an open bucket. -/
structure Framed (tables tables' : StorageTables) : Prop where
  buckets : tables'.buckets = tables.buckets
  access_keys : tables'.access_keys = tables.access_keys
  generations : tables'.generations = tables.generations
  operations : tables'.operations = tables.operations
  objects : ∀ key ∈ tables'.objects, key ∈ tables.objects ∨ ¬tables.Archived key.bucket_id

/-- Only commands change buckets and keys. -/
theorem Effect.framed_or_command (h : Effect sha256 scope tables call tables') (htables : tables.Consistent) :
    Framed tables tables' ∨ ∃ operation_id command middle operation audit, call = .apply operation_id command ∧
      tables.operations[operation_id]? = none ∧ command.validate_new = .ok () ∧ Performed tables command middle ∧
      tables' = { middle with
        operations := middle.operations.insert operation_id ⟨command.digest sha256 scope, operation⟩, audit } := by
  cases h with
  | unchanged | delete_version | multipart => exact .inl ⟨rfl, rfl, rfl, rfl, fun _ => .inl⟩
  | command hfresh hvalid hperformed => exact .inr ⟨_, _, _, _, _, rfl, hfresh, hvalid, hperformed, rfl⟩
  | put _ hadmitted =>
    refine .inl ⟨rfl, rfl, rfl, rfl, fun key hkey => ?_⟩
    rcases ExtTreeMap.mem_insert.mp hkey with heq | hkey
    · rw [← compare_eq_iff_eq.mp heq]
      exact .inr (not_archived hadmitted.found hadmitted.active)
    · exact .inl hkey
  | delete => exact .inl ⟨rfl, rfl, rfl, rfl, fun key hkey => .inl (ExtTreeMap.mem_of_mem_erase hkey)⟩
  | @delete_current bucket_id name version_id hcurrent =>
    -- The key that shows another version now showed one before.
    obtain ⟨object, hobject, _⟩ := is_current_eq_true.mp hcurrent
    have hmem : (⟨bucket_id, name⟩ : ObjectKey) ∈ tables.objects := ExtTreeMap.mem_iff_isSome_getElem?.mpr (hobject ▸ rfl)
    rcases promoted_cases ⟨bucket_id, name⟩ (fun _ _ => erase_version_keyed htables) with
      ⟨hpromoted, _⟩ | ⟨prior, hprior, _, _, hpromoted⟩
    · rw [hpromoted]
      exact .inl ⟨rfl, rfl, rfl, rfl, fun key hkey => .inl (ExtTreeMap.mem_of_mem_erase hkey)⟩
    · rw [hpromoted]
      refine .inl ⟨rfl, rfl, rfl, rfl, fun key hkey => .inl ?_⟩
      rcases ExtTreeMap.mem_insert.mp hkey with heq | hkey
      · rw [← compare_eq_iff_eq.mp heq]
        rw [← hprior] at hmem
        exact hmem
      · exact ExtTreeMap.mem_of_mem_erase hkey
  | expire hexpired =>
    refine .inl ⟨rfl, rfl, rfl, rfl, fun key hkey => .inl ?_⟩
    obtain ⟨object, hobject⟩ := Option.isSome_iff_exists.mp (ExtTreeMap.isSome_getElem?_iff_mem.mpr hkey)
    exact ExtTreeMap.mem_iff_isSome_getElem?.mpr (hexpired.object_kept key object hobject ▸ rfl)

theorem archived_congr (h : tables'.buckets = tables.buckets) (bucket_id : BucketId) :
    tables'.Archived bucket_id ↔ tables.Archived bucket_id := by
  unfold StorageTables.Archived
  rw [h]

theorem Effect.archived (h : Effect sha256 scope tables call tables') (htables : tables.Consistent)
    (harchived : tables.Archived bucket_id) : tables'.Archived bucket_id := by
  rcases h.framed_or_command htables with hframed | ⟨_, _, middle, _, _, _, _, _, hperformed, rfl⟩
  · exact (archived_congr hframed.buckets bucket_id).mpr harchived
  · exact hperformed.archived harchived

theorem Effect.closed (h : Effect sha256 scope tables call tables') (hconsistent : tables.Consistent)
    (htables : ∀ bucket_id, tables.Archived bucket_id → tables.Closed bucket_id) (bucket_id : BucketId)
    (harchived : tables'.Archived bucket_id) : tables'.Closed bucket_id := by
  rcases h.framed_or_command hconsistent with hframed | ⟨_, _, middle, _, _, _, _, _, hperformed, rfl⟩
  · rw [archived_congr hframed.buckets] at harchived
    have hclosed := htables bucket_id harchived
    refine ⟨fun key hkey heq => ?_, hframed.access_keys ▸ hclosed.access_keys⟩
    rcases hframed.objects key hkey with hbefore | hopen
    · exact hclosed.objects key hbefore heq
    · exact hopen (heq ▸ harchived)
  · have hclosed := hperformed.closed htables bucket_id harchived
    exact ⟨hclosed.objects, hclosed.access_keys⟩

theorem history_closed (calls : List (World × Call)) (bucket_id : BucketId)
    (harchived : (history sha256 scope calls).Archived bucket_id) : (history sha256 scope calls).Closed bucket_id :=
  (@history_induction sha256 scope
    (fun tables => tables.Consistent ∧ ∀ bucket_id, tables.Archived bucket_id → tables.Closed bucket_id)
    (fun _ _ _ h htables => ⟨h.consistent htables.1, h.closed htables.1 htables.2⟩)
    ⟨⟨nofun, nofun, nofun⟩, fun _ => nofun⟩ calls).2 bucket_id harchived

theorem history_append_archived {calls : List (World × Call)}
    (harchived : (history sha256 scope calls).Archived bucket_id) (later : List (World × Call)) :
    (history sha256 scope (calls ++ later)).Archived bucket_id := by
  rw [history, machine.run_append]
  refine (@machine.run_induction _ _ (step sha256 scope) (fun _ _ => True)
    (fun tables => tables.Consistent ∧ tables.Archived bucket_id) (fun tables request _ htables => ?_) _ later
    (machine.meets_of_forall fun _ _ => trivial) ⟨history_consistent calls, harchived⟩).2
  have heffect := @step_effect sha256 scope tables request.1 request.2
  exact ⟨heffect.consistent htables.1, heffect.archived htables.1 htables.2⟩

/-- Removing the current version leaves the newest of the others current. -/
theorem delete_current_version_runs {name : String} {version_id : ObjectVersionId} {deleted : Bool}
    (htables : tables.Consistent) (hcurrent : tables.is_current ⟨bucket_id, name, version_id⟩ = true)
    (h : Runs (delete_object_version bucket_id name version_id) tables deleted tables') :
    ((⟨bucket_id, name⟩ : ObjectKey) ∈ tables'.objects ↔
      ∃ other, other ≠ version_id ∧ (⟨bucket_id, name, other⟩ : VersionKey) ∈ tables.versions) ∧
    ∀ object, tables'.objects[(⟨bucket_id, name⟩ : ObjectKey)]? = some object →
      tables'.versions[(⟨bucket_id, name, object.version_id⟩ : VersionKey)]? = some object ∧
        ∀ other, (⟨bucket_id, name, other⟩ : VersionKey) ∈ tables'.versions → other ≤ object.version_id := by
  obtain ⟨current, hobject, hversion⟩ := is_current_eq_true.mp hcurrent
  obtain ⟨hkey, hrow⟩ := htables.current _ current hobject
  obtain ⟨hbucket, hname⟩ := ObjectKey.mk.inj hkey
  have hrow : tables.versions[(⟨bucket_id, name, version_id⟩ : VersionKey)]? = some current := by
    rw [← hrow, version_key, hbucket, hname, hversion]
  have hother : ∀ other, (⟨bucket_id, name, other⟩ : VersionKey) ∈
      (tables.erase_version ⟨bucket_id, name, version_id⟩).versions ↔
        other ≠ version_id ∧ (⟨bucket_id, name, other⟩ : VersionKey) ∈ tables.versions := by
    intro other
    rw [StorageTables.erase_version, ExtTreeMap.mem_erase, Ne, compare_eq_iff_eq, VersionKey.mk.injEq]
    simp [eq_comm]
  rcases delete_object_version_runs h with ⟨_, hnone, _⟩ | ⟨_, _, rfl⟩
  · cases hnone.symm.trans hrow
  rw [if_pos hcurrent]
  rcases promoted_cases ⟨bucket_id, name⟩ (fun _ _ => erase_version_keyed htables) with
    ⟨hpromoted, hnone⟩ | ⟨prior, hprior, hkept, hgreatest, hpromoted⟩
  · rw [hpromoted]
    have herased : (((tables.erase_version ⟨bucket_id, name, version_id⟩).erase_object
        ⟨bucket_id, name⟩).objects)[(⟨bucket_id, name⟩ : ObjectKey)]? = none := by
      rw [StorageTables.erase_object, ordered_map.getElem?_erase, if_pos rfl]
    refine ⟨⟨fun hmem => ?_, fun ⟨other, hdiffers, hmem⟩ => ?_⟩, fun object hobject => ?_⟩
    · rw [ExtTreeMap.mem_iff_isSome_getElem?, herased] at hmem
      cases hmem
    · exact absurd ((hother other).mpr ⟨hdiffers, hmem⟩) (hnone other)
    · cases herased.symm.trans hobject
  · rw [hpromoted]
    cases hprior
    have hshown : (((tables.erase_version ⟨prior.bucket_id, prior.key, version_id⟩).erase_object
        ⟨prior.bucket_id, prior.key⟩).put_object prior).objects[(⟨prior.bucket_id, prior.key⟩ : ObjectKey)]? =
          some prior := by
      rw [StorageTables.put_object, ordered_map.getElem?_insert, if_pos rfl]
    refine ⟨⟨fun _ => ⟨prior.version_id, (hother _).mp ?_⟩, fun _ => ?_⟩, fun object hobject => ?_⟩
    · exact ExtTreeMap.mem_iff_isSome_getElem?.mpr (hkept ▸ rfl)
    · exact ExtTreeMap.mem_iff_isSome_getElem?.mpr (hshown ▸ rfl)
    · cases hshown.symm.trans hobject
      exact ⟨hkept, hgreatest⟩

/-- After every history: each current object is, in every field, the version it names; a key whose current version is
removed is current again exactly if another version remains, and then shows the greatest; a bucket that is archived has
no current object and no active access key, and never will. -/
theorem current_objects_and_versions_agree (sha256 : List UInt8 → Sha256Digest) (scope : EnvironmentScope)
    (calls : List (World × Call)) :
    (∀ (key : ObjectKey) (object : ObjectMetadata), (history sha256 scope calls).objects[key]? = some object →
      object_key object = key ∧ (history sha256 scope calls).versions[version_key object]? = some object) ∧
    (∀ (world : World) (bucket_id : BucketId) (key : String) (version_id : ObjectVersionId) (deleted : Bool)
      (after : StorageTables), (history sha256 scope calls).is_current ⟨bucket_id, key, version_id⟩ = true →
      committed (delete_object_version bucket_id key version_id) world.faults world.outcome
        (history sha256 scope calls) = some (deleted, after) →
      ((⟨bucket_id, key⟩ : ObjectKey) ∈ after.objects ↔ ∃ other, other ≠ version_id ∧
        (⟨bucket_id, key, other⟩ : VersionKey) ∈ (history sha256 scope calls).versions) ∧
      ∀ object, after.objects[(⟨bucket_id, key⟩ : ObjectKey)]? = some object →
        after.versions[(⟨bucket_id, key, object.version_id⟩ : VersionKey)]? = some object ∧
          ∀ other, (⟨bucket_id, key, other⟩ : VersionKey) ∈ after.versions → other ≤ object.version_id) ∧
    ∀ (bucket_id : BucketId) (later : List (World × Call)), (history sha256 scope calls).Archived bucket_id →
      (history sha256 scope (calls ++ later)).Archived bucket_id ∧
        (history sha256 scope (calls ++ later)).Closed bucket_id := by
  refine ⟨(history_consistent calls).current, ?_, ?_⟩
  · intro world bucket_id key version_id deleted after hcurrent hcommitted
    exact delete_current_version_runs (history_consistent calls) hcurrent (runs_of_committed hcommitted)
  · intro bucket_id later harchived
    have hlater := history_append_archived harchived later
    exact ⟨hlater, history_closed (calls ++ later) bucket_id hlater⟩

end

/-- A backend that does what it is asked. -/
def calm : World := ⟨[], .Committed⟩

def one_scope : EnvironmentScope := ⟨⟨.from_nat 1⟩, ⟨.from_nat 1⟩⟩

def one_bucket : BucketId := ⟨.from_nat 1⟩

def operator : ObjectStorageActor := ⟨"operator", by decide +kernel⟩

/-- At most ten bytes in the bucket, and nine in one object. -/
def ten_bytes : BucketConfiguration :=
  ⟨⟨"backups"⟩, .Private, [], .Enabled, ⟨none, none, none⟩, ⟨9, 10, 10⟩⟩

def creating : World × Call :=
  (calm, .apply ⟨.from_nat 0⟩ (.CreateBucket one_bucket ten_bytes operator 0))

def putting (operation version : Nat) (key : String) (size : UInt64) : World × Call :=
  (calm, .put_object one_bucket ⟨.from_nat operation⟩ ⟨⟨.from_nat version⟩, key, size,
    runku.data.checksum [UInt8.ofNat version], "text/plain", ∅, operator, 1⟩)

def deleting (operation version : Nat) (key : String) : World × Call :=
  (calm, .delete_object one_bucket ⟨.from_nat operation⟩ ⟨key, ⟨.from_nat version⟩, operator, 2⟩)

def archiving (operation : Nat) : World × Call :=
  (calm, .apply ⟨.from_nat operation⟩ (.ArchiveBucket one_bucket 1 operator 3))

/-- The second of two versions is removed, so that the first is current again; a bucket without objects is archived and
refuses the next put. -/
theorem first_version_is_current_again : (∃ after, (⟨one_bucket, "a"⟩ : ObjectKey) ∈ after.objects ∧
      committed (delete_object_version one_bucket "a" ⟨.from_nat 2⟩) [] .Committed
        (history runku.data.checksum one_scope [creating, putting 1 1 "a" 9, putting 2 2 "a" 1]) =
          some (true, after)) ∧ (history runku.data.checksum one_scope
      ([creating, putting 1 1 "a" 9, deleting 2 1 "a", archiving 3] ++ [putting 4 2 "a" 1])).Closed one_bucket := by
  refine ⟨?_, ?_⟩
  · have hcommitted : committed (delete_object_version one_bucket "a" ⟨.from_nat 2⟩) calm.faults calm.outcome
        (history runku.data.checksum one_scope [creating, putting 1 1 "a" 9, putting 2 2 "a" 1]) =
          some (true, history runku.data.checksum one_scope [creating, putting 1 1 "a" 9, putting 2 2 "a" 1,
            (calm, .delete_object_version one_bucket "a" ⟨.from_nat 2⟩)]) := by
      decide +kernel
    refine ⟨_, ?_, hcommitted⟩
    refine ((current_objects_and_versions_agree runku.data.checksum one_scope _).2.1 calm one_bucket "a" _ _ _
      (by decide +kernel) hcommitted).1.mpr ⟨⟨.from_nat 1⟩, by decide +kernel, by decide +kernel⟩
  · refine ((current_objects_and_versions_agree runku.data.checksum one_scope _).2.2 one_bucket _ ?_).2
    exact ⟨⟨ten_bytes, 2, .Archived, 0, 3⟩, by decide +kernel, rfl⟩

end runku.object_storage_repository
