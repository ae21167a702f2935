import Runku.ObjectStorageRepository.Consistency

namespace runku.object_storage_repository

open Std (ExtTreeMap)
open runku.core runku.object_storage
open runku.data (Sha256Digest)

/-- The current objects of a bucket, each counted by its weight. -/
def StorageTables.usage (tables : StorageTables) (bucket_id : BucketId) (weight : ObjectMetadata → Nat) : Nat :=
  ordered_map.total (fun key object => if key.bucket_id = bucket_id then weight object else 0) tables.objects

/-- The bucket stays within its quota. -/
structure StorageTables.Within (tables : StorageTables) (bucket_id : BucketId) (quota : BucketQuota) : Prop where
  total : tables.total_bytes bucket_id ≤ quota.max_total_bytes.toNat
  count : tables.object_count bucket_id ≤ quota.max_objects.toNat
  size : ∀ (key : ObjectKey) (object : ObjectMetadata), tables.objects[key]? = some object →
    key.bucket_id = bucket_id → object.size ≤ quota.max_object_bytes

/-- The request leaves the quota of the bucket as it is. -/
def KeepsQuota (bucket_id : BucketId) (tables : StorageTables) : Call → Prop
  | .apply _ (.UpdateBucket other _ configuration _ _) => other = bucket_id →
    ∀ bucket ∈ tables.buckets[bucket_id]?, configuration.quota = bucket.configuration.quota
  | _ => True

/-- If the request, which leaves `tables'`, removes a current version of the bucket, there is room for the version that
takes its place. -/
def HasRoom (bucket_id : BucketId) (tables tables' : StorageTables) : Call → Prop
  | .delete_object_version other key version_id =>
    other = bucket_id → tables.is_current ⟨bucket_id, key, version_id⟩ = true →
    tables'.versions[(⟨bucket_id, key, version_id⟩ : VersionKey)]? = none → ∀ bucket ∈ tables.buckets[bucket_id]?,
    ∀ prior ∈ ((tables.erase_version ⟨bucket_id, key, version_id⟩).versions_of ⟨bucket_id, key⟩).getLast?,
      (tables.erase_object ⟨bucket_id, key⟩).total_bytes bucket_id + prior.size.toNat ≤
        bucket.configuration.quota.max_total_bytes.toNat
  | _ => True

instance decidableHasRoom (bucket_id : BucketId) (tables tables' : StorageTables) :
    (call : Call) → Decidable (HasRoom bucket_id tables tables' call)
  | .delete_object_version other key version_id =>
    inferInstanceAs (Decidable (other = bucket_id → tables.is_current ⟨bucket_id, key, version_id⟩ = true →
      tables'.versions[(⟨bucket_id, key, version_id⟩ : VersionKey)]? = none → _))
  | .apply .. | .put_object .. | .delete_object .. | .create_multipart_upload .. | .put_multipart_part ..
  | .claim_multipart_completion .. | .complete_multipart_upload .. | .abort_active_upload .. | .apply_lifecycle .. =>
    inferInstanceAs (Decidable True)

section
variable {sha256 : List UInt8 → Sha256Digest} {scope : EnvironmentScope} {tables tables' : StorageTables}
  {bucket_id : BucketId} {weight : ObjectMetadata → Nat}

theorem usage_put_object (object : ObjectMetadata) : (tables.put_object object).usage bucket_id weight =
      (if object.bucket_id = bucket_id then weight object else 0) +
        (tables.erase_object (object_key object)).usage bucket_id weight :=
  ordered_map.total_insert _ _ _ _

theorem usage_erase_object {key : ObjectKey} {object : ObjectMetadata} (h : tables.objects[key]? = some object)
    (hkey : key.bucket_id = bucket_id) :
    tables.usage bucket_id weight = weight object + (tables.erase_object key).usage bucket_id weight := by
  rw [StorageTables.usage, ordered_map.total_eq_add_erase _ h, if_pos hkey]
  rfl

theorem usage_erase_object_of_none {key : ObjectKey} (h : tables.objects[key]? = none) :
    (tables.erase_object key).usage bucket_id weight = tables.usage bucket_id weight := by
  rw [StorageTables.usage, StorageTables.erase_object, ordered_map.erase_eq_self h]
  rfl

/-- Objects of other buckets do not count. -/
theorem usage_erase_other {key : ObjectKey} (hkey : key.bucket_id ≠ bucket_id) :
    (tables.erase_object key).usage bucket_id weight = tables.usage bucket_id weight :=
  ordered_map.total_erase_of_eq_zero _ fun _ => if_neg hkey

theorem usage_put_other {object : ObjectMetadata} (hbucket : object.bucket_id ≠ bucket_id) :
    (tables.put_object object).usage bucket_id weight = tables.usage bucket_id weight := by
  rw [usage_put_object, if_neg hbucket, Nat.zero_add, usage_erase_other hbucket]

theorem usage_of_subset (h : ∀ (key : ObjectKey) (object : ObjectMetadata), tables'.objects[key]? = some object →
    tables.objects[key]? = some object) : tables'.usage bucket_id weight ≤ tables.usage bucket_id weight :=
  ordered_map.total_le_of_subset _ h

theorem usage_eq_zero (h : ∀ key ∈ tables.objects, key.bucket_id ≠ bucket_id) :
    tables.usage bucket_id weight = 0 := by
  rw [StorageTables.usage, @ordered_map.total_congr _ _ _ _ (fun _ _ => 0)]
  · simp [ordered_map.total]
  · intro key object hobject
    exact if_neg (h key (ExtTreeMap.mem_iff_isSome_getElem?.mpr (hobject ▸ rfl)))

/-- The bucket stays within its quota, and no version that may become current is too large for it. -/
structure StorageTables.Limits (tables : StorageTables) (bucket_id : BucketId) (quota : BucketQuota) : Prop where
  total : tables.usage bucket_id (fun object => object.size.toNat) ≤ quota.max_total_bytes.toNat
  count : tables.usage bucket_id (fun _ => 1) ≤ quota.max_objects.toNat
  size : ∀ (key : VersionKey) (version : ObjectMetadata), tables.versions[key]? = some version →
    key.bucket_id = bucket_id → version.size ≤ quota.max_object_bytes

/-- What every transaction keeps: versions only in buckets that are there, and the limits of the bucket. -/
structure StorageTables.Bounded (tables : StorageTables) (bucket_id : BucketId) : Prop where
  consistent : tables.Consistent
  homed : ∀ key ∈ tables.versions, key.bucket_id ∈ tables.buckets
  limits : ∀ bucket, tables.buckets[bucket_id]? = some bucket → tables.Limits bucket_id bucket.configuration.quota

/-- Fewer objects and versions stay within the limits. -/
theorem StorageTables.Limits.subset {quota : BucketQuota} (h : tables.Limits bucket_id quota)
    (hobjects : ∀ (key : ObjectKey) (object : ObjectMetadata), tables'.objects[key]? = some object →
      tables.objects[key]? = some object)
    (hversions : ∀ (key : VersionKey) (version : ObjectMetadata), tables'.versions[key]? = some version →
      tables.versions[key]? = some version) : tables'.Limits bucket_id quota where
  total := (usage_of_subset hobjects).trans h.total
  count := (usage_of_subset hobjects).trans h.count
  size key version hversion := h.size key version (hversions key version hversion)

theorem StorageTables.Limits.within {quota : BucketQuota} (h : tables.Limits bucket_id quota)
    (htables : tables.Consistent) : tables.Within bucket_id quota where
  total := h.total
  count := h.count
  size key object hobject hkey := by
    obtain ⟨rfl, hversion⟩ := htables.current key object hobject
    exact h.size _ object hversion hkey

theorem check_quota_eq_ok {quota : BucketQuota} {total count : Nat} {current : Option ObjectMetadata} {size : UInt64}
    {u : Unit} (h : check_quota quota total count current size = .ok u) :
    total - (current.map fun object => object.size.toNat).getD 0 + size.toNat ≤ quota.max_total_bytes.toNat ∧
      count + (if current.isNone then 1 else 0) ≤ quota.max_objects.toNat := by
  unfold check_quota at h
  dsimp only at h
  rw [fallible.ite_error_eq_ok_iff, fallible.ite_error_eq_ok_iff, not_or, not_or] at h
  exact ⟨not_lt.mp h.2.1.1, not_lt.mp h.2.1.2⟩

/-- A put that is admitted keeps the limits. -/
theorem StorageTables.Limits.put {command : PutObjectCommand} {bucket : Bucket}
    (h : tables.Limits bucket_id bucket.configuration.quota) (hadmitted : Admitted tables bucket_id command bucket) :
    ((tables.put_version (command.object bucket_id)).put_object (command.object bucket_id)).Limits bucket_id
      bucket.configuration.quota := by
  obtain ⟨htotal, hcount⟩ := check_quota_eq_ok hadmitted.quota
  have husage : ∀ weight, ((tables.put_version (command.object bucket_id)).put_object
      (command.object bucket_id)).usage bucket_id weight = weight (command.object bucket_id) +
        (tables.erase_object ⟨bucket_id, command.key⟩).usage bucket_id weight := by
    intro weight
    have hbucket : (command.object bucket_id).bucket_id = bucket_id := rfl
    rw [usage_put_object, if_pos hbucket]
    rfl
  have herase : ∀ weight : ObjectMetadata → Nat,
      tables.usage bucket_id weight = (tables.objects[(⟨bucket_id, command.key⟩ : ObjectKey)]?.map weight).getD 0 +
        (tables.erase_object ⟨bucket_id, command.key⟩).usage bucket_id weight := by
    intro weight
    cases hcurrent : tables.objects[(⟨bucket_id, command.key⟩ : ObjectKey)]? with
    | none =>
      rw [usage_erase_object_of_none hcurrent]
      exact (Nat.zero_add _).symm
    | some current => exact usage_erase_object hcurrent rfl
  refine ⟨?_, ?_, fun key version hversion hkey => ?_⟩
  · have hbefore : tables.total_bytes bucket_id = _ := herase fun object => object.size.toNat
    rw [husage]
    have hsize : (command.object bucket_id).size = command.size := rfl
    rw [hsize]
    omega
  · have hbefore : tables.object_count bucket_id = _ := herase fun _ => 1
    rw [husage]
    cases hcurrent : tables.objects[(⟨bucket_id, command.key⟩ : ObjectKey)]? <;> rw [hcurrent] at hbefore hcount <;>
      simp at hbefore hcount <;> omega
  · rcases ordered_map.getElem?_of_insert hversion with ⟨_, rfl⟩ | hversion
    · exact hadmitted.size
    · exact h.size key version hversion hkey

/-- Another bucket's objects are not counted. -/
theorem StorageTables.Limits.put_other {object : ObjectMetadata} {quota : BucketQuota} (h : tables.Limits bucket_id quota)
    (hbucket : object.bucket_id ≠ bucket_id) : ((tables.put_version object).put_object object).Limits bucket_id quota := by
  have husage : ∀ weight, ((tables.put_version object).put_object object).usage bucket_id weight =
      tables.usage bucket_id weight := fun weight => usage_put_other hbucket
  refine ⟨husage _ ▸ h.total, husage _ ▸ h.count, fun key version hversion hkey => ?_⟩
  rcases ordered_map.getElem?_of_insert hversion with ⟨rfl, _⟩ | hversion
  · exact absurd hkey hbucket
  · exact h.size key version hversion hkey

/-- An older version that takes the place of the current one keeps the limits if there is room for it. -/
theorem StorageTables.Limits.promoted {name : String} {version_id : ObjectVersionId} {other : BucketId}
    {bucket : Bucket} (h : tables.Limits bucket_id bucket.configuration.quota) (htables : tables.Consistent)
    (hbucket : tables.buckets[bucket_id]? = some bucket)
    (hcurrent : tables.is_current ⟨other, name, version_id⟩ = true)
    (hroom : HasRoom bucket_id tables ((tables.erase_version ⟨other, name, version_id⟩).promoted ⟨other, name⟩)
      (.delete_object_version other name version_id)) :
    ((tables.erase_version ⟨other, name, version_id⟩).promoted ⟨other, name⟩).Limits bucket_id
      bucket.configuration.quota := by
  have hless : ((tables.erase_version ⟨other, name, version_id⟩).erase_object ⟨other, name⟩).Limits bucket_id
      bucket.configuration.quota :=
    h.subset (fun _ _ => ordered_map.getElem?_of_erase) fun _ _ => ordered_map.getElem?_of_erase
  have hremoved : ((tables.erase_version ⟨other, name, version_id⟩).promoted ⟨other, name⟩).versions[
      (⟨other, name, version_id⟩ : VersionKey)]? = none := by
    rw [promoted_versions]
    exact (ordered_map.getElem?_erase ..).trans (if_pos rfl)
  unfold StorageTables.promoted
  split
  · rename_i prior hprior
    obtain ⟨found, hversion, _⟩ := getLast?_versions_of hprior
    have hkeyed := erase_version_keyed htables hversion
    cases hkeyed
    by_cases hother : prior.bucket_id = bucket_id
    · subst hother
      obtain ⟨current, hobject, _⟩ := is_current_eq_true.mp hcurrent
      have husage : ∀ weight, (((tables.erase_version ⟨prior.bucket_id, prior.key, version_id⟩).erase_object
          ⟨prior.bucket_id, prior.key⟩).put_object prior).usage prior.bucket_id weight =
            weight prior + (tables.erase_object ⟨prior.bucket_id, prior.key⟩).usage prior.bucket_id weight := by
        intro weight
        rw [usage_put_object, if_pos rfl]
        refine congrArg (weight prior + ·) (usage_erase_object_of_none ?_)
        exact (ordered_map.getElem?_erase ..).trans (if_pos rfl)
      refine ⟨?_, ?_, hless.size⟩
      · rw [husage, Nat.add_comm]
        exact hroom rfl hcurrent hremoved bucket hbucket prior hprior
      · -- One object takes the place of another.
        have hbefore : tables.usage prior.bucket_id (fun _ => 1) = _ := usage_erase_object hobject rfl
        rw [husage]
        exact hbefore ▸ h.count
    · have husage : ∀ weight, (((tables.erase_version ⟨prior.bucket_id, prior.key, version_id⟩).erase_object
          ⟨prior.bucket_id, prior.key⟩).put_object prior).usage bucket_id weight =
            ((tables.erase_version ⟨prior.bucket_id, prior.key, version_id⟩).erase_object
              ⟨prior.bucket_id, prior.key⟩).usage bucket_id weight := fun weight => usage_put_other hother
      exact ⟨husage _ ▸ hless.total, husage _ ▸ hless.count, hless.size⟩
  · exact hless

/-- A command creates the bucket, or keeps its quota. -/
theorem Performed.quota {operation_id : OperationId} {command : ObjectStorageCommand}
    (h : Performed tables command tables') (hquota : KeepsQuota bucket_id tables (.apply operation_id command))
    {bucket : Bucket} (hbucket : tables'.buckets[bucket_id]? = some bucket) :
    bucket_id ∉ tables.buckets ∨ ∃ old, tables.buckets[bucket_id]? = some old ∧
      bucket.configuration.quota = old.configuration.quota := by
  cases h with
  | create hfresh =>
    rcases ordered_map.getElem?_of_insert hbucket with ⟨rfl, _⟩ | hbucket
    · exact .inl hfresh
    · exact .inr ⟨bucket, hbucket, rfl⟩
  | update hcurrent =>
    rcases ordered_map.getElem?_of_insert hbucket with ⟨rfl, rfl⟩ | hbucket
    · exact .inr ⟨_, hcurrent, hquota rfl _ hcurrent⟩
    · exact .inr ⟨bucket, hbucket, rfl⟩
  | archive hcurrent =>
    rcases ordered_map.getElem?_of_insert hbucket with ⟨rfl, rfl⟩ | hbucket
    · exact .inr ⟨_, hcurrent, rfl⟩
    · exact .inr ⟨bucket, hbucket, rfl⟩
  | issue | rotate | revoke => exact .inr ⟨bucket, hbucket, rfl⟩

theorem Performed.buckets_mono {command : ObjectStorageCommand} (h : Performed tables command tables') {other : BucketId}
    (hother : other ∈ tables.buckets) : other ∈ tables'.buckets := by
  cases h with
  | create | update | archive => exact ExtTreeMap.mem_insert.mpr (.inr hother)
  | issue => exact hother
  | rotate => exact hother
  | revoke => exact hother

theorem Effect.homed {call : Call} (h : Effect sha256 scope tables call tables')
    (htables : ∀ key ∈ tables.versions, key.bucket_id ∈ tables.buckets) {key : VersionKey}
    (hkey : key ∈ tables'.versions) : key.bucket_id ∈ tables'.buckets := by
  cases h with
  | unchanged | delete | multipart => exact htables key hkey
  | command _ _ hperformed =>
    have hversions := hperformed.objects.2.1
    exact hperformed.buckets_mono (htables key (hversions ▸ hkey))
  | put _ hadmitted =>
    rcases ExtTreeMap.mem_insert.mp hkey with heq | hkey
    · rw [← compare_eq_iff_eq.mp heq]
      exact ExtTreeMap.mem_iff_isSome_getElem?.mpr (hadmitted.found ▸ rfl)
    · exact htables key hkey
  | delete_version => exact htables key (ExtTreeMap.mem_of_mem_erase hkey)
  | delete_current =>
    rw [promoted_versions] at hkey
    rw [promoted_buckets]
    exact htables key (ExtTreeMap.mem_of_mem_erase hkey)
  | expire hexpired =>
    obtain ⟨version, hversion⟩ := Option.isSome_iff_exists.mp (ExtTreeMap.isSome_getElem?_iff_mem.mpr hkey)
    exact htables key (ExtTreeMap.mem_iff_isSome_getElem?.mpr (hexpired.version_kept key version hversion ▸ rfl))

/-- A transaction with room keeps the bucket within its quota. -/
theorem Effect.limits {call : Call} (h : Effect sha256 scope tables call tables') (htables : tables.Bounded bucket_id)
    (hquota : KeepsQuota bucket_id tables call) (hroom : HasRoom bucket_id tables tables' call) (bucket : Bucket)
    (hbucket : tables'.buckets[bucket_id]? = some bucket) : tables'.Limits bucket_id bucket.configuration.quota := by
  cases h with
  | unchanged => exact htables.limits bucket hbucket
  | command _ _ hperformed =>
    obtain ⟨hobjects, hversions, _⟩ := hperformed.objects
    rcases hperformed.quota hquota hbucket with hnew | ⟨old, hold, hsame⟩
    · -- A bucket that was not there has no versions, hence no objects.
      have hnone : ∀ key ∈ tables.versions, key.bucket_id ≠ bucket_id := fun key hkey heq =>
        hnew (heq ▸ htables.homed key hkey)
      have hempty : ∀ weight, tables.usage bucket_id weight = 0 := fun weight =>
        usage_eq_zero fun key hkey heq => by
          obtain ⟨object, hobject⟩ := Option.isSome_iff_exists.mp (ExtTreeMap.isSome_getElem?_iff_mem.mpr hkey)
          obtain ⟨rfl, hversion⟩ := htables.consistent.current key object hobject
          exact hnone (version_key object) (ExtTreeMap.mem_iff_isSome_getElem?.mpr (hversion ▸ rfl)) heq
      refine @StorageTables.Limits.subset tables _ _ _ ⟨?_, ?_, fun key version hversion heq => ?_⟩
        (fun key object hobject => hobjects ▸ hobject) (fun key version hversion => hversions ▸ hversion)
      · rw [hempty]
        exact Nat.zero_le _
      · rw [hempty]
        exact Nat.zero_le _
      · exact absurd heq (hnone key (ExtTreeMap.mem_iff_isSome_getElem?.mpr (hversion ▸ rfl)))
    · rw [hsame]
      exact (htables.limits old hold).subset (fun key object hobject => hobjects ▸ hobject)
        (fun key version hversion => hversions ▸ hversion)
  | @put other _ command found _ _ hadmitted =>
    have hlimits := htables.limits bucket hbucket
    by_cases hother : other = bucket_id
    · subst hother
      cases hadmitted.found.symm.trans hbucket
      have hput := hlimits.put hadmitted
      exact ⟨hput.total, hput.count, hput.size⟩
    · have hput := @StorageTables.Limits.put_other _ _ (command.object other) _ hlimits hother
      exact ⟨hput.total, hput.count, hput.size⟩
  | delete => exact (htables.limits bucket hbucket).subset (fun _ _ => ordered_map.getElem?_of_erase) fun _ _ => id
  | delete_version => exact (htables.limits bucket hbucket).subset (fun _ _ => id) fun _ _ => ordered_map.getElem?_of_erase
  | delete_current hcurrent =>
    rw [promoted_buckets] at hbucket
    exact (htables.limits bucket hbucket).promoted htables.consistent hbucket hcurrent hroom
  | multipart => exact (htables.limits bucket hbucket).subset (fun _ _ => id) fun _ _ => id
  | expire hexpired => exact (htables.limits bucket hbucket).subset hexpired.object_kept hexpired.version_kept

/-- In every history that leaves the quota of a bucket alone and never removes a current version in it without room for
the version that takes its place, the bucket stays within its quota. -/
theorem bucket_quota_kept (sha256 : List UInt8 → Sha256Digest) (scope : EnvironmentScope) (bucket_id : BucketId)
    (calls : List (World × Call))
    (hquota : machine.Meets (step sha256 scope) (fun tables request => KeepsQuota bucket_id tables request.2) .empty calls)
    (hroom : machine.Meets (step sha256 scope) (fun tables request =>
      HasRoom bucket_id tables (step sha256 scope tables request) request.2) .empty calls)
    (bucket : Bucket) (hbucket : (history sha256 scope calls).buckets[bucket_id]? = some bucket) :
    (history sha256 scope calls).Within bucket_id bucket.configuration.quota := by
  have hbounded : (history sha256 scope calls).Bounded bucket_id := by
    have hempty : StorageTables.empty.Bounded bucket_id := ⟨⟨nofun, nofun, nofun⟩, nofun, nofun⟩
    refine @machine.run_induction _ _ (step sha256 scope) _ (fun tables => tables.Bounded bucket_id)
      (fun tables request hmeets htables => ?_) _ calls (hquota.and hroom) hempty
    have heffect := @step_effect sha256 scope tables request.1 request.2
    exact ⟨heffect.consistent htables.consistent, fun _ => heffect.homed htables.homed,
      heffect.limits htables hmeets.1 hmeets.2⟩
  exact (hbounded.limits bucket hbucket).within hbounded.consistent

end

/-- Ten bytes are allowed. The one byte that replaced nine makes room for another nine; then the one byte is removed. -/
def reviving : List (World × Call) :=
  [creating, putting 1 1 "a" 9, putting 2 2 "a" 1, putting 3 3 "b" 9,
    (calm, .delete_object_version one_bucket "a" ⟨.from_nat 2⟩)]

theorem revived_version_exceeds_quota :
    machine.Meets (step runku.data.checksum one_scope) (fun tables request => KeepsQuota one_bucket tables request.2)
      .empty reviving ∧ (history runku.data.checksum one_scope reviving).buckets[one_bucket]? =
      some ⟨ten_bytes, 1, .Active, 0, 0⟩ ∧ ten_bytes.quota.max_total_bytes = 10 ∧
    (history runku.data.checksum one_scope reviving).total_bytes one_bucket = 18 := by
  refine ⟨⟨trivial, trivial, trivial, trivial, trivial, trivial⟩, by decide +kernel, rfl, by decide +kernel⟩

theorem removed_version_keeps_quota :
    (history runku.data.checksum one_scope [creating, putting 1 1 "a" 9, putting 2 2 "a" 1,
      (calm, .delete_object_version one_bucket "a" ⟨.from_nat 2⟩)]).Within one_bucket ten_bytes.quota :=
  bucket_quota_kept runku.data.checksum one_scope one_bucket [creating, putting 1 1 "a" 9, putting 2 2 "a" 1,
    (calm, .delete_object_version one_bucket "a" ⟨.from_nat 2⟩)] ⟨trivial, trivial, trivial, trivial, trivial⟩
    (by decide +kernel) ⟨ten_bytes, 1, .Active, 0, 0⟩ (by decide +kernel)

end runku.object_storage_repository
