import Runku.ObjectStorageRepository.Consistency

namespace runku.object_storage_repository

open Std (ExtTreeMap)
open runku.object_storage
open runku.core (EnvironmentScope)
open runku.value (TimestampMicros)
open runku.data (Sha256Digest)
open transaction

/-- The key was issued and is not active. -/
def StorageTables.Inactive (tables : StorageTables) (key : AccessKeyRef) : Prop :=
  ∃ metadata, tables.access_keys[key]? = some metadata ∧ metadata.state ≠ .Active

variable {sha256 : List UInt8 → Sha256Digest} {scope : EnvironmentScope} {tables tables' : StorageTables}
  {key : AccessKeyRef}

/-- No command makes such a key active again: a key is issued only if there is none of its name, and a rotation needs an
active one. -/
theorem Performed.inactive {command : ObjectStorageCommand} (h : Performed tables command tables')
    (hkey : tables.Inactive key) : tables'.Inactive key := by
  obtain ⟨metadata, hmetadata, hstate⟩ := hkey
  cases h with
  | create | update => exact ⟨metadata, hmetadata, hstate⟩
  | archive =>
    refine ⟨_, (ExtTreeMap.getElem?_map ..).trans (congrArg _ hmetadata), ?_⟩
    split
    · exact revoke_not_active metadata _
    · exact hstate
  | issue _ _ hfresh =>
    refine ⟨metadata, (ordered_map.getElem?_insert ..).trans ((if_neg ?_).trans hmetadata), hstate⟩
    rintro rfl
    exact hfresh (ordered_map.mem_iff_getElem?.mpr ⟨_, hmetadata⟩)
  | rotate _ _ hcurrent hactive | revoke hcurrent hactive =>
    refine ⟨metadata, (ordered_map.getElem?_insert ..).trans ((if_neg ?_).trans hmetadata), hstate⟩
    rintro rfl
    cases hcurrent.symm.trans hmetadata
    exact hstate hactive

/-- Later calls leave an inactive key inactive. -/
theorem history_append_inactive {calls : List (World × Call)} (hkey : (history sha256 scope calls).Inactive key)
    (later : List (World × Call)) : (history sha256 scope (calls ++ later)).Inactive key := by
  rw [history, machine.run_append]
  refine (@machine.run_induction _ _ (step sha256 scope) (fun _ _ => True)
    (fun tables => tables.Consistent ∧ tables.Inactive key) (fun tables request _ htables => ?_) _ later
    (machine.meets_of_forall fun _ _ => trivial) ⟨history_consistent calls, hkey⟩).2
  have heffect : Effect sha256 scope tables request.2 (step sha256 scope tables request) :=
    step_effect tables request.1 request.2
  refine ⟨heffect.consistent htables.1, ?_⟩
  rcases heffect.framed_or_command htables.1 with hframed | ⟨_, _, _, _, _, _, _, _, hperformed, h⟩
  · rw [StorageTables.Inactive, hframed.access_keys]
    exact htables.2
  · exact h ▸ hperformed.inactive htables.2

/-- An inactive key is not authenticated. -/
theorem authenticate_key_inactive (hkey : tables.Inactive key) {digest : Sha256Digest} {time : TimestampMicros}
    {found : Option AccessKeyMetadata} (h : Runs (authenticate_key key digest time) tables found tables') :
    found = none := by
  obtain ⟨metadata, hmetadata, hstate⟩ := hkey
  have hfound := h.fetch_bind.lift.1
  rw [hmetadata, Option.filter_some, if_neg (by simp [hstate])] at hfound
  exact (Except.ok.inj hfound).symm

/-- The generations that are found belong to active keys. -/
theorem mem_valid_generations {access_key_id : AccessKeyId} {time : TimestampMicros}
    {row : EncryptedAccessKeyGeneration} (h : row ∈ tables.valid_generations access_key_id time) :
    ∃ metadata, tables.access_keys[(⟨row.bucket_id, access_key_id⟩ : AccessKeyRef)]? = some metadata ∧
      metadata.state = .Active := by
  obtain ⟨⟨generation, stored⟩, _, hrow⟩ := List.mem_filterMap.mp h
  dsimp only at hrow
  split at hrow
  · rename_i hvalid
    simp only [Option.bind_eq_bind, Option.bind_eq_some_iff, Option.ite_none_right_eq_some, Option.some.injEq] at hrow
    obtain ⟨metadata, hmetadata, _, _, hstate, rfl⟩ := hrow
    exact ⟨metadata, hvalid.1 ▸ hmetadata, hstate⟩
  · cases hrow

/-- What is loaded to verify a signature is of a key that is active. -/
theorem load_encrypted_key_generations_active {access_key_id : AccessKeyId} {time : TimestampMicros}
    {found : List EncryptedAccessKeyGeneration} {generation : EncryptedAccessKeyGeneration}
    (h : Runs (load_encrypted_key_generations access_key_id time) tables found tables') (hmem : generation ∈ found) :
    ¬tables.Inactive ⟨generation.bucket_id, access_key_id⟩ := by
  obtain ⟨row, hrow, hdecode⟩ := fallible.exists_of_mem_mapM h.fetch_bind.lift.1 hmem
  obtain ⟨metadata, hmetadata, hactive⟩ := mem_valid_generations (List.mem_mergeSort.mp (List.mem_of_mem_take hrow))
  simp only [decode_generation, fallible.bind_eq_ok_iff] at hdecode
  obtain ⟨_, _, secret, _, hdecode⟩ := hdecode
  cases hdecode
  rintro ⟨_, hother, hstate⟩
  cases hmetadata.symm.trans hother
  exact hstate hactive

/-- Once a key is revoked, or its bucket archived, then after any later calls, whatever their outcome, no secret of any
generation authenticates it, and no generation of it is loaded to verify a signature. -/
theorem revoked_key_never_authenticates (sha256 : List UInt8 → Sha256Digest) (scope : EnvironmentScope)
    {calls : List (World × Call)} {key : AccessKeyRef} (hkey : (history sha256 scope calls).Inactive key)
    (later : List (World × Call)) (time : TimestampMicros) (tables' : StorageTables) :
    (∀ digest found, Runs (authenticate_key key digest time) (history sha256 scope (calls ++ later)) found tables' →
      found = none) ∧
    ∀ found, Runs (load_encrypted_key_generations key.access_key_id time) (history sha256 scope (calls ++ later)) found
      tables' → ∀ generation ∈ found, generation.bucket_id ≠ key.bucket_id := by
  have hlater := history_append_inactive hkey later
  refine ⟨fun digest found h => authenticate_key_inactive hlater h, fun found h generation hmem hbucket => ?_⟩
  exact load_encrypted_key_generations_active h hmem (hbucket ▸ hlater)

def one_key : AccessKeyRef := ⟨one_bucket, ⟨.from_nat 1⟩⟩

def key_command (operation : Nat) (command : ObjectStorageCommand) : World × Call :=
  (calm, .apply ⟨.from_nat operation⟩ command)

def first_secret : Sha256Digest := runku.data.checksum [1]

def sealed : EncryptedAccessKeySecret := ⟨Vector.replicate 12 0, List.replicate 48 0⟩

/-- A key is issued, and rotated such that its first secret may still be used up to the time 100. -/
def rotated_key : List (World × Call) :=
  [creating,
    key_command 1 (.IssueAccessKey one_bucket one_key.access_key_id ⟨"backup", "", [.Read]⟩ first_secret sealed operator 1),
    key_command 2 (.RotateAccessKey one_bucket one_key.access_key_id 1 (runku.data.checksum [2]) sealed 100 operator 2)]

def revoking : World × Call :=
  key_command 3 (.RevokeAccessKey one_bucket one_key.access_key_id 2 operator 3)

/-- Its first secret authenticates the key after the rotation, and no longer once the key is revoked, also if it is
rotated after that, which is refused. -/
theorem rotated_secret_dies_with_the_key :
    (authenticate_key one_key first_secret 50 ⟨history runku.data.checksum one_scope rotated_key, []⟩).1 =
        .ok (some ⟨⟨"backup", "", [.Read]⟩, 2, .Active, 1, 2, some 100⟩) ∧
      ∀ found tables', Runs (authenticate_key one_key first_secret 50) (history runku.data.checksum one_scope
        (rotated_key ++ [revoking] ++ [key_command 4
          (.RotateAccessKey one_bucket one_key.access_key_id 3 first_secret sealed 100 operator 4)])) found tables' →
            found = none :=
  ⟨by decide +kernel, fun found tables' => (revoked_key_never_authenticates runku.data.checksum one_scope
    ⟨⟨⟨"backup", "", [.Read]⟩, 3, .Revoked, 1, 3, none⟩, by decide +kernel, by decide⟩ _ 50 tables').1 first_secret
      found⟩

end runku.object_storage_repository
