import Runku.Releases.Manifest

/-! `runku-releases/src/routing.rs` and `runku-releases/src/repository.rs`. -/

namespace runku.releases

open Std (ExtTreeMap)
open runku.core
open runku.data (Sha256Digest)
open bytes

inductive ReleaseStatus
  | Created
  | Building
  | BuildFailed
  | Validating
  | ValidationFailed
  | CompatibilityBlocked
  | MigrationRequired
  | Ready
  | Servable
  | Active
  | Deprecated
  | Retired
  | GarbageCollected
  deriving DecidableEq

/-- The explicit management transitions: `ReleaseLifecycle::advance`. -/
def ReleaseStatus.advance (current next : ReleaseStatus) : Except ReleaseError ReleaseStatus :=
  let allowed : Bool := match current, next with
    | .Created, .Building => true
    | .Building, .BuildFailed | .Building, .Validating => true
    | .Validating, .ValidationFailed | .Validating, .CompatibilityBlocked | .Validating, .MigrationRequired
    | .Validating, .Ready => true
    | .CompatibilityBlocked, .Validating | .MigrationRequired, .Validating => true
    | .Ready, .Servable => true
    | .Servable, .Deprecated => true
    | .Deprecated, .Retired => true
    | .Retired, .GarbageCollected => true
    | _, _ => false
  if allowed then .ok next else .error .InvalidTransition

/-- A status set by hand is never the one that the Channels decide. -/
theorem ReleaseStatus.advance_eq_ok {current next result : ReleaseStatus} (h : current.advance next = .ok result) :
    current ≠ .Active ∧ next ≠ .Active ∧ result = next := by
  unfold ReleaseStatus.advance at h
  split at h <;> cases h <;> exact ⟨nofun, nofun, rfl⟩

/-- The status that follows from the Channels: `ReleaseLifecycle::with_channel_reference`. -/
def ReleaseStatus.with_channel_reference (current : ReleaseStatus) (referenced : Bool) :
    Except ReleaseError ReleaseStatus :=
  match current, referenced with
  | .Servable, true | .Active, true => .ok .Active
  | .Servable, false | .Active, false => .ok .Servable
  | _, _ => .error .InvalidTransition

def ReleaseStatus.explicitly_invocable : ReleaseStatus → Bool
  | .Servable | .Active | .Deprecated => true
  | _ => false

structure ServingReleaseEntry where
  release_id : ReleaseId
  project_id : ProjectId
  manifest_digest : Sha256Digest
  artifact : ArtifactDescriptor
  runtime_version : RuntimeVersion
  status : ReleaseStatus
  deriving DecidableEq

structure ChannelBinding where
  channel : ChannelName
  release_id : ReleaseId
  deriving DecidableEq

structure ServingSnapshot where
  scope : EnvironmentScope
  revision : Nat
  release_map : ExtTreeMap ReleaseId ServingReleaseEntry
  channels : ExtTreeMap ChannelName ReleaseId
  default_channel : Option ChannelName
  deriving DecidableEq

def ServingSnapshot.insert_releases (scope : EnvironmentScope) :
    ExtTreeMap ReleaseId ServingReleaseEntry → List ServingReleaseEntry →
    Except ReleaseError (ExtTreeMap ReleaseId ServingReleaseEntry)
  | release_map, [] => .ok release_map
  | release_map, release :: releases =>
    if release.project_id ≠ scope.project_id ∨ release.release_id ∈ release_map then .error .InvalidSnapshot
    else ServingSnapshot.insert_releases scope (release_map.insert release.release_id release) releases

def ServingSnapshot.insert_channels (release_map : ExtTreeMap ReleaseId ServingReleaseEntry) :
    ExtTreeMap ChannelName ReleaseId → List ChannelBinding → Except ReleaseError (ExtTreeMap ChannelName ReleaseId)
  | channel_map, [] => .ok channel_map
  | channel_map, binding :: channels =>
    if binding.channel ∈ channel_map then .error .InvalidSnapshot
    else
      match release_map[binding.release_id]? with
      | none => .error .InvalidSnapshot
      | some release =>
        if release.status ≠ .Active then .error .InvalidSnapshot
        else ServingSnapshot.insert_channels release_map (channel_map.insert binding.channel binding.release_id) channels

/-- The releases that a Channel references are the values of the Channel map. -/
def ServingSnapshot.new (scope : EnvironmentScope) (revision : Nat) (releases : List ServingReleaseEntry)
    (channels : List ChannelBinding) (default_channel : Option ChannelName) : Except ReleaseError ServingSnapshot :=
  if revision = 0 then .error .InvalidSnapshot
  else do
    let release_map ← ServingSnapshot.insert_releases scope ∅ releases
    let channel_map ← ServingSnapshot.insert_channels release_map ∅ channels
    let referenced := channel_map.toList.map Prod.snd
    if release_map.toList.any fun row =>
        decide (row.2.status = .Active) != decide (row.2.release_id ∈ referenced) then
      .error .InvalidSnapshot
    else if default_channel.any (· ∉ channel_map) then .error .InvalidSnapshot
    else return ⟨scope, revision, release_map, channel_map, default_channel⟩

section
variable {scope : EnvironmentScope} {releases : List ServingReleaseEntry}
  {release_map : ExtTreeMap ReleaseId ServingReleaseEntry} {channels : List ChannelBinding}
  {channel_map : ExtTreeMap ChannelName ReleaseId}

theorem ServingSnapshot.insert_releases_eq_ok (hproject : ∀ release ∈ releases, release.project_id = scope.project_id)
    (hnodup : (releases.map ServingReleaseEntry.release_id).Nodup)
    (hfresh : ∀ release ∈ releases, release.release_id ∉ release_map) :
    ServingSnapshot.insert_releases scope release_map releases =
      .ok (ordered_map.writes release_map (releases.map fun release => (release.release_id, some release))) := by
  induction releases generalizing release_map with
  | nil => rfl
  | cons release releases ih =>
    rw [List.forall_mem_cons] at hproject hfresh
    rw [List.map_cons, List.nodup_cons] at hnodup
    rw [ServingSnapshot.insert_releases, if_neg (not_or.mpr ⟨not_not.mpr hproject.1, hfresh.1⟩)]
    refine ih hproject.2 hnodup.2 fun other hother hmem => ?_
    rcases ExtTreeMap.mem_insert.mp hmem with heq | hmem
    · rw [compare_eq_iff_eq] at heq
      exact hnodup.1 (heq ▸ List.mem_map_of_mem hother)
    · exact hfresh.2 other hother hmem

theorem ServingSnapshot.insert_channels_eq_ok (hactive : ∀ binding ∈ channels,
      (release_map[binding.release_id]?).map ServingReleaseEntry.status = some .Active)
    (hnodup : (channels.map ChannelBinding.channel).Nodup)
    (hfresh : ∀ binding ∈ channels, binding.channel ∉ channel_map) :
    ServingSnapshot.insert_channels release_map channel_map channels =
      .ok (ordered_map.writes channel_map (channels.map fun binding => (binding.channel, some binding.release_id))) := by
  induction channels generalizing channel_map with
  | nil => rfl
  | cons binding channels ih =>
    rw [List.forall_mem_cons] at hactive hfresh
    rw [List.map_cons, List.nodup_cons] at hnodup
    obtain ⟨release, hrelease, hstatus⟩ := Option.map_eq_some_iff.mp hactive.1
    simp only [ServingSnapshot.insert_channels, if_neg hfresh.1, hrelease, hstatus, ne_eq, not_true_eq_false, if_false]
    refine ih hactive.2 hnodup.2 fun other hother hmem => ?_
    rcases ExtTreeMap.mem_insert.mp hmem with heq | hmem
    · rw [compare_eq_iff_eq] at heq
      exact hnodup.1 (heq ▸ List.mem_map_of_mem hother)
    · exact hfresh.2 other hother hmem

/-- Records written under their own identities are found under them. -/
theorem release_id_of_writes
    (hmap : ∀ (release_id : ReleaseId) (release : ServingReleaseEntry), release_map[release_id]? = some release →
      release.release_id = release_id) {release_id : ReleaseId} {release : ServingReleaseEntry}
    (h : (ordered_map.writes release_map (releases.map fun release => (release.release_id, some release)))[release_id]? =
      some release) : release.release_id = release_id := by
  induction releases generalizing release_map with
  | nil => exact hmap release_id release h
  | cons first releases ih =>
    refine ih (fun other entry hentry => ?_) h
    rw [ordered_map.getElem?_write] at hentry
    split at hentry
    · rename_i heq
      exact Option.some.inj hentry ▸ heq
    · exact hmap other entry hentry

theorem ServingSnapshot.new_eq_ok {revision : Nat} {default_channel : Option ChannelName}
    (hrevision : revision ≠ 0) (hreleases : ServingSnapshot.insert_releases scope ∅ releases = .ok release_map)
    (hchannels : ServingSnapshot.insert_channels release_map ∅ channels = .ok channel_map)
    (hactive : ∀ (release_id : ReleaseId) (release : ServingReleaseEntry), release_map[release_id]? = some release →
      (release.status = .Active ↔ ∃ channel : ChannelName, channel_map[channel]? = some release.release_id))
    (hdefault : ∀ channel, default_channel = some channel → channel ∈ channel_map) :
    ServingSnapshot.new scope revision releases channels default_channel =
      .ok ⟨scope, revision, release_map, channel_map, default_channel⟩ := by
  have hagree : ¬(release_map.toList.any fun row =>
      decide (row.2.status = .Active) != decide (row.2.release_id ∈ channel_map.toList.map Prod.snd)) = true := by
    rw [List.any_eq_true]
    rintro ⟨row, hrow, hdiffer⟩
    have hiff := hactive row.1 row.2 (ExtTreeMap.mem_toList_iff_getElem?_eq_some.mp hrow)
    rw [← ordered_map.mem_map_snd_toList] at hiff
    simp [hiff] at hdiffer
  have hfound : ¬(default_channel.any (· ∉ channel_map)) = true := by
    cases default_channel with
    | none => simp
    | some channel => simpa using hdefault channel rfl
  rw [ServingSnapshot.new, if_neg hrevision, hreleases, fallible.ok_bind, hchannels, fallible.ok_bind, if_neg hagree,
    if_neg hfound]
  rfl

end

def ServingSnapshot.release (snapshot : ServingSnapshot) (release_id : ReleaseId) : Option ServingReleaseEntry :=
  snapshot.release_map[release_id]?

inductive ReleaseCommand
  | Register (manifest_bytes : List UInt8)
  | Transition (release_id : ReleaseId) (expected next : ReleaseStatus)
  | SetChannel (channel : ChannelName) (expected_release target_release : Option ReleaseId)
  | SetDefaultChannel (expected_channel target_channel : Option ChannelName)
  deriving DecidableEq

def ReleaseCommand.validate (command : ReleaseCommand) (scope : EnvironmentScope) : Except ReleaseError Unit :=
  match command with
  | .Register manifest_bytes => do
    let manifest ← decode_release_manifest manifest_bytes
    if manifest.project_id ≠ scope.project_id then .error .InvalidManifest else .ok ()
  | .Transition _ expected next => do
    let _ ← expected.advance next
    return ()
  | .SetChannel _ expected_release target_release =>
    if expected_release = target_release then .error .InvalidTransition else .ok ()
  | .SetDefaultChannel expected_channel target_channel =>
    if expected_channel = target_channel then .error .InvalidTransition else .ok ()

def status_tag : ReleaseStatus → UInt8
  | .Created => 1
  | .Building => 2
  | .BuildFailed => 3
  | .Validating => 4
  | .ValidationFailed => 5
  | .CompatibilityBlocked => 6
  | .MigrationRequired => 7
  | .Ready => 8
  | .Servable => 9
  | .Active => 10
  | .Deprecated => 11
  | .Retired => 12
  | .GarbageCollected => 13

def digest_optional (value : Option String) : List UInt8 :=
  match value with
  | some value => 1 :: as_bytes value
  | none => [0]

def ReleaseCommand.body_bytes : ReleaseCommand → List UInt8
  | .Register manifest_bytes => 1 :: to_be_bytes 8 manifest_bytes.length ++ manifest_bytes
  | .Transition release_id expected next =>
    2 :: as_bytes release_id.to_string ++ [status_tag expected, status_tag next]
  | .SetChannel channel expected_release target_release =>
    3 :: as_bytes channel.as_str ++ digest_optional (expected_release.map ResourceId.to_string) ++
      digest_optional (target_release.map ResourceId.to_string)
  | .SetDefaultChannel expected_channel target_channel =>
    4 :: digest_optional (expected_channel.map ChannelName.as_str) ++
      digest_optional (target_channel.map ChannelName.as_str)

def ReleaseCommand.digest (sha256 : List UInt8 → Sha256Digest) (command : ReleaseCommand) (scope : EnvironmentScope) :
    Except ReleaseError Sha256Digest := do
  command.validate scope
  return sha256 (as_bytes "RUNKU_RELEASE_COMMAND_V1" ++ as_bytes scope.project_id.to_string ++ [0] ++
    as_bytes scope.environment_id.to_string ++ [0] ++ command.body_bytes)

structure ReleaseCommandResult where
  serving_revision : Nat
  replayed : Bool
  deriving DecidableEq

end runku.releases
