import Runku.Lib.Machine
import Runku.ReleaseRepository.Adapter

namespace runku.release_repository

open Std (ExtTreeMap)
open runku.core runku.releases
open runku.value (TimestampMicros)
open runku.data (Sha256Digest)
open transaction

section
variable {tables tables' : ReleaseTables} {u : Unit}

theorem Runs.execute_one {update : ReleaseTables → Option ReleaseTables}
    (h : Runs (release_repository.execute_one update) tables u tables') : update tables = some tables' := by
  have h := h.statement
  split at h
  · rename_i hupdate
    rw [hupdate, (Prod.mk.inj (Except.ok.inj h)).2]
  · cases h

theorem getElem?_put_record (tables : ReleaseTables) (release_id other : ReleaseId) (row : ReleaseRow) :
    (tables.put_record release_id row).records[other]? = if release_id = other then some row else tables.records[other]? := by
  simp [ReleaseTables.put_record]

/-- Some Channel is bound to the Release. -/
def ReleaseTables.Referenced (tables : ReleaseTables) (release_id : ReleaseId) : Prop :=
  ∃ channel : ChannelName, tables.channels[channel]? = some release_id

theorem references_pos_iff {release_id : ReleaseId} :
    (tables.channels.toList.filter (·.2 = release_id)).length > 0 ↔ tables.Referenced release_id := by
  rw [ReleaseTables.Referenced, ← ordered_map.mem_map_snd_toList, gt_iff_lt, List.length_pos_iff_exists_mem]
  simp [List.mem_filter]

/-- A Release that a Channel references becomes active, any other one servable. -/
theorem refresh_activity_runs {release_id : ReleaseId} {now : TimestampMicros}
    (h : Runs (refresh_activity release_id now) tables u tables') :
    ∃ row next, tables.records[release_id]? = some row ∧ (row.status = .Servable ∨ row.status = .Active) ∧
      (next = .Active ∧ tables.Referenced release_id ∨ next = .Servable ∧ ¬tables.Referenced release_id) ∧
      tables' = tables.put_record release_id (row.set_status next now) := by
  have h := h.fetch_bind.fetch_bind
  split at h
  · cases h.lift.1
  · rename_i row hrow
    obtain ⟨next, hnext, h⟩ := h.lift_bind
    refine ⟨row, next, hrow, ?_, ?_, h.execute⟩
    · cases hstatus : row.status <;> simp_all [ReleaseStatus.with_channel_reference]
    · rw [← references_pos_iff]
      unfold ReleaseStatus.with_channel_reference at hnext
      split at hnext <;> simp_all

end

/-- The stored manifest is the one of the record, and of the Project. -/
def ReleaseRow.Decodes (sha256 : List UInt8 → Sha256Digest) (scope : EnvironmentScope) (release_id : ReleaseId)
    (row : ReleaseRow) : Prop :=
  ∃ manifest, decode_release_manifest row.manifest_bytes = .ok manifest ∧
    manifest.digest sha256 = .ok row.manifest_digest ∧ manifest.release_id = release_id ∧
    manifest.project_id = scope.project_id

/-- The default Channel exists, every manifest decodes, and a Release is active exactly when a Channel references it,
the Releases still to be refreshed apart. -/
structure ReleaseTables.Consistent (sha256 : List UInt8 → Sha256Digest) (scope : EnvironmentScope)
    (stale : List ReleaseId) (tables : ReleaseTables) : Prop where
  active : ∀ release_id ∉ stale, tables.status release_id = some .Active ↔ tables.Referenced release_id
  default_channel : ∀ channel, tables.default_channel = some channel → channel ∈ tables.channels
  decodes : ∀ (release_id : ReleaseId) (row : ReleaseRow), tables.records[release_id]? = some row →
    row.Decodes sha256 scope release_id

section
variable {sha256 : List UInt8 → Sha256Digest} {scope : EnvironmentScope} {stale : List ReleaseId}
  {tables tables' : ReleaseTables} {u : Unit} {now : TimestampMicros}

theorem status_put_record (tables : ReleaseTables) (release_id other : ReleaseId) (row : ReleaseRow) :
    (tables.put_record release_id row).status other =
      if release_id = other then some row.status else tables.status other := by
  unfold ReleaseTables.status
  rw [getElem?_put_record]
  split <;> rfl

variable {release_id : ReleaseId}

/-- Writing a record that decodes disturbs at most that record. -/
theorem ReleaseTables.Consistent.put_record (h : tables.Consistent sha256 scope stale)
    {row : ReleaseRow} (hrow : row.Decodes sha256 scope release_id)
    (hactive : release_id ∉ stale → (row.status = .Active ↔ tables.Referenced release_id)) :
    (tables.put_record release_id row).Consistent sha256 scope stale where
  active other hother := by
    rw [status_put_record]
    split
    · rename_i heq
      subst heq
      exact (Option.some_inj).trans (hactive hother)
    · exact h.active other hother
  default_channel := h.default_channel
  decodes other row' hrow' := by
    rw [getElem?_put_record] at hrow'
    split at hrow'
    · rename_i heq
      cases hrow'
      exact heq ▸ hrow
    · exact h.decodes other row' hrow'

/-- Refreshing a Release takes it off the list. -/
theorem ReleaseTables.Consistent.refresh_activity (h : tables.Consistent sha256 scope (release_id :: stale))
    (hruns : Runs (release_repository.refresh_activity release_id now) tables u tables') :
    tables'.Consistent sha256 scope stale := by
  obtain ⟨row, next, hrow, _, hnext, rfl⟩ := refresh_activity_runs hruns
  have hdecodes : (row.set_status next now).Decodes sha256 scope release_id := h.decodes release_id row hrow
  have hput := h.put_record hdecodes fun hnot => absurd List.mem_cons_self hnot
  refine ⟨fun other hother => ?_, hput.default_channel, hput.decodes⟩
  by_cases heq : other = release_id
  · subst heq
    rw [status_put_record, if_pos rfl]
    rcases hnext with ⟨rfl, href⟩ | ⟨rfl, href⟩
    · exact iff_of_true rfl href
    · exact iff_of_false nofun href
  · exact hput.active other (by simp [heq, hother])

theorem ReleaseTables.Consistent.refresh_optional {release_id : Option ReleaseId}
    (h : tables.Consistent sha256 scope (release_id.toList ++ stale))
    (hruns : Runs (release_repository.refresh_optional now release_id) tables u tables') :
    tables'.Consistent sha256 scope stale := by
  cases release_id with
  | none =>
    obtain ⟨_, rfl⟩ := hruns.pure
    exact h
  | some release_id => exact h.refresh_activity hruns

variable {channel : ChannelName} {target : Option ReleaseId}

theorem insert_channel_runs
    (h : Runs (insert_channel channel target) tables u tables') (herased : tables.channels[channel]? = none) :
    (∀ other : ChannelName, tables'.channels[other]? = if channel = other then target else tables.channels[other]?) ∧
      tables'.environment = tables.environment ∧ tables'.records = tables.records := by
  cases target with
  | none =>
    obtain ⟨_, rfl⟩ := h.pure
    refine ⟨fun other => ?_, rfl, rfl⟩
    split
    · rename_i heq
      exact heq ▸ herased
    · rfl
  | some target =>
    obtain rfl := h.execute
    exact ⟨fun other => by simp, rfl, rfl⟩

theorem check_binding_runs (h : Runs (check_binding channel target) tables u tables') :
    tables' = tables ∧ (target = none → tables.default_channel ≠ some channel) := by
  cases target with
  | none =>
    have h := h.fetch_bind
    split at h
    · cases h.lift.1
    · rename_i hdefault
      exact ⟨h.pure.2, fun _ => hdefault⟩
  | some target =>
    have h := h.fetch_bind
    split at h
    · exact ⟨h.pure.2, nofun⟩
    · cases h.lift.1

/-- Rebinding a Channel leaves the old and the new target to be refreshed. -/
theorem ReleaseTables.Consistent.rebind (h : tables.Consistent sha256 scope [])
    (hdefault : target = none → tables.default_channel ≠ some channel) (hchannels : ∀ other : ChannelName,
      tables'.channels[other]? = if channel = other then target else tables.channels[other]?)
    (henvironment : tables'.environment = tables.environment) (hrecords : tables'.records = tables.records) :
    tables'.Consistent sha256 scope ((tables.channels[channel]?).toList ++ (target.toList ++ [])) := by
  refine ⟨fun release_id hfresh => ?_, fun other hother => ?_, fun release_id row hrow => ?_⟩
  · have hstatus : tables'.status release_id = tables.status release_id := by
      unfold ReleaseTables.status
      rw [hrecords]
    simp only [List.append_nil, List.mem_append, Option.mem_toList, not_or] at hfresh
    rw [hstatus, h.active release_id List.not_mem_nil]
    refine exists_congr fun other => ?_
    rw [hchannels]
    split
    · rename_i heq
      subst heq
      exact iff_of_false hfresh.1 hfresh.2
    · exact Iff.rfl
  · have hold : tables.default_channel = some other := by
      unfold ReleaseTables.default_channel at hother ⊢
      rwa [henvironment] at hother
    have hmem := h.default_channel other hold
    rw [ExtTreeMap.mem_iff_isSome_getElem?] at hmem ⊢
    rw [hchannels]
    split
    · rename_i heq
      subst heq
      exact Option.isSome_iff_ne_none.mpr fun hnone => hdefault hnone hold
    · exact hmem
  · exact h.decodes release_id row (hrecords ▸ hrow)

theorem ReleaseTables.Consistent.set_channel {expected target : Option ReleaseId}
    (h : tables.Consistent sha256 scope [])
    (hruns : Runs (release_repository.set_channel channel expected target now) tables u tables') :
    tables'.Consistent sha256 scope [] := by
  have hruns := hruns.fetch_bind
  split at hruns
  · cases hruns.lift.1
  obtain ⟨_, t₁, hcheck, hruns⟩ := hruns.bind
  obtain ⟨rfl, hdefault⟩ := check_binding_runs hcheck
  obtain ⟨_, t₂, hinsert, hruns⟩ := hruns.execute_bind.bind
  obtain ⟨_, t₃, hcurrent, htarget⟩ := hruns.bind
  obtain ⟨hchannels, henvironment, hrecords⟩ := insert_channel_runs hinsert (by simp)
  have hbound := h.rebind hdefault (fun other => by rw [hchannels]; split <;> simp_all) henvironment hrecords
  exact (hbound.refresh_optional hcurrent).refresh_optional htarget

theorem register_runs {manifest_bytes : List UInt8} (h : Runs (register sha256 manifest_bytes now) tables u tables') :
    ∃ manifest manifest_digest, decode_release_manifest manifest_bytes = .ok manifest ∧
      manifest.digest sha256 = .ok manifest_digest ∧ manifest.release_id ∉ tables.records ∧
      tables' = tables.put_record manifest.release_id ⟨.Created, manifest_digest, manifest_bytes, 1, now, now⟩ := by
  obtain ⟨manifest, hmanifest, h⟩ := h.lift_bind
  obtain ⟨manifest_digest, hdigest, h⟩ := h.lift_bind
  have h := Runs.execute_one h
  split at h
  · cases h
  · rename_i hfresh
    exact ⟨manifest, manifest_digest, hmanifest, hdigest, hfresh, (Option.some.inj h).symm⟩

theorem transition_runs {expected next : ReleaseStatus}
    (h : Runs (transition release_id expected next now) tables u tables') :
    ∃ row, tables.records[release_id]? = some row ∧ row.status = expected ∧ expected.advance next = .ok next ∧
      tables' = tables.put_record release_id (row.set_status next now) := by
  obtain ⟨result, hresult, h⟩ := h.lift_bind
  have h := Runs.execute_one h
  split at h
  · rename_i row hrow
    split at h
    · rename_i hexpected
      exact ⟨row, hrow, hexpected, (ReleaseStatus.advance_eq_ok hresult).2.2 ▸ hresult, (Option.some.inj h).symm⟩
    · cases h
  · cases h

theorem set_default_channel_runs {expected target : Option ChannelName}
    (h : Runs (set_default_channel expected target) tables u tables') :
    (∀ channel, target = some channel → channel ∈ tables.channels) ∧
      tables' = { tables with environment := tables.environment.map fun environment =>
        { environment with default_channel := target } } := by
  have h := h.fetch_bind
  split at h
  · cases h.lift.1
  obtain ⟨_, t₁, hcheck, hupdate⟩ := h.bind
  obtain ⟨rfl, htarget⟩ : t₁ = tables ∧ ∀ channel, target = some channel → channel ∈ tables.channels := by
    cases target with
    | none => exact ⟨hcheck.pure.2, nofun⟩
    | some target =>
      have hcheck := hcheck.fetch_bind
      split at hcheck
      · rename_i hfound
        refine ⟨hcheck.pure.2, fun channel hchannel => ?_⟩
        cases hchannel
        exact of_decide_eq_true hfound
      · cases hcheck.lift.1
  exact ⟨htarget, hupdate.execute⟩

theorem status_eq_of_getElem? {row : ReleaseRow}
    (h : tables.records[release_id]? = some row) : tables.status release_id = some row.status := by
  rw [ReleaseTables.status, h]
  rfl

theorem ReleaseTables.Consistent.register {manifest_bytes : List UInt8} (h : tables.Consistent sha256 scope [])
    (hvalid : (ReleaseCommand.Register manifest_bytes).validate scope = .ok ())
    (hruns : Runs (release_repository.register sha256 manifest_bytes now) tables u tables') :
    tables'.Consistent sha256 scope [] := by
  obtain ⟨manifest, manifest_digest, hmanifest, hdigest, hfresh, rfl⟩ := register_runs hruns
  simp only [ReleaseCommand.validate, hmanifest, fallible.ok_bind, fallible.ite_error_eq_ok_iff, not_not,
    and_true] at hvalid
  refine h.put_record ⟨manifest, hmanifest, hdigest, rfl, hvalid⟩ fun _ => iff_of_false nofun fun href => ?_
  have hactive := (h.active manifest.release_id List.not_mem_nil).mpr href
  rw [ReleaseTables.status, Std.ExtTreeMap.getElem?_eq_none hfresh] at hactive
  cases hactive

theorem ReleaseTables.Consistent.transition {expected next : ReleaseStatus} (h : tables.Consistent sha256 scope [])
    (hruns : Runs (release_repository.transition release_id expected next now) tables u tables') :
    tables'.Consistent sha256 scope [] := by
  obtain ⟨row, hrow, rfl, hadvance, rfl⟩ := transition_runs hruns
  obtain ⟨hcurrent, hnext, _⟩ := ReleaseStatus.advance_eq_ok hadvance
  have hdecodes : (row.set_status next now).Decodes sha256 scope release_id := h.decodes release_id row hrow
  refine h.put_record hdecodes fun _ => iff_of_false hnext fun href => hcurrent ?_
  have hactive := (h.active release_id List.not_mem_nil).mpr href
  rw [status_eq_of_getElem? hrow] at hactive
  exact Option.some.inj hactive

theorem ReleaseTables.Consistent.set_default_channel {expected target : Option ChannelName}
    (h : tables.Consistent sha256 scope [])
    (hruns : Runs (release_repository.set_default_channel expected target) tables u tables') :
    tables'.Consistent sha256 scope [] := by
  obtain ⟨htarget, rfl⟩ := set_default_channel_runs hruns
  refine ⟨h.active, fun channel hchannel => htarget channel ?_, h.decodes⟩
  rw [ReleaseTables.default_channel] at hchannel
  cases henvironment : tables.environment <;> simp_all

/-- Every command leaves the Channels, the statuses and the manifests consistent. -/
theorem ReleaseTables.Consistent.run_command {command : ReleaseCommand} (h : tables.Consistent sha256 scope [])
    (hvalid : command.validate scope = .ok ())
    (hruns : Runs (release_repository.run_command sha256 now command) tables u tables') :
    tables'.Consistent sha256 scope [] := by
  cases command with
  | Register manifest_bytes => exact h.register hvalid hruns
  | Transition release_id expected next => exact h.transition hruns
  | SetChannel channel expected target => exact h.set_channel hruns
  | SetDefaultChannel expected target => exact h.set_default_channel hruns

end

/-- What the Channels may do to a status: move it between servable and active. -/
def Refreshed (before after : Option ReleaseStatus) : Prop :=
  after = before ∨ (before = some .Servable ∨ before = some .Active) ∧ (after = some .Servable ∨ after = some .Active)

theorem Refreshed.trans {a b c : Option ReleaseStatus} (h : Refreshed a b) (h' : Refreshed b c) : Refreshed a c := by
  rcases h' with rfl | ⟨hb, hc⟩
  · exact h
  · rcases h with rfl | ⟨ha, _⟩
    · exact .inr ⟨hb, hc⟩
    · exact .inr ⟨ha, hc⟩

/-- What a command may do to the status of a Release. -/
inductive StatusStep (command : ReleaseCommand) (release_id : ReleaseId) :
    Option ReleaseStatus → Option ReleaseStatus → Prop
  | refresh {before after : Option ReleaseStatus} (h : Refreshed before after) :
    StatusStep command release_id before after
  | register : StatusStep command release_id none (some .Created)
  | advance {expected next : ReleaseStatus} (hcommand : command = .Transition release_id expected next)
    (hadvance : expected.advance next = .ok next) : StatusStep command release_id (some expected) (some next)

section
variable {sha256 : List UInt8 → Sha256Digest} {tables tables' : ReleaseTables} {u : Unit} {now : TimestampMicros}

theorem refresh_activity_status {release_id : ReleaseId} (h : Runs (refresh_activity release_id now) tables u tables')
    (other : ReleaseId) : Refreshed (tables.status other) (tables'.status other) := by
  obtain ⟨row, next, hrow, hstatus, hnext, rfl⟩ := refresh_activity_runs h
  rw [status_put_record]
  split
  · rename_i heq
    subst heq
    rw [status_eq_of_getElem? hrow]
    refine .inr ⟨hstatus.imp (congrArg some) (congrArg some), ?_⟩
    rcases hnext with ⟨rfl, _⟩ | ⟨rfl, _⟩
    · exact .inr rfl
    · exact .inl rfl
  · exact .inl rfl

theorem refresh_optional_status {release_id : Option ReleaseId}
    (h : Runs (refresh_optional now release_id) tables u tables') (other : ReleaseId) :
    Refreshed (tables.status other) (tables'.status other) := by
  cases release_id with
  | none =>
    obtain ⟨_, rfl⟩ := h.pure
    exact .inl rfl
  | some release_id => exact refresh_activity_status h other

theorem set_channel_status {channel : ChannelName} {expected target : Option ReleaseId}
    (h : Runs (set_channel channel expected target now) tables u tables') (other : ReleaseId) :
    Refreshed (tables.status other) (tables'.status other) := by
  have h := h.fetch_bind
  split at h
  · cases h.lift.1
  obtain ⟨_, t₁, hcheck, hrest⟩ := h.bind
  obtain ⟨rfl, _⟩ := check_binding_runs hcheck
  obtain ⟨_, t₂, hinsert, hrest⟩ := hrest.execute_bind.bind
  obtain ⟨_, t₃, hcurrent, htarget⟩ := hrest.bind
  obtain ⟨_, _, hrecords⟩ := insert_channel_runs hinsert (by simp)
  have hsame : t₂.status other = t₁.status other := by
    unfold ReleaseTables.status
    rw [hrecords]
  rw [← hsame]
  exact (refresh_optional_status hcurrent other).trans (refresh_optional_status htarget other)

/-- The status of a Release after a command. -/
theorem run_command_status {command : ReleaseCommand} (h : Runs (run_command sha256 now command) tables u tables')
    (release_id : ReleaseId) : StatusStep command release_id (tables.status release_id) (tables'.status release_id) := by
  cases command with
  | Register manifest_bytes =>
    obtain ⟨manifest, manifest_digest, _, _, hfresh, rfl⟩ := register_runs h
    rw [status_put_record]
    split
    · rename_i heq
      subst heq
      rw [ReleaseTables.status, Std.ExtTreeMap.getElem?_eq_none hfresh]
      exact .register
    · exact .refresh (.inl rfl)
  | Transition target expected next =>
    obtain ⟨row, hrow, rfl, hadvance, rfl⟩ := transition_runs h
    rw [status_put_record]
    split
    · rename_i heq
      subst heq
      rw [status_eq_of_getElem? hrow]
      exact .advance rfl hadvance
    · exact .refresh (.inl rfl)
  | SetChannel channel expected target => exact .refresh (set_channel_status h release_id)
  | SetDefaultChannel expected target =>
    obtain ⟨_, rfl⟩ := set_default_channel_runs h
    exact .refresh (.inl rfl)

end

/-- Retired for good. -/
def Finished (status : Option ReleaseStatus) : Prop := status = some .Retired ∨ status = some .GarbageCollected

theorem StatusStep.finished {command : ReleaseCommand} {release_id : ReleaseId} {before after : Option ReleaseStatus}
    (h : StatusStep command release_id before after) (hbefore : Finished before) : Finished after := by
  cases h with
  | refresh h => rcases hbefore with rfl | rfl <;> simp_all [Finished, Refreshed]
  | register => simp [Finished] at hbefore
  | advance _ hadvance =>
    simp only [Finished, Option.some.injEq] at hbefore ⊢
    unfold ReleaseStatus.advance at hadvance
    rcases hbefore with rfl | rfl <;> split at hadvance <;> simp_all

/-- A new command has taken effect, at the next serving revision. -/
def ReleaseTables.Advances (sha256 : List UInt8 → Sha256Digest) (scope : EnvironmentScope) (command : ReleaseCommand)
    (tables tables' : ReleaseTables) : Prop :=
  ∃ now operation_id operation middle environment, command.validate scope = .ok () ∧
    Runs (run_command sha256 now command)
      { tables with environment := some (tables.environment.getD ⟨0, none⟩) } () middle ∧
    middle.environment = some environment ∧
    tables' = { middle with
      environment := some { environment with serving_revision := tables.serving_revision + 1 }
      operations := middle.operations.insert operation_id operation }

section
variable {sha256 : List UInt8 → Sha256Digest} {scope : EnvironmentScope} {tables tables' : ReleaseTables}
  {command : ReleaseCommand}

/-- All that a command does. -/
theorem apply_command_runs {clock : Except ReleaseError TimestampMicros} {operation_id : OperationId}
    {digest : Sha256Digest} {result : ReleaseCommandResult} (hvalid : command.validate scope = .ok ())
    (h : Runs (apply_command sha256 clock operation_id command digest) tables result tables') :
    result.replayed = true ∧ tables' = tables ∨
      result = ⟨tables.serving_revision + 1, false⟩ ∧ tables.Advances sha256 scope command tables' := by
  have h := h.fetch_bind
  split at h
  · split at h
    · cases h.lift.1
    · split at h
      · cases h.lift.1
      · obtain ⟨rfl, rfl⟩ := h.pure
        exact .inl ⟨rfl, rfl⟩
  · have h := h.execute_bind.fetch_bind
    have hrevision : ReleaseTables.serving_revision
        { tables with environment := some (tables.environment.getD ⟨0, none⟩) } = tables.serving_revision := by
      unfold ReleaseTables.serving_revision
      cases tables.environment <;> rfl
    rw [hrevision] at h
    obtain ⟨next_revision, hnext, h⟩ := h.lift_bind
    obtain ⟨now, _, h⟩ := h.lift_bind
    obtain ⟨_, middle, hcommand, h⟩ := h.bind
    obtain ⟨_, t₂, hupdate, h⟩ := h.bind
    obtain ⟨rfl, rfl⟩ := h.execute_bind.pure
    have hupdate := Runs.execute_one hupdate
    split at hnext
    · cases hnext
      split at hupdate
      · rename_i environment henvironment
        split at hupdate
        · cases hupdate
          exact .inr ⟨rfl, now, operation_id, _, middle, environment, hvalid, hcommand, henvironment, rfl⟩
        · cases hupdate
      · cases hupdate
    · cases hnext

/-- All that a call can do: nothing, when it fails or is replayed, or one new command. -/
theorem apply_cases (sha256 : List UInt8 → Sha256Digest) (scope : EnvironmentScope) (world : ReleaseWorld)
    (operation_id : OperationId) (command : ReleaseCommand) (tables : ReleaseTables) :
    ((tables.apply sha256 scope world operation_id command).2 = tables ∧
      ∀ result, (tables.apply sha256 scope world operation_id command).1 = .ok result → result.replayed = true) ∨
    tables.Advances sha256 scope command (tables.apply sha256 scope world operation_id command).2 ∧
      ((tables.apply sha256 scope world operation_id command).1 = .ok ⟨tables.serving_revision + 1, false⟩ ∨
        (tables.apply sha256 scope world operation_id command).1 = .error .ResultUncertain) := by
  unfold ReleaseTables.apply
  split
  · exact .inl ⟨rfl, nofun⟩
  · rename_i digest hdigest
    have hvalid : command.validate scope = .ok () := by
      obtain ⟨_, hvalid, _⟩ := fallible.bind_eq_ok_iff.mp hdigest
      exact hvalid
    rcases transact_cases (apply_command sha256 world.clock operation_id command digest) world.faults world.outcome
      tables with ⟨error, herror⟩ | ⟨result, tables', hruns, htransact⟩
    · rw [herror]
      exact .inl ⟨rfl, nofun⟩
    · rcases apply_command_runs hvalid hruns with ⟨hreplayed, rfl⟩ | ⟨rfl, hadvances⟩
      · left
        rcases htransact with htransact | ⟨error, _, htransact⟩
        · rw [htransact]
          refine ⟨rfl, fun other hother => ?_⟩
          cases hother
          exact hreplayed
        · rw [htransact]
          exact ⟨rfl, nofun⟩
      · right
        rcases htransact with htransact | ⟨error, houtcome, htransact⟩
        · rw [htransact]
          exact ⟨hadvances, .inl rfl⟩
        · rw [htransact]
          exact ⟨hadvances, .inr (congrArg Except.error (world.uncertain error houtcome))⟩

end

/-- The snapshot says what the rows say. -/
structure ReleaseTables.Serves (tables : ReleaseTables) (snapshot : ServingSnapshot) : Prop where
  revision : snapshot.revision = tables.serving_revision
  status : ∀ release_id, (snapshot.release release_id).map ServingReleaseEntry.status = tables.status release_id
  channels : snapshot.channels = tables.channels
  default_channel : snapshot.default_channel = tables.default_channel

section
variable {sha256 : List UInt8 → Sha256Digest} {scope : EnvironmentScope} {tables : ReleaseTables}

theorem ReleaseRow.Decodes.decode_release {release_id : ReleaseId} {row : ReleaseRow}
    (h : row.Decodes sha256 scope release_id) :
    ∃ entry, release_repository.decode_release sha256 scope release_id row = .ok entry := by
  obtain ⟨manifest, hmanifest, hdigest, hrelease, hproject⟩ := h
  simp [release_repository.decode_release, hmanifest, hdigest, hrelease, hproject]

theorem decode_release_eq_ok {release_id : ReleaseId} {row : ReleaseRow} {entry : ServingReleaseEntry}
    (h : decode_release sha256 scope release_id row = .ok entry) :
    entry.release_id = release_id ∧ entry.project_id = scope.project_id ∧ entry.status = row.status := by
  obtain ⟨manifest, _, h⟩ := fallible.bind_eq_ok_iff.mp h
  obtain ⟨manifest_digest, _, h⟩ := fallible.bind_eq_ok_iff.mp h
  obtain ⟨_, h⟩ := fallible.ite_error_eq_ok_iff.mp h
  obtain ⟨hsame, h⟩ := fallible.ite_error_eq_ok_iff.mp h
  cases h
  rw [not_or, not_not, not_not] at hsame
  exact ⟨rfl, hsame.2, rfl⟩

theorem decoded_keys {rows : List (ReleaseId × ReleaseRow)} {entries : List ServingReleaseEntry}
    (h : rows.mapM (fun row => decode_release sha256 scope row.1 row.2) = .ok entries) :
    entries.map ServingReleaseEntry.release_id = rows.map Prod.fst := by
  have hall := fallible.mapM_eq_ok h
  clear h
  induction hall with
  | nil => rfl
  | cons hrow _ ih => rw [List.map_cons, List.map_cons, ih, (decode_release_eq_ok hrow).1]

/-- The decoded records, keyed by Release, have the statuses of the rows. -/
theorem decoded_status {entries : List ServingReleaseEntry}
    (h : tables.records.toList.mapM (fun row => decode_release sha256 scope row.1 row.2) = .ok entries)
    (release_id : ReleaseId) :
    ((ordered_map.writes ∅ (entries.map fun entry => (entry.release_id, some entry)))[release_id]?).map
      ServingReleaseEntry.status = tables.status release_id := by
  have hkeys : (entries.map fun entry => (entry.release_id, some entry)).map Prod.fst =
      tables.records.toList.map Prod.fst := by
    rw [List.map_map, ← decoded_keys h]
    rfl
  unfold ReleaseTables.status
  cases hrow : tables.records[release_id]? with
  | none =>
    rw [ordered_map.getElem?_writes_of_notMem, ExtTreeMap.getElem?_empty, Option.map_none, Option.map_none]
    rw [hkeys]
    intro hmem
    obtain ⟨row, hlisted, rfl⟩ := List.mem_map.mp hmem
    rw [ExtTreeMap.mem_toList_iff_getElem?_eq_some.mp hlisted] at hrow
    cases hrow
  | some row =>
    have hmem := ExtTreeMap.mem_toList_iff_getElem?_eq_some.mpr hrow
    obtain ⟨entry, hentry, hdecode⟩ := fallible.exists_of_mapM_eq_ok h hmem
    obtain ⟨hid, _, hstatus⟩ := decode_release_eq_ok hdecode
    have hwritten : (release_id, some entry) ∈ entries.map fun entry => (entry.release_id, some entry) :=
      List.mem_map.mpr ⟨entry, hentry, by rw [hid]⟩
    rw [ordered_map.getElem?_writes_of_mem (hkeys ▸ ordered_map.nodup_map_fst_toList _) hwritten, Option.map_some,
      Option.map_some, hstatus]

/-- Consistent rows are read as a valid snapshot. -/
theorem ReleaseTables.Consistent.snapshot (h : tables.Consistent sha256 scope []) {environment : EnvironmentRow}
    (henvironment : tables.environment = some environment) (hpositive : 0 < environment.serving_revision) :
    ∃ snapshot, tables.snapshot sha256 scope = .ok snapshot ∧ tables.Serves snapshot := by
  obtain ⟨entries, hentries⟩ : ∃ entries,
      tables.records.toList.mapM (fun row => decode_release sha256 scope row.1 row.2) = .ok entries :=
    fallible.exists_mapM_eq_ok fun row hrow =>
      (h.decodes row.1 row.2 (ExtTreeMap.mem_toList_iff_getElem?_eq_some.mp hrow)).decode_release
  have hreleases := @ServingSnapshot.insert_releases_eq_ok scope entries ∅
    (fun entry hentry => by
      obtain ⟨row, _, hrow⟩ := fallible.exists_of_mem_mapM hentries hentry
      exact (decode_release_eq_ok hrow).2.1)
    (decoded_keys hentries ▸ ordered_map.nodup_map_fst_toList _)
    (fun _ _ => ExtTreeMap.not_mem_empty)
  have hstatus := decoded_status hentries
  have hids : ∀ (release_id : ReleaseId) (entry : ServingReleaseEntry), (ordered_map.writes ∅ (entries.map fun entry =>
      (entry.release_id, some entry)))[release_id]? = some entry → entry.release_id = release_id :=
    fun release_id entry => release_id_of_writes fun _ _ hempty => by
      rw [ExtTreeMap.getElem?_empty] at hempty
      cases hempty
  generalize ordered_map.writes ∅ (entries.map fun entry => (entry.release_id, some entry)) = release_map
    at hreleases hstatus hids
  have hchannels := @ServingSnapshot.insert_channels_eq_ok release_map
    (tables.channels.toList.map fun row => ⟨row.1, row.2⟩) ∅
    (fun binding hbinding => by
      obtain ⟨row, hrow, rfl⟩ := List.mem_map.mp hbinding
      rw [hstatus, h.active row.2 List.not_mem_nil]
      exact ⟨row.1, ExtTreeMap.mem_toList_iff_getElem?_eq_some.mp hrow⟩)
    (by
      rw [List.map_map]
      exact ordered_map.nodup_map_fst_toList _)
    (fun _ _ => ExtTreeMap.not_mem_empty)
  rw [List.map_map, show ((fun binding : ChannelBinding => (binding.channel, some binding.release_id)) ∘
    fun row : ChannelName × ReleaseId => ⟨row.1, row.2⟩) = fun row => (row.1, some row.2) from rfl,
    ordered_map.writes_toList] at hchannels
  have hdefault : tables.default_channel = environment.default_channel := by
    rw [ReleaseTables.default_channel, henvironment]
    rfl
  have hnew := ServingSnapshot.new_eq_ok (Nat.ne_of_gt hpositive) hreleases hchannels
    (fun release_id entry hentry => by
      have hactive := h.active entry.release_id List.not_mem_nil
      rw [← hstatus, hids release_id entry hentry, hentry, Option.map_some, Option.some_inj] at hactive
      rw [hids release_id entry hentry]
      exact hactive)
    (fun channel hchannel => h.default_channel channel (hdefault.trans hchannel))
  refine ⟨⟨scope, environment.serving_revision, release_map, tables.channels, environment.default_channel⟩, ?_,
    ⟨?_, hstatus, rfl, hdefault.symm⟩⟩
  · rw [ReleaseTables.snapshot, henvironment]
    simp only [if_neg (Nat.ne_of_gt hpositive), hentries, fallible.ok_bind]
    exact hnew
  · rw [ReleaseTables.serving_revision, henvironment]

end

/-- What every reachable state of the repository keeps. -/
structure ReleaseTables.Valid (sha256 : List UInt8 → Sha256Digest) (scope : EnvironmentScope) (tables : ReleaseTables) :
    Prop where
  consistent : tables.Consistent sha256 scope []
  positive : ∀ environment, tables.environment = some environment → 0 < environment.serving_revision
  blank : tables.environment = none → tables = .empty

section
variable {sha256 : List UInt8 → Sha256Digest} {scope : EnvironmentScope} {tables tables' : ReleaseTables}
  {command : ReleaseCommand}

theorem ReleaseTables.empty_valid : ReleaseTables.empty.Valid sha256 scope where
  consistent := by
    refine ⟨fun release_id _ => ?_, nofun, fun release_id row hrow => ?_⟩
    · simp [ReleaseTables.empty, ReleaseTables.status, ReleaseTables.Referenced]
    · simp [ReleaseTables.empty] at hrow
  positive := nofun
  blank _ := rfl

theorem ReleaseTables.Valid.snapshot (h : tables.Valid sha256 scope) :
    tables = .empty ∨ ∃ snapshot, tables.snapshot sha256 scope = .ok snapshot ∧ tables.Serves snapshot := by
  cases henvironment : tables.environment with
  | none => exact .inl (h.blank henvironment)
  | some environment => exact .inr (h.consistent.snapshot henvironment (h.positive environment henvironment))

theorem ReleaseTables.Advances.serving_revision (h : tables.Advances sha256 scope command tables') :
    tables'.serving_revision = tables.serving_revision + 1 := by
  obtain ⟨now, operation_id, operation, middle, environment, _, _, _, rfl⟩ := h
  rfl

theorem ReleaseTables.Advances.status (h : tables.Advances sha256 scope command tables') (release_id : ReleaseId) :
    StatusStep command release_id (tables.status release_id) (tables'.status release_id) := by
  obtain ⟨now, operation_id, operation, middle, environment, _, hruns, _, rfl⟩ := h
  exact run_command_status hruns release_id

/-- A new command keeps the rows valid. -/
theorem ReleaseTables.Valid.advances (hvalid : tables.Valid sha256 scope)
    (h : tables.Advances sha256 scope command tables') : tables'.Valid sha256 scope := by
  obtain ⟨now, operation_id, operation, middle, environment, hcommand, hruns, hmiddle, rfl⟩ := h
  have hdefault : tables.default_channel = ReleaseTables.default_channel
      { tables with environment := some (tables.environment.getD ⟨0, none⟩) } := by
    unfold ReleaseTables.default_channel
    cases tables.environment <;> rfl
  have hstart : ReleaseTables.Consistent sha256 scope []
      { tables with environment := some (tables.environment.getD ⟨0, none⟩) } :=
    ⟨hvalid.consistent.active, hdefault ▸ hvalid.consistent.default_channel, hvalid.consistent.decodes⟩
  have hconsistent := hstart.run_command hcommand hruns
  refine ⟨⟨hconsistent.active, fun channel hchannel => ?_, hconsistent.decodes⟩, fun environment' h' => ?_, nofun⟩
  · refine hconsistent.default_channel channel ?_
    rw [ReleaseTables.default_channel, hmiddle]
    exact hchannel
  · cases h'
    exact Nat.succ_pos _

end

/-- One call of the repository. -/
structure Call where
  world : ReleaseWorld
  operation_id : OperationId
  command : ReleaseCommand

def Call.apply (sha256 : List UInt8 → Sha256Digest) (scope : EnvironmentScope) (tables : ReleaseTables) (call : Call) :
    Except ReleaseError ReleaseCommandResult × ReleaseTables :=
  tables.apply sha256 scope call.world call.operation_id call.command

def Call.step (sha256 : List UInt8 → Sha256Digest) (scope : EnvironmentScope) (tables : ReleaseTables) (call : Call) :
    ReleaseTables :=
  (call.apply sha256 scope tables).2

section
variable {sha256 : List UInt8 → Sha256Digest} {scope : EnvironmentScope} {tables : ReleaseTables}

theorem Call.step_cases (sha256 : List UInt8 → Sha256Digest) (scope : EnvironmentScope) (tables : ReleaseTables)
    (call : Call) : call.step sha256 scope tables = tables ∨
      tables.Advances sha256 scope call.command (call.step sha256 scope tables) :=
  (apply_cases sha256 scope call.world call.operation_id call.command tables).imp And.left And.left

theorem ReleaseTables.Valid.step (h : tables.Valid sha256 scope) (call : Call) :
    (call.step sha256 scope tables).Valid sha256 scope := by
  rcases call.step_cases sha256 scope tables with hsame | hadvances
  · rwa [hsame]
  · exact h.advances hadvances

theorem ReleaseTables.Valid.run (h : tables.Valid sha256 scope) (calls : List Call) :
    (machine.run (Call.step sha256 scope) tables calls).Valid sha256 scope := by
  induction calls generalizing tables with
  | nil => exact h
  | cons call calls ih => exact ih (h.step call)

theorem finished_run {release_id : ReleaseId} (h : Finished (tables.status release_id)) (calls : List Call) :
    Finished ((machine.run (Call.step sha256 scope) tables calls).status release_id) := by
  induction calls generalizing tables with
  | nil => exact h
  | cons call calls ih =>
    refine ih ?_
    rcases call.step_cases sha256 scope tables with hsame | hadvances
    · rwa [hsame]
    · exact (hadvances.status release_id).finished h

end

/-- After every sequence of calls the rows are empty or read as a valid snapshot that says what they say. One more call
changes nothing when it fails or is replayed, and takes the next serving revision when it is new; when the outcome of
its `COMMIT` is unknown it did the one or the other. A retired Release is never invocable again. -/
theorem repository_always_serves (sha256 : List UInt8 → Sha256Digest) (scope : EnvironmentScope) (calls : List Call)
    (call : Call) :
    let tables := machine.run (Call.step sha256 scope) .empty calls
    let result := (call.apply sha256 scope tables).1
    let tables' := (call.apply sha256 scope tables).2
    (tables = .empty ∨ ∃ snapshot, tables.snapshot sha256 scope = .ok snapshot ∧ tables.Serves snapshot) ∧
    (∀ error, result = .error error → error ≠ .ResultUncertain → tables' = tables) ∧
    (result = .error .ResultUncertain →
      tables' = tables ∨ tables'.serving_revision = tables.serving_revision + 1) ∧
    (∀ outcome, result = .ok outcome → outcome.replayed = true → tables' = tables) ∧
    (∀ outcome, result = .ok outcome → outcome.replayed = false →
      outcome.serving_revision = tables.serving_revision + 1 ∧
      tables'.serving_revision = tables.serving_revision + 1) ∧
    (∀ release_id, tables.status release_id = some .Retired → ∀ later : List Call, ∃ status,
      (machine.run (Call.step sha256 scope) tables later).status release_id = some status ∧
      status.explicitly_invocable = false) := by
  intro tables result tables'
  have hcases : (tables' = tables ∧ ∀ outcome, result = .ok outcome → outcome.replayed = true) ∨
      tables.Advances sha256 scope call.command tables' ∧
        (result = .ok ⟨tables.serving_revision + 1, false⟩ ∨ result = .error .ResultUncertain) :=
    apply_cases sha256 scope call.world call.operation_id call.command tables
  refine ⟨(ReleaseTables.empty_valid.run calls).snapshot, fun error herror hcertain => ?_, fun herror => ?_,
    fun outcome houtcome hreplayed => ?_, fun outcome houtcome hnew => ?_, fun release_id hretired later => ?_⟩
  · rcases hcases with ⟨hsame, _⟩ | ⟨_, hok | huncertain⟩
    · exact hsame
    · cases herror.symm.trans hok
    · exact absurd (Except.error.inj (herror.symm.trans huncertain)) hcertain
  · rcases hcases with ⟨hsame, _⟩ | ⟨hadvances, _⟩
    · exact .inl hsame
    · exact .inr hadvances.serving_revision
  · rcases hcases with ⟨hsame, _⟩ | ⟨_, hok | huncertain⟩
    · exact hsame
    · cases houtcome.symm.trans hok
      cases hreplayed
    · cases houtcome.symm.trans huncertain
  · rcases hcases with ⟨_, hreplays⟩ | ⟨hadvances, hok | huncertain⟩
    · rw [hreplays outcome houtcome] at hnew
      cases hnew
    · cases houtcome.symm.trans hok
      exact ⟨rfl, hadvances.serving_revision⟩
    · cases houtcome.symm.trans huncertain
  · rcases finished_run (.inl hretired) later with hstatus | hstatus
    · exact ⟨_, hstatus, rfl⟩
    · exact ⟨_, hstatus, rfl⟩

end runku.release_repository
