import Runku.DataSqlite.Journal
import Runku.DataSqlite.Schedule
import Runku.Lib.LeasedJob

namespace runku.data_sqlite

open runku.core runku.data transaction leased_job

inductive ScheduleAction
  | Commit (world : CommitWorld) (batch : CommitBatch)
  | Claim (world : CommitWorld) (request : ClaimRequest)
  | Complete (world : CommitWorld) (request : CompleteRequest)
  | Cancel (world : CommitWorld) (id : ScheduledInvocationId)

section
variable (sha256 : List UInt8 → Sha256Digest)

/-- What a claim made durable, also when its `COMMIT` was reported as failed. -/
def Environment.durable_claim_due (world : CommitWorld) (request : ClaimRequest) (env : Environment) :
    Option (List ScheduledInvocationRecord × Environment) :=
  if request.limit = 0 ∨ request.limit > 100 ∨ request.lease_until ≤ request.now then none
  else committed (claim_due_body request) world.faults world.outcome env

def Environment.durable_complete (world : CommitWorld) (request : CompleteRequest) (env : Environment) :
    Option (Unit × Environment) :=
  committed (complete_scheduled_body world.clock request) world.faults world.outcome env

abbrev ScheduleLog := List (ScheduledInvocationId × Entry WorkerId)

/-- The durable claims and completions of an action. -/
def ScheduleAction.record (env : Environment) : ScheduleAction → ScheduleLog
  | .Commit _ _ | .Cancel _ _ => []
  | .Claim world request =>
    match env.durable_claim_due world request with
    | some (records, _) => records.map fun record => (record.id, .Claimed request.worker_id record.lease_generation)
    | none => []
  | .Complete world request =>
    match env.durable_complete world request with
    | some _ => [(request.id, .Completed request.worker_id request.lease_generation)]
    | none => []

def Environment.schedule_act (env : Environment) : ScheduleAction → Environment
  | .Commit world batch => (env.commit sha256 world batch).2
  | .Claim world request => (env.claim_due_scheduled world request).2
  | .Complete world request => (env.complete_scheduled world request).2
  | .Cancel world id => (env.cancel_scheduled world id).2

/-- An Environment with the history of its Scheduled Invocations, newest entry first. -/
structure Scheduler where
  env : Environment
  log : ScheduleLog

def Scheduler.step (s : Scheduler) (action : ScheduleAction) : Scheduler :=
  ⟨s.env.schedule_act sha256 action, action.record s.env ++ s.log⟩

def Scheduler.run (s : Scheduler) (actions : List ScheduleAction) : Scheduler :=
  actions.foldl (Scheduler.step sha256) s

def Scheduler.new : Scheduler := ⟨.empty, []⟩

end

/-- What happened to one Scheduled Invocation. -/
def entries_of (id : ScheduledInvocationId) (log : ScheduleLog) : List (Entry WorkerId) :=
  log.filterMap fun entry => if entry.1 = id then some entry.2 else none

def ScheduledRow.job (row : ScheduledRow) : Job WorkerId where
  status := match row.status, row.lease_owner with
    | .Pending, _ => .Pending
    | .Running, some owner => .Running owner
    | _, _ => .Done
  generation := row.lease_generation

def Scheduler.state (s : Scheduler) (id : ScheduledInvocationId) : State WorkerId :=
  ⟨(s.env.scheduled_invocations[id]?).map ScheduledRow.job, entries_of id s.log⟩

/-- How an action takes a row from `before` to `after`, and what it adds to its history. -/
inductive RowStep (before after : Option ScheduledRow) : List (Entry WorkerId) → Prop
  | same (h : after = before) : RowStep before after []
  | insert (schedule : ScheduledInvocationInsert) (sequence : Nat) (now : Int64) (hbefore : before = none)
      (hafter : after = some (scheduled_row schedule sequence now)) : RowStep before after []
  | claim (row row' : ScheduledRow) (request : ClaimRequest) (hbefore : before = some row) (hdue : row.due request.now)
      (hclaim : row.claim request = .ok row') (hafter : after = some row') :
      RowStep before after [.Claimed request.worker_id row'.lease_generation]
  | complete (row : ScheduledRow) (request : CompleteRequest) (now : Int64) (hbefore : before = some row)
      (hholds : request.Holds row) (hafter : after = some (row.complete now request.completion)) :
      RowStep before after [.Completed request.worker_id request.lease_generation]
  | cancel (row : ScheduledRow) (now : Int64) (hbefore : before = some row) (hpending : row.status = .Pending)
      (hafter : after = some (row.cancel now)) : RowStep before after []

section
variable {env env' : Environment} {id : ScheduledInvocationId}

theorem entries_of_append (id : ScheduledInvocationId) (log log' : ScheduleLog) :
    entries_of id (log ++ log') = entries_of id log ++ entries_of id log' := List.filterMap_append

theorem mem_entries_of {log : ScheduleLog} {entry : Entry WorkerId} : entry ∈ entries_of id log ↔ (id, entry) ∈ log := by
  simp only [entries_of, List.mem_filterMap, Option.ite_none_right_eq_some, Option.some.injEq, Prod.exists]
  constructor
  · rintro ⟨key, found, hmem, rfl, rfl⟩
    exact hmem
  · intro hmem
    exact ⟨id, entry, hmem, rfl, rfl⟩

/-- The entry of one record among those of distinct records. -/
theorem entries_of_map {records : List ScheduledInvocationRecord} {entry : ScheduledInvocationRecord → Entry WorkerId}
    (hnodup : (records.map ScheduledInvocationRecord.id).Nodup) : (id ∉ records.map ScheduledInvocationRecord.id ∧
      entries_of id (records.map fun record => (record.id, entry record)) = []) ∨ ∃ record ∈ records, record.id = id ∧
      entries_of id (records.map fun record => (record.id, entry record)) = [entry record] := by
  induction records with
  | nil => exact .inl ⟨List.not_mem_nil, rfl⟩
  | cons record records ih =>
    rw [List.map_cons, List.nodup_cons] at hnodup
    by_cases hid : record.id = id
    · refine .inr ⟨record, List.mem_cons_self, hid, ?_⟩
      rcases ih hnodup.2 with ⟨_, hnone⟩ | ⟨other, hother, hsame, _⟩
      · rw [List.map_cons, entries_of, List.filterMap_cons_some (by rw [if_pos hid])]
        exact congrArg (entry record :: ·) hnone
      · exact absurd (List.mem_map.mpr ⟨other, hother, hsame.trans hid.symm⟩) hnodup.1
    · have hskip : entries_of id ((record :: records).map fun record => (record.id, entry record)) =
          entries_of id (records.map fun record => (record.id, entry record)) := by
        rw [List.map_cons, entries_of, List.filterMap_cons_none (by rw [if_neg hid])]
        rfl
      rw [hskip]
      rcases ih hnodup.2 with ⟨hnotin, hnone⟩ | ⟨other, hother, hsame, hone⟩
      · refine .inl ⟨?_, hnone⟩
        rw [List.map_cons, List.mem_cons, not_or]
        exact ⟨Ne.symm hid, hnotin⟩
      · exact .inr ⟨other, List.mem_cons_of_mem record hother, hsame, hone⟩

theorem claim_due_scheduled_snd (world : CommitWorld) (request : ClaimRequest) (env : Environment) :
    (env.claim_due_scheduled world request).2 = ((env.durable_claim_due world request).map Prod.snd).getD env := by
  unfold Environment.claim_due_scheduled Environment.durable_claim_due
  split
  · rfl
  · exact transact_snd _ _ _ _

theorem runs_of_durable_claim_due {world : CommitWorld} {request : ClaimRequest}
    {records : List ScheduledInvocationRecord} (h : env.durable_claim_due world request = some (records, env')) :
    Runs (claim_due_body request) env records env' := by
  unfold Environment.durable_claim_due at h
  split at h
  · cases h
  · exact runs_of_committed h

theorem claim_rowStep (world : CommitWorld) (request : ClaimRequest) (env : Environment) (id : ScheduledInvocationId) :
    RowStep env.scheduled_invocations[id]? (env.claim_due_scheduled world request).2.scheduled_invocations[id]?
      (entries_of id (ScheduleAction.record env (.Claim world request))) := by
  rw [claim_due_scheduled_snd, ScheduleAction.record]
  cases hdurable : env.durable_claim_due world request with
  | none => exact .same rfl
  | some claimed =>
    obtain ⟨records, env'⟩ := claimed
    obtain ⟨hids, hclaims, hothers⟩ := claim_due_runs (runs_of_durable_claim_due hdurable)
    dsimp only [Option.map_some, Option.getD_some]
    rcases @entries_of_map id records (fun record => .Claimed request.worker_id record.lease_generation)
      (hids ▸ due_ids_nodup _ _ _) with ⟨hnotin, hnone⟩ | ⟨record, hrecord, rfl, hone⟩
    · rw [hnone]
      exact .same (hothers id (hids ▸ hnotin))
    · rw [hone]
      obtain ⟨row, row', hrow, hclaim, hrow', hgeneration⟩ := (hclaims record hrecord).claimed
      obtain ⟨due, hdue, hisdue⟩ := mem_due_ids (hids ▸ List.mem_map_of_mem hrecord)
      cases hrow.symm.trans hdue
      rw [hgeneration]
      exact .claim row row' request hrow hisdue hclaim hrow'

theorem complete_rowStep (world : CommitWorld) (request : CompleteRequest) (env : Environment)
    (id : ScheduledInvocationId) :
    RowStep env.scheduled_invocations[id]? (env.complete_scheduled world request).2.scheduled_invocations[id]?
      (entries_of id (ScheduleAction.record env (.Complete world request))) := by
  rw [Environment.complete_scheduled, transact_snd, ScheduleAction.record, ← Environment.durable_complete]
  cases hdurable : env.durable_complete world request with
  | none => exact .same rfl
  | some completed =>
    obtain ⟨_, env'⟩ := completed
    obtain ⟨now, row, hrow, hholds, rfl⟩ := complete_scheduled_runs (runs_of_committed hdurable)
    dsimp only [Option.map_some, Option.getD_some]
    rw [put_schedule_getElem?]
    by_cases hid : request.id = id
    · subst hid
      rw [if_pos rfl, entries_of, List.filterMap_cons_some (by rw [if_pos rfl])]
      exact .complete row request now hrow hholds rfl
    · rw [if_neg hid, entries_of, List.filterMap_cons_none (by rw [if_neg hid])]
      exact .same rfl

theorem cancel_rowStep (world : CommitWorld) (id key : ScheduledInvocationId) (env : Environment) :
    RowStep env.scheduled_invocations[key]? (env.cancel_scheduled world id).2.scheduled_invocations[key]? [] := by
  rw [Environment.cancel_scheduled, transact_snd]
  cases hdurable : committed (cancel_scheduled_body world.clock id) world.faults world.outcome env with
  | none => exact .same rfl
  | some cancelled =>
    rcases cancel_scheduled_runs (runs_of_committed hdurable) with hsame | ⟨now, row, hrow, hpending, hput⟩
    · rw [Option.map_some, Option.getD_some, hsame]
      exact .same rfl
    · rw [Option.map_some, Option.getD_some, hput, put_schedule_getElem?]
      by_cases hid : id = key
      · subst hid
        rw [if_pos rfl]
        exact .cancel row now hrow hpending rfl
      · rw [if_neg hid]
        exact .same rfl

theorem commit_rowStep (sha256 : List UInt8 → Sha256Digest) (world : CommitWorld) (batch : CommitBatch)
    (env : Environment) (id : ScheduledInvocationId) :
    RowStep env.scheduled_invocations[id]? (env.commit sha256 world batch).2.scheduled_invocations[id]? [] := by
  rcases commit_state sha256 world batch env with heq | ⟨digest, now, _, _, happlied⟩
  · rw [heq]
    exact .same rfl
  · by_cases hmem : id ∈ batch.schedules.map ScheduledInvocationInsert.id
    · obtain ⟨schedule, hschedule, rfl⟩ := List.mem_map.mp hmem
      obtain ⟨hbefore, hafter⟩ := happlied.schedule schedule hschedule
      exact .insert schedule _ now hbefore hafter
    · exact .same (happlied.other_schedule id hmem)

/-- Every action is one step for every row. -/
theorem step_rowStep (sha256 : List UInt8 → Sha256Digest) (s : Scheduler) (action : ScheduleAction)
    (id : ScheduledInvocationId) :
    RowStep s.env.scheduled_invocations[id]? (s.step sha256 action).env.scheduled_invocations[id]?
      (entries_of id (action.record s.env)) := by
  cases action with
  | Commit world batch => exact commit_rowStep sha256 world batch s.env id
  | Claim world request => exact claim_rowStep world request s.env id
  | Complete world request => exact complete_rowStep world request s.env id
  | Cancel world key => exact cancel_rowStep world key id s.env

end

/-- A row is running exactly while it is leased, and counts its claims twice. -/
structure ScheduledRow.Sound (row : ScheduledRow) : Prop where
  leased : row.status = .Running ↔ row.lease_owner.isSome ∧ row.lease_until_micros.isSome
  attempts : row.attempts = row.lease_generation

section
variable {before after : Option ScheduledRow} {entries : List (Entry WorkerId)}

theorem complete_fields (row : ScheduledRow) (now : Int64) (completion : ScheduleCompletion) :
    (row.complete now completion).lease_generation = row.lease_generation ∧
      (row.complete now completion).attempts = row.attempts ∧ (row.complete now completion).lease_owner = none ∧
      (row.complete now completion).status ≠ .Running := by
  cases completion <;> exact ⟨rfl, rfl, rfl, nofun⟩

/-- Every step keeps a row sound. -/
theorem RowStep.sound (h : RowStep before after entries) (hbefore : ∀ row, before = some row → row.Sound) :
    ∀ row, after = some row → row.Sound := by
  intro row' hrow'
  cases h with
  | same heq => exact hbefore row' (heq ▸ hrow')
  | insert schedule sequence now _ hafter =>
    cases hafter.symm.trans hrow'
    exact ⟨⟨nofun, nofun⟩, rfl⟩
  | claim row claimed request hrow _ hclaim hafter =>
    cases hafter.symm.trans hrow'
    rw [claim_eq_ok hclaim]
    exact ⟨⟨fun _ => ⟨rfl, rfl⟩, fun _ => rfl⟩, congrArg (· + 1) (hbefore row hrow).attempts⟩
  | complete row request now hrow _ hafter =>
    cases hafter.symm.trans hrow'
    obtain ⟨hgeneration, hattempts, howner, hstatus⟩ := complete_fields row now request.completion
    refine ⟨⟨fun hrunning => absurd hrunning hstatus, fun hleased => ?_⟩, ?_⟩
    · rw [howner] at hleased
      cases hleased.1
    · rw [hgeneration, hattempts]
      exact (hbefore row hrow).attempts
  | cancel row now hrow hpending hafter =>
    cases hafter.symm.trans hrow'
    refine ⟨⟨nofun, fun hleased => ?_⟩, (hbefore row hrow).attempts⟩
    have hrunning : row.status = .Running := (hbefore row hrow).leased.mpr hleased
    cases hpending.symm.trans hrunning

theorem job_done_of_complete (row : ScheduledRow) (now : Int64) (completion : ScheduleCompletion) :
    ∀ owner, (row.complete now completion).job.status ≠ .Running owner := by
  cases completion <;> exact nofun

/-- A step of a row is one step of its job, or none. -/
theorem RowStep.step (h : RowStep before after entries) (hbefore : ∀ row, before = some row → row.Sound)
    (log : List (Entry WorkerId)) :
    (⟨after.map ScheduledRow.job, entries ++ log⟩ : State WorkerId) = ⟨before.map ScheduledRow.job, log⟩ ∨
      Step ⟨before.map ScheduledRow.job, log⟩ ⟨after.map ScheduledRow.job, entries ++ log⟩ := by
  cases h with
  | same heq => exact .inl (by rw [heq]; rfl)
  | insert schedule sequence now hnone hafter =>
    rw [hnone, hafter]
    exact .inr .create
  | claim row row' request hrow hdue hclaim hafter =>
    have hopen : row.job.status ≠ .Done := by
      simp only [ScheduledRow.due, Bool.and_eq_true, Bool.or_eq_true, decide_eq_true_eq] at hdue
      rcases hdue.2 with hpending | ⟨hrunning, _⟩
      · simp [ScheduledRow.job, hpending]
      · obtain ⟨owner, howner⟩ := Option.isSome_iff_exists.mp ((hbefore row hrow).leased.mp hrunning).1
        simp [ScheduledRow.job, hrunning, howner]
    rw [hrow, hafter, claim_eq_ok hclaim]
    exact .inr (.claim request.worker_id hopen)
  | complete row request now hrow hholds hafter =>
    obtain ⟨hrunning, howner, hgeneration⟩ := hholds
    have hjob : row.job = ⟨.Running request.worker_id, request.lease_generation⟩ := by
      simp [ScheduledRow.job, hrunning, howner, hgeneration]
    have hjob' : (row.complete now request.completion).job =
        ⟨(row.complete now request.completion).job.status, request.lease_generation⟩ := by
      rw [← hgeneration, ← (complete_fields row now request.completion).1]
      rfl
    rw [hrow, hafter, Option.map_some, Option.map_some, hjob, hjob']
    exact .inr (.complete _ (job_done_of_complete row now request.completion))
  | cancel row now hrow hpending hafter =>
    have hjob : row.job = ⟨.Pending, row.lease_generation⟩ := by simp [ScheduledRow.job, hpending]
    rw [hrow, hafter, Option.map_some, Option.map_some, hjob]
    exact .inr .cancel

end

/-- Every row is sound, and its history is the one of a fenced job. -/
structure Scheduler.Sound (s : Scheduler) : Prop where
  row : ∀ (id : ScheduledInvocationId) row, s.env.scheduled_invocations[id]? = some row → row.Sound
  fenced : ∀ id, leased_job.Fenced (s.state id)

section
variable {sha256 : List UInt8 → Sha256Digest} {s : Scheduler}

theorem Scheduler.Sound.step (h : s.Sound) (action : ScheduleAction) : (s.step sha256 action).Sound := by
  refine ⟨fun id => (step_rowStep sha256 s action id).sound (h.row id), fun id => ?_⟩
  have hstate : (s.step sha256 action).state id = ⟨((s.step sha256 action).env.scheduled_invocations[id]?).map
      ScheduledRow.job, entries_of id (action.record s.env) ++ entries_of id s.log⟩ := by
    rw [Scheduler.state, ← entries_of_append]
    rfl
  rw [hstate]
  rcases (step_rowStep sha256 s action id).step (h.row id) (entries_of id s.log) with hsame | hstep
  · rw [hsame]
    exact h.fenced id
  · exact (h.fenced id).step hstep

theorem Scheduler.Sound.run (h : s.Sound) (actions : List ScheduleAction) : (s.run sha256 actions).Sound := by
  induction actions generalizing s with
  | nil => exact h
  | cons action actions ih => exact ih (h.step action)

theorem new_sound : Scheduler.new.Sound where
  row id row hrow := by simp [Scheduler.new, Environment.empty] at hrow
  fenced id := by
    have hstate : Scheduler.new.state id = ⟨none, []⟩ := by
      simp [Scheduler.state, Scheduler.new, Environment.empty, entries_of]
    rw [hstate]
    exact new_fenced

end

/-- The guarantees about the Scheduled Invocations of an Environment. -/
structure Lifecycle (sha256 : List UInt8 → Sha256Digest) (s : Scheduler) : Prop where
  /-- A record that succeeded, failed or was cancelled never changes again. -/
  terminal : ∀ (id : ScheduledInvocationId) row, s.env.scheduled_invocations[id]? = some row →
    row.status.is_terminal → ∀ later, (s.run sha256 later).env.scheduled_invocations[id]? = some row
  leased : ∀ (id : ScheduledInvocationId) row, s.env.scheduled_invocations[id]? = some row →
    (row.status = .Running ↔ row.lease_owner.isSome ∧ row.lease_until_micros.isSome)
  /-- Both counters are the number of claims. -/
  counted : ∀ (id : ScheduledInvocationId) row, s.env.scheduled_invocations[id]? = some row →
    row.lease_generation = (claims (entries_of id s.log)).length ∧
      row.attempts = (claims (entries_of id s.log)).length
  /-- One completion for each generation, by the one worker that claimed it. -/
  completed_once : ∀ id, (completions (entries_of id s.log)).Nodup
  completed_by : ∀ id worker_id generation, (id, .Completed worker_id generation) ∈ s.log →
    (id, .Claimed worker_id generation) ∈ s.log ∧
      ∀ other, (id, .Claimed other generation) ∈ s.log → other = worker_id
  /-- A completion that returns success is one of these. -/
  completed : ∀ world request, (s.env.complete_scheduled world request).1 = .ok () →
    (request.id, .Completed request.worker_id request.lease_generation) ∈
      (s.step sha256 (.Complete world request)).log
  /-- A record is only claimed when it is due and free. -/
  claimed_due : ∀ world request records env', s.env.durable_claim_due world request = some (records, env') →
    ∀ record ∈ records, ∃ row, s.env.scheduled_invocations[record.id]? = some row ∧
      row.execute_at_micros ≤ request.now ∧ (row.status = .Pending ∨
        row.status = .Running ∧ ∃ lease_until, row.lease_until_micros = some lease_until ∧ lease_until ≤ request.now)
  /-- What an action cancels was pending before it. -/
  cancelled_pending : ∀ action (id : ScheduledInvocationId) row',
    (s.step sha256 action).env.scheduled_invocations[id]? = some row' → row'.status = .Cancelled →
    ∃ row, s.env.scheduled_invocations[id]? = some row ∧ (row = row' ∨ row.status = .Pending)

section
variable {sha256 : List UInt8 → Sha256Digest} {s : Scheduler}

/-- A row that is done or cancelled stays so. -/
theorem RowStep.terminal {before after : Option ScheduledRow} {entries : List (Entry WorkerId)} {row : ScheduledRow}
    (h : RowStep before after entries) (hrow : before = some row) (hterminal : row.status.is_terminal) :
    after = some row := by
  cases h with
  | same heq => exact heq.trans hrow
  | insert _ _ _ hnone => cases hnone.symm.trans hrow
  | claim row' _ request hrow' hdue =>
    cases hrow.symm.trans hrow'
    simp only [ScheduledRow.due, Bool.and_eq_true, Bool.or_eq_true, decide_eq_true_eq] at hdue
    rcases hdue.2 with hpending | ⟨hrunning, _⟩
    · rw [hpending] at hterminal
      cases hterminal
    · rw [hrunning] at hterminal
      cases hterminal
  | complete row' request now hrow' hholds =>
    cases hrow.symm.trans hrow'
    rw [hholds.1] at hterminal
    cases hterminal
  | cancel row' now hrow' hpending =>
    cases hrow.symm.trans hrow'
    rw [hpending] at hterminal
    cases hterminal

theorem run_terminal {id : ScheduledInvocationId} {row : ScheduledRow}
    (hrow : s.env.scheduled_invocations[id]? = some row) (hterminal : row.status.is_terminal)
    (later : List ScheduleAction) : (s.run sha256 later).env.scheduled_invocations[id]? = some row := by
  induction later generalizing s with
  | nil => exact hrow
  | cons action later ih => exact ih ((step_rowStep sha256 s action id).terminal hrow hterminal)

theorem RowStep.cancelled {before after : Option ScheduledRow} {entries : List (Entry WorkerId)} {row' : ScheduledRow}
    (h : RowStep before after entries) (hrow' : after = some row') (hcancelled : row'.status = .Cancelled) :
    ∃ row, before = some row ∧ (row = row' ∨ row.status = .Pending) := by
  cases h with
  | same heq => exact ⟨row', heq ▸ hrow', .inl rfl⟩
  | insert _ _ _ _ hafter =>
    cases hafter.symm.trans hrow'
    cases hcancelled
  | claim row claimed request _ _ hclaim hafter =>
    cases hafter.symm.trans hrow'
    rw [claim_eq_ok hclaim] at hcancelled
    cases hcancelled
  | complete row request now _ _ hafter =>
    cases hafter.symm.trans hrow'
    cases hcompletion : request.completion <;> rw [hcompletion] at hcancelled <;> cases hcancelled
  | cancel row now hrow hpending => exact ⟨row, hrow, .inr hpending⟩

theorem Scheduler.Sound.lifecycle (h : s.Sound) : Lifecycle sha256 s where
  terminal _ _ hrow hterminal later := run_terminal hrow hterminal later
  leased id row hrow := (h.row id row hrow).leased
  counted id row hrow := by
    have hcount : (claims (entries_of id s.log)).length = row.job.generation := by
      refine (h.fenced id).counted row.job ?_
      rw [Scheduler.state, hrow, Option.map_some]
    rw [(h.row id row hrow).attempts, hcount]
    exact ⟨rfl, rfl⟩
  completed_once id := (h.fenced id).completions_nodup
  completed_by id worker_id generation hmem := by
    have hclaimed := (h.fenced id).completed worker_id generation (mem_entries_of.mpr hmem)
    exact ⟨mem_entries_of.mp hclaimed, fun other hother =>
      claimant_unique (h.fenced id).claims_nodup (mem_entries_of.mpr hother) hclaimed⟩
  completed world request hok := by
    have hdurable : ∃ completed, s.env.durable_complete world request = some completed :=
      ⟨_, committed_of_transact_eq_ok (Prod.ext hok rfl)⟩
    obtain ⟨completed, hcompleted⟩ := hdurable
    simp only [Scheduler.step, ScheduleAction.record, hcompleted]
    exact List.mem_cons_self
  claimed_due world request records env' hdurable record hrecord := by
    obtain ⟨hids, _, _⟩ := claim_due_runs (runs_of_durable_claim_due hdurable)
    obtain ⟨row, hrow, hdue⟩ := mem_due_ids (hids ▸ List.mem_map_of_mem hrecord)
    simp only [ScheduledRow.due, Bool.and_eq_true, Bool.or_eq_true, decide_eq_true_eq, Option.any_eq_true] at hdue
    exact ⟨row, hrow, hdue⟩
  cancelled_pending action id row' hrow' hcancelled := (step_rowStep sha256 s action id).cancelled hrow' hcancelled

end

/-- Whatever workers, commits and cancellations do, the lifecycle of every Scheduled Invocation holds. -/
theorem run_lifecycle (sha256 : List UInt8 → Sha256Digest) (actions : List ScheduleAction) :
    Lifecycle sha256 (Scheduler.new.run sha256 actions) :=
  (new_sound.run actions).lifecycle

end runku.data_sqlite
