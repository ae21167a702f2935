import Runku.DataSqlite.Journal
import Runku.DataSqlite.Outbox

namespace runku.data_sqlite

open runku.core runku.data transaction leased_cursor

inductive OutboxAction
  | Commit (world : CommitWorld) (batch : CommitBatch)
  | Claim (consumer : OutboxConsumerName) (world : OutboxWorld) (request : ClaimRequest)
  | Ack (consumer : OutboxConsumerName) (world : OutboxWorld) (request : AckRequest)

def Environment.act (sha256 : List UInt8 → Sha256Digest) (env : Environment) : OutboxAction → Environment
  | .Commit world batch => (env.commit sha256 world batch).2
  | .Claim consumer world request => (env.claim_outbox consumer world request).2
  | .Ack consumer world request => (env.ack_outbox consumer world request).2

/-- What a claim made durable, also when its `COMMIT` was reported as failed. -/
def Environment.durable_claim (consumer : OutboxConsumerName) (world : OutboxWorld) (request : ClaimRequest)
    (env : Environment) : Option (ClaimedOutboxBatch × Environment) :=
  if request.limit = 0 ∨ request.limit > 1000 ∨ request.lease_until ≤ request.now then none
  else committed (claim_outbox_body consumer request) world.faults world.outcome env

/-- What an acknowledgement made durable, also when its `COMMIT` was reported as failed. -/
def Environment.durable_ack (consumer : OutboxConsumerName) (world : OutboxWorld) (request : AckRequest)
    (env : Environment) : Option (Unit × Environment) :=
  if request.lease_generation = 0 ∨ request.through.commit_sequence = 0 then none
  else committed (ack_outbox_body consumer world.clock request) world.faults world.outcome env

abbrev OutboxLog := List (Entry OutboxEventRecord OutboxCursor WorkerId)

/-- What an action adds to the log of a consumer: its durable claims and acknowledgements. -/
def OutboxAction.record (consumer : OutboxConsumerName) (env : Environment) : OutboxAction → OutboxLog
  | .Commit _ _ => []
  | .Claim name world request =>
    if name = consumer then
      match env.durable_claim name world request with
      | some (batch, _) => [.Claimed request.worker_id batch.lease_generation batch.events]
      | none => []
    else []
  | .Ack name world request =>
    if name = consumer then
      match env.durable_ack name world request with
      | some _ => [.Acked request.worker_id request.lease_generation request.through]
      | none => []
    else []

/-- An Environment with the history of one of its consumers, newest entry first. -/
structure Delivery where
  env : Environment
  log : OutboxLog

def Delivery.step (sha256 : List UInt8 → Sha256Digest) (consumer : OutboxConsumerName) (d : Delivery)
    (action : OutboxAction) : Delivery :=
  ⟨d.env.act sha256 action, action.record consumer d.env ++ d.log⟩

/-- The actions of a run, from the empty Environment on. -/
def Delivery.run (sha256 : List UInt8 → Sha256Digest) (consumer : OutboxConsumerName)
    (actions : List OutboxAction) : Delivery :=
  actions.foldl (Delivery.step sha256 consumer) ⟨.empty, []⟩

/-- The durable cursor of a consumer; one that never claimed has none. -/
def Environment.consumer_cursor (env : Environment) (consumer : OutboxConsumerName) : Option OutboxCursor :=
  (env.outbox_consumers[consumer]?).bind OutboxConsumerRow.cursor

/-- Who may acknowledge, under which generation, and up to where. -/
def OutboxConsumerRow.grant (row : OutboxConsumerRow) : Option (WorkerId × Nat × OutboxCursor) :=
  match row.lease, row.claimed with
  | some (lease_owner, _), some claimed => some (lease_owner, row.lease_generation, claimed)
  | _, _ => none

/-- The leased cursor that the Environment stores for a consumer. -/
def Delivery.state (consumer : OutboxConsumerName) (d : Delivery) :
    State OutboxEventRecord OutboxCursor WorkerId where
  published := { event | event ∈ d.env.outbox_events }
  cursor := position (d.env.consumer_cursor consumer)
  lease := (d.env.outbox_consumers[consumer]?).bind OutboxConsumerRow.grant
  generation := ((d.env.outbox_consumers[consumer]?).map OutboxConsumerRow.lease_generation).getD 0
  log := d.log

/-- Every event carries the sequence of a commit that happened. -/
def Environment.Numbered (env : Environment) : Prop :=
  ∀ event ∈ env.outbox_events, 0 < event.commit_sequence ∧ event.commit_sequence ≤ env.sequence

/-- One action refines one step of the leased cursor, or none. -/
inductive Refines (consumer : OutboxConsumerName) (d d' : Delivery) : Prop
  | idle (h : d'.state consumer = d.state consumer)
  | step (h : Step OutboxEventRecord.cursor (d.state consumer) (d'.state consumer))

section
variable {consumer name : OutboxConsumerName} {env : Environment}

theorem outbox_events_congr {env env' : Environment} (h : env'.outbox = env.outbox) :
    env'.outbox_events = env.outbox_events := by
  rw [Environment.outbox_events, Environment.outbox_events, h]

theorem put_consumer_getElem? (env : Environment) (consumer name : OutboxConsumerName)
    (row : OutboxConsumerRow) : (env.put_consumer consumer row).outbox_consumers[name]? =
      if consumer = name then some row else env.outbox_consumers[name]? := by
  simp [Environment.put_consumer]

/-- Rows of another consumer do not matter. -/
theorem state_put_other {env' : Environment} {log : OutboxLog} {row : OutboxConsumerRow}
    (hne : name ≠ consumer) (houtbox : env'.outbox = env.outbox)
    (hconsumers : env'.outbox_consumers = env.outbox_consumers) :
    Delivery.state consumer ⟨env'.put_consumer name row, log⟩ = Delivery.state consumer ⟨env, log⟩ := by
  have hrow : (env'.put_consumer name row).outbox_consumers[consumer]? = env.outbox_consumers[consumer]? := by
    rw [put_consumer_getElem?, if_neg hne, hconsumers]
  have hevents : (env'.put_consumer name row).outbox_events = env.outbox_events :=
    outbox_events_congr houtbox
  simp only [Delivery.state, Environment.consumer_cursor, hrow, hevents]

end

section
variable {batch : CommitBatch} {digest : Sha256Digest} {now : Int64} {env env' : Environment}

/-- A commit keeps every event and adds its own under the next sequence. -/
theorem Applied.mem_outbox_events_iff (h : Applied batch digest now env env') {event : OutboxEventRecord} :
    event ∈ env'.outbox_events ↔ event ∈ env.outbox_events ∨
      event.commit_sequence = env.sequence + 1 ∧ ⟨event.event_id, event.payload⟩ ∈ batch.outbox := by
  rw [mem_outbox_events, mem_outbox_events]
  by_cases hmem : event.event_id ∈ batch.outbox.map OutboxAppend.event_id
  · obtain ⟨append, happend, hid⟩ := List.mem_map.mp hmem
    obtain ⟨hbefore, hafter⟩ := h.event append happend
    rw [hid] at hbefore hafter
    constructor
    · rintro ⟨row, hrow, heq⟩
      rw [hafter, Option.some.injEq] at hrow
      subst hrow
      right
      rw [heq, ← hid]
      exact ⟨rfl, happend⟩
    · rintro (⟨row, hrow, _⟩ | ⟨hsequence, hpayload⟩)
      · cases hbefore.symm.trans hrow
      · refine ⟨_, (h.event _ hpayload).2, ?_⟩
        rw [← hsequence]
  · rw [h.other_event _ hmem]
    constructor
    · exact .inl
    · rintro (hrow | ⟨_, hpayload⟩)
      · exact hrow
      · exact absurd (List.mem_map_of_mem hpayload) hmem

theorem Applied.numbered (h : Applied batch digest now env env') (henv : env.Numbered) : env'.Numbered := by
  intro event hevent
  rw [h.sequence_eq]
  rcases h.mem_outbox_events_iff.mp hevent with hold | ⟨hnew, _⟩
  · exact ⟨(henv event hold).1, Nat.le_succ_of_le (henv event hold).2⟩
  · omega

/-- A commit publishes its events beyond all others. -/
theorem Applied.refines (h : Applied batch digest now env env') (henv : env.Numbered)
    (consumer : OutboxConsumerName) (log : OutboxLog) : Refines consumer ⟨env, log⟩ ⟨env', log⟩ := by
  have hstate : Delivery.state consumer ⟨env', log⟩ =
      { Delivery.state consumer ⟨env, log⟩ with published := { event | event ∈ env'.outbox_events } } := by
    simp only [Delivery.state, Environment.consumer_cursor, h.outbox_consumers]
  refine .step (hstate ▸ .publish _ (fun event hevent => h.mem_outbox_events_iff.mpr (.inl hevent)) ?_)
  intro event hevent
  rcases h.mem_outbox_events_iff.mp hevent with hold | ⟨hnew, _⟩
  · exact .inl hold
  · refine .inr fun other hother => OutboxCursor.lt_iff.mpr (.inl ?_)
    exact lt_of_lt_of_eq (Nat.lt_succ_of_le (henv other hother).2) hnew.symm

end

section
variable {consumer : OutboxConsumerName} {env env' : Environment} {log : OutboxLog}

theorem consumer_row_cursor (env : Environment) (consumer : OutboxConsumerName) (now : Int64) :
    (env.consumer_row consumer now).cursor = env.consumer_cursor consumer := by
  unfold Environment.consumer_row Environment.consumer_cursor
  cases env.outbox_consumers[consumer]? <;> rfl

theorem consumer_row_generation (env : Environment) (consumer : OutboxConsumerName) (now : Int64) :
    (env.consumer_row consumer now).lease_generation =
      ((env.outbox_consumers[consumer]?).map OutboxConsumerRow.lease_generation).getD 0 := by
  unfold Environment.consumer_row
  cases env.outbox_consumers[consumer]? <;> rfl

/-- The query of a claim returns the next events after the cursor. -/
theorem next_events_after (henv : env.Numbered) (consumer : OutboxConsumerName) (log : OutboxLog) (limit : Nat) :
    Next OutboxEventRecord.cursor (Delivery.state consumer ⟨env, log⟩)
      (env.events_after (env.consumer_cursor consumer) limit) where
  published event hevent := by
    obtain ⟨hmem, hafter⟩ := mem_events_after hevent
    exact ⟨hmem, (after_cursor_iff (henv event hmem).1).mp hafter⟩
  sorted := (sorted_events_pairwise env _).sublist (List.take_sublist _ _)
  gapless event hmem hlt := mem_events_after_or_lt hmem ((after_cursor_iff (henv event hmem).1).mpr hlt)

theorem grant_claim (row : OutboxConsumerRow) (request : ClaimRequest) (events : List OutboxEventRecord) :
    (row.claim request events).grant =
      events.getLast?.map fun last => (request.worker_id, row.lease_generation + 1, last.cursor) := by
  cases hlast : events.getLast? <;> simp [OutboxConsumerRow.claim, OutboxConsumerRow.grant, hlast]

/-- A claim leases the next events. -/
theorem Claims.refines {request : ClaimRequest} {batch : ClaimedOutboxBatch}
    (h : Claims consumer request env batch env') (henv : env.Numbered) : Refines consumer ⟨env, log⟩
      ⟨env', .Claimed request.worker_id batch.lease_generation batch.events :: log⟩ := by
  have hrow : env'.outbox_consumers[consumer]? =
      some ((env.consumer_row consumer request.now).claim request batch.events) := by
    rw [h.env', put_consumer_getElem?, if_pos rfl]
  have hevents : env'.outbox_events = env.outbox_events := by
    rw [h.env']
    exact outbox_events_congr rfl
  have hnext := next_events_after henv consumer log request.limit
  rw [← consumer_row_cursor env consumer request.now, ← h.events] at hnext
  have hstate : Delivery.state consumer
        ⟨env', .Claimed request.worker_id batch.lease_generation batch.events :: log⟩ =
      { Delivery.state consumer ⟨env, log⟩ with
        lease := batch.events.getLast?.map fun last =>
          (request.worker_id, (Delivery.state consumer ⟨env, log⟩).generation + 1, last.cursor)
        generation := (Delivery.state consumer ⟨env, log⟩).generation + 1
        log := .Claimed request.worker_id ((Delivery.state consumer ⟨env, log⟩).generation + 1)
          batch.events :: log } := by
    have hcursor : env'.consumer_cursor consumer = env.consumer_cursor consumer := by
      rw [← consumer_row_cursor env consumer request.now, Environment.consumer_cursor, hrow]
      rfl
    have hgeneration := consumer_row_generation env consumer request.now
    have hclaim : ((env.consumer_row consumer request.now).claim request batch.events).lease_generation =
        (env.consumer_row consumer request.now).lease_generation + 1 := rfl
    simp only [Delivery.state, hcursor, hrow, hevents, h.lease_generation, Option.bind_some, Option.map_some,
      Option.getD_some, grant_claim, hclaim, hgeneration]
  exact .step (hstate ▸ .claim request.worker_id batch.events hnext)

/-- An acknowledgement needs the lease and moves the cursor to its end. -/
theorem ack_refines (log : OutboxLog) {clock : Except StoreError Int64} {request : AckRequest} {u : Unit}
    (h : Runs (ack_outbox_body consumer clock request) env u env') :
    (Delivery.state consumer ⟨env, log⟩).lease =
        some (request.worker_id, request.lease_generation, request.through) ∧
      Delivery.state consumer
          ⟨env', .Acked request.worker_id request.lease_generation request.through :: log⟩ =
        { Delivery.state consumer ⟨env, log⟩ with
          cursor := request.through
          lease := none
          log := .Acked request.worker_id request.lease_generation request.through :: log } := by
  obtain ⟨now, row, lease_until, hrow, hlease, hgeneration, hclaimed, rfl⟩ := ack_outbox_runs h
  constructor
  · simp [Delivery.state, hrow, OutboxConsumerRow.grant, hlease, hclaimed, hgeneration]
  · let row' : OutboxConsumerRow := ⟨some request.through, none, row.lease_generation, none, now⟩
    have hevents : (env.put_consumer consumer row').outbox_events = env.outbox_events :=
      outbox_events_congr rfl
    have hrow' : (env.put_consumer consumer row').outbox_consumers[consumer]? = some row' := by
      rw [put_consumer_getElem?, if_pos rfl]
    simp [Delivery.state, Environment.consumer_cursor, hevents, hrow', hrow, row',
      OutboxConsumerRow.grant, position]

end

theorem claim_outbox_snd (consumer : OutboxConsumerName) (world : OutboxWorld) (request : ClaimRequest)
    (env : Environment) : (env.claim_outbox consumer world request).2 =
      ((env.durable_claim consumer world request).map Prod.snd).getD env := by
  unfold Environment.claim_outbox Environment.durable_claim
  split
  · rfl
  · exact transact_snd _ _ _ _

theorem ack_outbox_snd (consumer : OutboxConsumerName) (world : OutboxWorld) (request : AckRequest)
    (env : Environment) : (env.ack_outbox consumer world request).2 =
      ((env.durable_ack consumer world request).map Prod.snd).getD env := by
  unfold Environment.ack_outbox Environment.durable_ack
  split
  · rfl
  · exact transact_snd _ _ _ _

variable {consumer : OutboxConsumerName} {world : OutboxWorld} {env env' : Environment}

theorem claims_of_durable {request : ClaimRequest} {batch : ClaimedOutboxBatch}
    (h : env.durable_claim consumer world request = some (batch, env')) : Claims consumer request env batch env' := by
  unfold Environment.durable_claim at h
  split at h
  · cases h
  · exact claim_outbox_runs (runs_of_committed h)

theorem runs_of_durable_ack {request : AckRequest} {u : Unit}
    (h : env.durable_ack consumer world request = some (u, env')) :
    Runs (ack_outbox_body consumer world.clock request) env u env' := by
  unfold Environment.durable_ack at h
  split at h
  · cases h
  · exact runs_of_committed h

/-- An acknowledgement that was answered with success is durable. -/
theorem durable_ack_of_ok {request : AckRequest} (h : (env.ack_outbox consumer world request).1 = .ok ()) :
    ∃ env', env.durable_ack consumer world request = some ((), env') := by
  unfold Environment.ack_outbox at h
  unfold Environment.durable_ack
  split at h
  · cases h
  · rename_i hrequest
    rw [if_neg hrequest]
    exact ⟨_, committed_of_transact_eq_ok (Prod.ext h rfl)⟩

section
variable (sha256 : List UInt8 → Sha256Digest) (consumer : OutboxConsumerName) {d : Delivery}

theorem empty_outbox_events (event : OutboxEventRecord) : event ∉ Environment.empty.outbox_events := by
  have hnil : Environment.empty.outbox_events = [] := by decide
  exact hnil ▸ List.not_mem_nil

theorem empty_numbered : Environment.empty.Numbered := fun event hevent => absurd hevent (empty_outbox_events event)

theorem claim_numbered {name : OutboxConsumerName} {request : ClaimRequest} {env env' : Environment}
    {batch : ClaimedOutboxBatch} (h : Claims name request env batch env') (henv : env.Numbered) : env'.Numbered := by
  rw [h.env']
  exact henv

theorem ack_numbered {name : OutboxConsumerName} {clock : Except StoreError Int64} {request : AckRequest}
    {env env' : Environment} {u : Unit} (h : Runs (ack_outbox_body name clock request) env u env')
    (henv : env.Numbered) : env'.Numbered := by
  obtain ⟨_, _, _, _, _, _, _, rfl⟩ := ack_outbox_runs h
  exact henv

theorem act_numbered {env : Environment} (henv : env.Numbered) (action : OutboxAction) :
    (env.act sha256 action).Numbered := by
  cases action with
  | Commit world batch =>
    rcases commit_state sha256 world batch env with heq | ⟨digest, now, _, _, happlied⟩
    · exact (congrArg Environment.Numbered heq).mpr henv
    · exact happlied.numbered henv
  | Claim name world request =>
    rw [Environment.act, claim_outbox_snd]
    cases hclaim : env.durable_claim name world request with
    | none => exact henv
    | some claim => exact claim_numbered (claims_of_durable hclaim) henv
  | Ack name world request =>
    rw [Environment.act, ack_outbox_snd]
    cases hack : env.durable_ack name world request with
    | none => exact henv
    | some ack => exact ack_numbered (runs_of_durable_ack hack) henv

/-- One step of the store is one step of the leased cursor. -/
theorem step_refines (henv : d.env.Numbered) (action : OutboxAction) :
    Refines consumer d (d.step sha256 consumer action) := by
  cases action with
  | Commit world batch =>
    rcases commit_state sha256 world batch d.env with heq | ⟨digest, now, _, _, happlied⟩
    · refine .idle ?_
      simp only [Delivery.step, Environment.act, OutboxAction.record, List.nil_append, heq]
    · exact happlied.refines henv consumer d.log
  | Claim name world request =>
    rw [Delivery.step, Environment.act, claim_outbox_snd, OutboxAction.record]
    cases hclaim : d.env.durable_claim name world request with
    | none => exact .idle (by simp)
    | some claim =>
      have hclaims := claims_of_durable hclaim
      by_cases hname : name = consumer
      · subst hname
        rw [if_pos rfl]
        exact hclaims.refines henv
      · rw [if_neg hname]
        refine .idle ?_
        simp only [Option.map_some, Option.getD_some, hclaims.env', List.nil_append]
        exact state_put_other hname rfl rfl
  | Ack name world request =>
    rw [Delivery.step, Environment.act, ack_outbox_snd, OutboxAction.record]
    cases hack : d.env.durable_ack name world request with
    | none => exact .idle (by simp)
    | some ack =>
      have hruns := runs_of_durable_ack hack
      by_cases hname : name = consumer
      · subst hname
        rw [if_pos rfl]
        obtain ⟨hlease, hstate⟩ := ack_refines d.log hruns
        exact .step (hstate ▸ .ack _ _ _ hlease)
      · rw [if_neg hname]
        obtain ⟨_, _, _, _, _, _, _, henv'⟩ := ack_outbox_runs hruns
        refine .idle ?_
        simp only [Option.map_some, Option.getD_some, henv', List.nil_append]
        exact state_put_other hname rfl rfl

/-- Every run keeps the rows those of a gapless cursor. -/
theorem run_invariant (actions : List OutboxAction) : (Delivery.run sha256 consumer actions).env.Numbered ∧
      Gapless OutboxEventRecord.cursor ((Delivery.run sha256 consumer actions).state consumer) := by
  induction actions using List.reverseRecOn with
  | nil =>
    exact ⟨empty_numbered, gapless_of_empty (Set.eq_empty_of_forall_notMem empty_outbox_events) rfl rfl rfl⟩
  | append_singleton actions action ih =>
    rw [Delivery.run, List.foldl_concat]
    refine ⟨act_numbered sha256 ih.1 action, ?_⟩
    rcases step_refines sha256 consumer ih.1 action with hidle | hstep
    · exact (congrArg _ hidle).mpr ih.2
    · exact hstep.gapless ih.2

end

/-- The acknowledgement belongs to the most recent claim that returned events, and moves the cursor
exactly to the last of them. -/
def Fenced (d d' : Delivery) (consumer : OutboxConsumerName) (request : AckRequest) : Prop :=
  ∃ events last,
    last_claim d.log = some (request.worker_id, request.lease_generation, events) ∧
    events.getLast? = some last ∧ request.through = last.cursor ∧
    d'.env.consumer_cursor consumer = some last.cursor

/-- Gapless and fenced delivery, at one point of a run. -/
structure Delivers (sha256 : List UInt8 → Sha256Digest) (consumer : OutboxConsumerName) (d : Delivery) :
    Prop where
  /-- No action moves the cursor back. -/
  monotone : ∀ action, position (d.env.consumer_cursor consumer) ≤
    position ((d.step sha256 consumer action).env.consumer_cursor consumer)
  /-- Only acknowledgements of this consumer move it. -/
  unmoved : ∀ action, (∀ world request, action ≠ .Ack consumer world request) →
    (d.step sha256 consumer action).env.consumer_cursor consumer = d.env.consumer_cursor consumer
  /-- One that is answered with success, or that moves the cursor, holds the last claim. -/
  fenced : ∀ world request,
    (d.env.ack_outbox consumer world request).1 = .ok () ∨
      (d.step sha256 consumer (.Ack consumer world request)).env.consumer_cursor consumer ≠
        d.env.consumer_cursor consumer →
    Fenced d (d.step sha256 consumer (.Ack consumer world request)) consumer request
  /-- No two claims share a generation. -/
  generations : (generations d.log).Pairwise (· > ·)
  /-- No event is lost from the outbox. -/
  kept : ∀ action, ∀ event ∈ d.env.outbox_events,
    event ∈ (d.step sha256 consumer action).env.outbox_events
  /-- Every event at or below the cursor was in the claim whose acknowledgement passed it. -/
  gapless : ∀ event ∈ d.env.outbox_events,
    (event.cursor : WithBot OutboxCursor) ≤ position (d.env.consumer_cursor consumer) →
    DeliveredIn OutboxEventRecord.cursor d.log event

section
variable {sha256 : List UInt8 → Sha256Digest} {consumer : OutboxConsumerName} {d : Delivery}

theorem Refines.cursor_le {d' : Delivery} (h : Refines consumer d d')
    (hgapless : Gapless OutboxEventRecord.cursor (d.state consumer)) :
    (d.state consumer).cursor ≤ (d'.state consumer).cursor := by
  rcases h with hidle | hstep
  · rw [hidle]
  · exact hstep.cursor_le hgapless

theorem Refines.published_subset {d' : Delivery} (h : Refines consumer d d') :
    (d.state consumer).published ⊆ (d'.state consumer).published := by
  rcases h with hidle | hstep
  · rw [hidle]
  · exact hstep.published_subset

/-- Only an acknowledgement of the consumer itself moves its cursor. -/
theorem step_unmoved {action : OutboxAction} (h : ∀ world request, action ≠ .Ack consumer world request) :
    (d.step sha256 consumer action).env.consumer_cursor consumer = d.env.consumer_cursor consumer := by
  cases action with
  | Commit world batch =>
    rcases commit_state sha256 world batch d.env with heq | ⟨digest, now, _, _, happlied⟩
    · exact congrArg (Environment.consumer_cursor · consumer) heq
    · simp only [Delivery.step, Environment.act, Environment.consumer_cursor, happlied.outbox_consumers]
  | Claim name world request =>
    rw [Delivery.step, Environment.act, claim_outbox_snd]
    cases hclaim : d.env.durable_claim name world request with
    | none => rfl
    | some claim =>
      rw [Option.map_some, Option.getD_some, (claims_of_durable hclaim).env', Environment.consumer_cursor,
        put_consumer_getElem?]
      split
      · rename_i hname
        subst hname
        exact consumer_row_cursor d.env name request.now
      · rfl
  | Ack name world request =>
    have hname : name ≠ consumer := by
      rintro rfl
      exact h world request rfl
    rw [Delivery.step, Environment.act, ack_outbox_snd]
    cases hack : d.env.durable_ack name world request with
    | none => rfl
    | some ack =>
      obtain ⟨_, _, _, _, _, _, _, henv'⟩ := ack_outbox_runs (runs_of_durable_ack hack)
      rw [Option.map_some, Option.getD_some, henv', Environment.consumer_cursor, put_consumer_getElem?,
        if_neg hname]
      rfl

/-- A durable acknowledgement holds the last claim. -/
theorem fenced_of_durable {world : OutboxWorld} {request : AckRequest} {u : Unit} {env' : Environment}
    (hgapless : Gapless OutboxEventRecord.cursor (d.state consumer))
    (h : d.env.durable_ack consumer world request = some (u, env')) :
    Fenced d (d.step sha256 consumer (.Ack consumer world request)) consumer request := by
  have hruns := runs_of_durable_ack h
  obtain ⟨events, last, hgranted⟩ := hgapless.granted _ _ _ (ack_refines d.log hruns).1
  refine ⟨events, last, hgranted.claim, hgranted.getLast, hgranted.through.symm, ?_⟩
  obtain ⟨_, _, _, _, _, _, _, henv'⟩ := ack_outbox_runs hruns
  rw [Delivery.step, Environment.act, ack_outbox_snd, h, Option.map_some, Option.getD_some, henv',
    Environment.consumer_cursor, put_consumer_getElem?, if_pos rfl, hgranted.through]
  rfl

end

/-- The outbox is delivered to every consumer without a gap and behind its fence, in every run. -/
theorem run_delivers (sha256 : List UInt8 → Sha256Digest) (consumer : OutboxConsumerName)
    (actions : List OutboxAction) : Delivers sha256 consumer (Delivery.run sha256 consumer actions) := by
  obtain ⟨hnumbered, hgapless⟩ := run_invariant sha256 consumer actions
  have hrefines := step_refines sha256 consumer hnumbered
  refine ⟨fun action => (hrefines action).cursor_le hgapless, fun action => step_unmoved,
    fun world request hack => ?_, hgapless.fenced.1,
    fun action => (hrefines action).published_subset, hgapless.delivered⟩
  rcases hack with hok | hmoved
  · obtain ⟨env', hdurable⟩ := durable_ack_of_ok hok
    exact fenced_of_durable hgapless hdurable
  · -- An acknowledgement that left nothing durable cannot have moved the cursor.
    cases hdurable : (Delivery.run sha256 consumer actions).env.durable_ack consumer world request with
    | none =>
      rw [Delivery.step, Environment.act, ack_outbox_snd, hdurable] at hmoved
      exact absurd rfl hmoved
    | some ack => exact fenced_of_durable hgapless hdurable

end runku.data_sqlite
