import Runku.DataSqlite.Commit
import Runku.Lib.KeyedWrites

namespace runku.data_sqlite

open runku.core runku.data transaction keyed_writes fallible

/-- How a document mutation takes the row of its key from `before` to `after`. -/
def DocumentApplies (sequence : Nat) (now : Int64) (mutation : DocumentMutation)
    (before after : Option DocumentRow) : Prop :=
  match mutation with
  | .Upsert _ _ .Absent value => before = none ∧ after = some (inserted_row sequence now value)
  | .Upsert _ _ (.Exact expected) value => ∃ row next, before = some row ∧
      row.revision.to_u64 = expected ∧ next.val = row.revision.val + 1 ∧
        after = some (updated_row row next sequence now value)
  | .Delete _ _ expected => ∃ row, before = some row ∧ row.revision.to_u64 = expected ∧ after = none

/-- The result a document mutation reports. -/
def document_result : DocumentMutation → DocumentRevisionResult
  | .Upsert table_id document_id .Absent _ => ⟨table_id, document_id, some 1⟩
  | .Upsert table_id document_id (.Exact expected) _ => ⟨table_id, document_id, some (expected + 1)⟩
  | .Delete table_id document_id _ => ⟨table_id, document_id, none⟩

variable {env env' : Environment} {u : Unit}

/-- A write that had to affect one row did. -/
theorem runs_execute_one {update : Environment → Option Environment}
    (h : Runs (execute_one update) env u env') : update env = some env' := by
  obtain ⟨rows, env₁, hstatement, h⟩ := h.statement_bind
  obtain ⟨hone, heq⟩ := h.lift
  split at hstatement
  · rename_i hupdate
    rw [hupdate, (Prod.mk.inj (Except.ok.inj hstatement)).2, heq]
  · rw [← (Prod.mk.inj (Except.ok.inj hstatement)).1] at hone
    simp at hone

theorem runs_select {α : Type} {query : Environment → α} {a : α}
    (h : Runs (select query) env a env') : a = query env ∧ env' = env := by
  have h := h.statement
  cases h
  exact ⟨rfl, rfl⟩

theorem next_revision_eq_ok {expected next : UInt64} {next_db : PositiveI64}
    (h : next_revision expected = .ok (next, next_db)) : next = expected + 1 ∧ next_db.val = expected.toNat + 1 := by
  unfold next_revision at h
  split at h
  · rename_i hlt
    obtain ⟨p, hp, h⟩ := bind_eq_ok_iff.mp h
    cases h
    refine ⟨rfl, ?_⟩
    rw [positive_i64_eq_ok_iff.mp hp, UInt64.toNat_add]
    exact Nat.mod_eq_of_lt hlt
  · cases h

variable {sequence : Nat} {now : Int64}

/-- All that one document mutation does. -/
theorem apply_document_runs {mutation : DocumentMutation}
    {result : DocumentRevisionResult}
    (h : Runs (apply_document sequence now mutation) env result env') :
    ∃ after, DocumentApplies sequence now mutation env.documents[mutation.key]? after ∧
      env' = { env with documents := ordered_map.write env.documents mutation.key after } ∧
      result = document_result mutation := by
  cases mutation with
  | Upsert table_id document_id expected value =>
    cases expected with
    | Absent =>
      obtain ⟨_, hencode, h⟩ := h.lift_bind
      obtain ⟨_, env₂, hupdate, h⟩ := h.bind
      have hupdate := runs_execute_one hupdate
      obtain ⟨rfl, rfl⟩ := h.pure
      split at hupdate
      · cases hupdate
      · rename_i hnone
        exact ⟨_, ⟨hnone, rfl⟩, (Option.some.inj hupdate).symm, rfl⟩
    | Exact expected =>
      obtain ⟨_, hencode, h⟩ := h.lift_bind
      obtain ⟨expected_db, hexpected, h⟩ := h.lift_bind
      obtain ⟨⟨next, next_db⟩, hnext, h⟩ := h.lift_bind
      obtain ⟨_, env₂, hupdate, h⟩ := h.bind
      have hupdate := runs_execute_one hupdate
      obtain ⟨rfl, rfl⟩ := h.pure
      obtain ⟨rfl, hval⟩ := next_revision_eq_ok hnext
      split at hupdate
      · rename_i row hrow
        split at hupdate
        · rename_i hrevision
          rw [positive_i64_toNat_eq_ok_iff] at hexpected
          refine ⟨_, ⟨row, next_db, hrow, hrevision ▸ hexpected, ?_, rfl⟩, (Option.some.inj hupdate).symm, rfl⟩
          rw [hval, ← hexpected, PositiveI64.toNat_to_u64, hrevision]
        · cases hupdate
      · cases hupdate
  | Delete table_id document_id expected_revision =>
    obtain ⟨expected_db, hexpected, h⟩ := h.lift_bind
    obtain ⟨_, env₂, hupdate, h⟩ := h.bind
    have hupdate := runs_execute_one hupdate
    obtain ⟨rfl, rfl⟩ := h.pure
    split at hupdate
    · rename_i row hrow
      split at hupdate
      · rename_i hrevision
        rw [positive_i64_toNat_eq_ok_iff] at hexpected
        exact ⟨_, ⟨row, hrow, hrevision ▸ hexpected, rfl⟩, (Option.some.inj hupdate).symm, rfl⟩
      · cases hupdate
    · cases hupdate

/-- How an index mutation leaves the entry of its identity; a put needs its document at the put's
revision. -/
def IndexApplies (sequence : Nat) (env : Environment) (mutation : IndexMutation)
    (after : Option IndexEntryRow) : Prop :=
  match mutation with
  | .Put _ _ table_id document_id document_revision => ∃ row,
      env.documents[(⟨table_id, document_id⟩ : DocumentKey)]? = some row ∧
        row.revision.to_u64 = document_revision ∧ after = some ⟨table_id, row.revision, sequence⟩
  | .Delete .. => after = none

theorem apply_index_runs {mutation : IndexMutation}
    (h : Runs (apply_index sequence mutation) env u env') :
    ∃ after, IndexApplies sequence env mutation after ∧ env' = { env with
      index_entries := ordered_map.write env.index_entries mutation.identity after } := by
  cases mutation with
  | Put index_id key table_id document_id document_revision =>
    obtain ⟨revision, hrevision, h⟩ := h.lift_bind
    obtain ⟨found, env₁, hselect, h⟩ := h.bind
    obtain ⟨hfound, heq⟩ := runs_select hselect
    rw [heq] at h
    rw [positive_i64_toNat_eq_ok_iff] at hrevision
    split at h
    · rename_i htrue
      cases hrow : env.documents[(⟨table_id, document_id⟩ : DocumentKey)]? with
      | none => simp [hfound, hrow] at htrue
      | some row =>
      have hmatch : row.revision = revision := by simpa [hfound, hrow] using htrue
      exact ⟨_, ⟨row, hrow, hmatch ▸ hrevision, rfl⟩,
        hmatch ▸ (Prod.mk.inj (Except.ok.inj h.statement)).2.symm⟩
    · cases h.lift.1
  | Delete index_id key document_id =>
    rw [apply_index] at h
    exact ⟨none, rfl, (Prod.mk.inj (Except.ok.inj h.statement)).2.symm⟩

/-- How an appended event takes the row of its identity from `before` to `after`. -/
def EventApplies (sequence : Nat) (now : Int64) (event : OutboxAppend) (before after : Option OutboxRow) : Prop :=
  before = none ∧ after = some ⟨sequence, event.payload, now⟩

theorem append_event_runs {event : OutboxAppend}
    (h : Runs (append_event sequence now event) env u env') :
    ∃ after, EventApplies sequence now event env.outbox[event.event_id]? after ∧
      env' = { env with outbox := ordered_map.write env.outbox event.event_id after } := by
  obtain ⟨_, _, h⟩ := h.lift_bind
  have hupdate := runs_execute_one h
  split at hupdate
  · cases hupdate
  · rename_i hfree
    exact ⟨_, ⟨Std.ExtTreeMap.getElem?_eq_none hfree, rfl⟩, (Option.some.inj hupdate).symm⟩

/-- How a schedule takes the row of its identity from `before` to `after`. -/
def ScheduleApplies (sequence : Nat) (now : Int64) (schedule : ScheduledInvocationInsert)
    (before after : Option ScheduledRow) : Prop :=
  before = none ∧ after = some (scheduled_row schedule sequence now)

theorem insert_schedule_runs {schedule : ScheduledInvocationInsert}
    (h : Runs (insert_schedule sequence now schedule) env u env') :
    ∃ after, ScheduleApplies sequence now schedule env.scheduled_invocations[schedule.id]? after ∧
      env' = { env with scheduled_invocations :=
        ordered_map.write env.scheduled_invocations schedule.id after } := by
  obtain ⟨_, _, h⟩ := h.lift_bind
  have hupdate := runs_execute_one h
  split at hupdate
  · cases hupdate
  · rename_i hfree
    simp only [Environment.schedule_conflicts, Bool.or_eq_true, not_or, decide_eq_true_eq] at hfree
    exact ⟨_, ⟨Std.ExtTreeMap.getElem?_eq_none hfree.1, rfl⟩, (Option.some.inj hupdate).symm⟩

/-- The journal rows of an operation's document results, from a first ordinal on. -/
def journal (operation_id : OperationId) (ordinal : Nat) (mutations : List DocumentMutation) :
    List (DocumentResultKey × Option DocumentRevisionResult) :=
  (mutations.zipIdx ordinal).map fun item => (⟨operation_id, item.2⟩, some (document_result item.1))

/-- All that the document mutations of a batch do. -/
theorem apply_documents_runs {operation_id : OperationId}
    {mutations : List DocumentMutation} (hnodup : (mutations.map DocumentMutation.key).Nodup)
    {ordinal : Nat} {results : List DocumentRevisionResult}
    (h : Runs (apply_documents operation_id sequence now ordinal mutations) env results env') :
    ∃ ws, Writes (fun _ => DocumentApplies sequence now) DocumentMutation.key Environment.documents env
        mutations ws ∧
      env' = { env with
        documents := ordered_map.writes env.documents ws
        commit_document_results :=
          ordered_map.writes env.commit_document_results (journal operation_id ordinal mutations) } ∧
      results = mutations.map document_result := by
  induction mutations generalizing ordinal env results with
  | nil =>
    obtain ⟨rfl, rfl⟩ := h.pure
    exact ⟨[], List.Forall₂.nil, rfl, rfl⟩
  | cons mutation mutations ih =>
    rw [List.map_cons, List.nodup_cons] at hnodup
    obtain ⟨result, env₁, hdocument, h⟩ := h.bind
    obtain ⟨_, env₂, hjournal, h⟩ := h.bind
    obtain ⟨results', env₃, hrest, h⟩ := h.bind
    obtain ⟨rfl, rfl⟩ := h.pure
    obtain ⟨after, hafter, rfl, rfl⟩ := apply_document_runs hdocument
    have hjournal := hjournal.statement
    rw [ite_error_eq_ok_iff] at hjournal
    obtain rfl := (Prod.mk.inj (Except.ok.inj hjournal.2)).2
    obtain ⟨ws, hws, rfl, rfl⟩ := ih hnodup.2 hrest
    exact ⟨(mutation.key, after) :: ws, hws.cons hafter rfl (fun _ _ _ h => h) hnodup.1, rfl, rfl⟩

/-- All that the index mutations of a batch do. -/
theorem apply_indexes_runs {mutations : List IndexMutation}
    (hnodup : (mutations.map IndexMutation.identity).Nodup)
    (h : Runs (for_each (apply_index sequence) mutations) env u env') :
    ∃ ws, Writes (fun env mutation _ after => IndexApplies sequence env mutation after)
        IndexMutation.identity Environment.index_entries env mutations ws ∧
      env' = { env with index_entries := ordered_map.writes env.index_entries ws } := by
  obtain ⟨ws, hws, htable, hframe⟩ := runs_for_each Environment.index_entries IndexMutation.identity
    (fun env env' => env' = { env with index_entries := env'.index_entries })
    (fun env mutation _ after => IndexApplies sequence env mutation after)
    (fun _ => rfl) (fun h₁ h₂ => by rw [h₂, h₁])
    (fun {env env'} hframe mutation before after hR => by
      have hdocuments : env'.documents = env.documents := by rw [hframe]
      cases mutation with
      | Put index_id key table_id document_id document_revision =>
        obtain ⟨row, hrow, h⟩ := hR
        exact ⟨row, hdocuments ▸ hrow, h⟩
      | Delete => exact hR)
    (fun mutation env u env' h => by
      obtain ⟨after, hafter, rfl⟩ := apply_index_runs h
      exact ⟨after, hafter, rfl, rfl⟩)
    hnodup h
  exact ⟨ws, hws, by rw [hframe, htable]⟩

theorem append_events_runs {events : List OutboxAppend}
    (hnodup : (events.map OutboxAppend.event_id).Nodup)
    (h : Runs (for_each (append_event sequence now) events) env u env') :
    ∃ ws, Writes (fun _ => EventApplies sequence now) OutboxAppend.event_id Environment.outbox env
        events ws ∧
      env' = { env with outbox := ordered_map.writes env.outbox ws } := by
  obtain ⟨ws, hws, htable, hframe⟩ := runs_for_each Environment.outbox OutboxAppend.event_id
    (fun env env' => env' = { env with outbox := env'.outbox }) (fun _ => EventApplies sequence now)
    (fun _ => rfl) (fun h₁ h₂ => by rw [h₂, h₁]) (fun _ _ _ _ hR => hR)
    (fun event env u env' h => by
      obtain ⟨after, hafter, rfl⟩ := append_event_runs h
      exact ⟨after, hafter, rfl, rfl⟩)
    hnodup h
  exact ⟨ws, hws, by rw [hframe, htable]⟩

theorem insert_schedules_runs {schedules : List ScheduledInvocationInsert}
    (hnodup : (schedules.map ScheduledInvocationInsert.id).Nodup)
    (h : Runs (for_each (insert_schedule sequence now) schedules) env u env') :
    ∃ ws, Writes (fun _ => ScheduleApplies sequence now) ScheduledInvocationInsert.id
        Environment.scheduled_invocations env schedules ws ∧
      env' = { env with
        scheduled_invocations := ordered_map.writes env.scheduled_invocations ws } := by
  obtain ⟨ws, hws, htable, hframe⟩ := runs_for_each Environment.scheduled_invocations
    ScheduledInvocationInsert.id
    (fun env env' => env' = { env with scheduled_invocations := env'.scheduled_invocations })
    (fun _ => ScheduleApplies sequence now)
    (fun _ => rfl) (fun h₁ h₂ => by rw [h₂, h₁]) (fun _ _ _ _ hR => hR)
    (fun schedule env u env' h => by
      obtain ⟨after, hafter, rfl⟩ := insert_schedule_runs h
      exact ⟨after, hafter, rfl, rfl⟩)
    hnodup h
  exact ⟨ws, hws, by rw [hframe, htable]⟩

theorem validate_document_reads_runs {assertions : List DocumentReadAssertion}
    (h : Runs (validate_document_reads assertions) env u env') : env' = env ∧ ∀ assertion ∈ assertions,
      (env.documents[assertion.key]?.map fun row => row.revision.to_u64) = assertion.observed_revision := by
  induction assertions generalizing env with
  | nil => exact ⟨h.pure.2, by simp⟩
  | cons assertion assertions ih =>
    obtain ⟨revision, env₁, hselect, h⟩ := h.bind
    obtain ⟨hrevision, heq⟩ := runs_select hselect
    rw [heq] at h
    split at h
    · cases h.lift.1
    · rename_i hmatch
      obtain ⟨rfl, hall⟩ := ih h
      refine ⟨rfl, ?_⟩
      rw [List.forall_mem_cons]
      exact ⟨hrevision ▸ not_not.mp hmatch, hall⟩

/-- The whole effect of applying a batch: every row the batch names changes as its mutation says, and
every other row stays. -/
structure Applied (batch : CommitBatch) (digest : Sha256Digest) (now : Int64) (env env' : Environment) :
    Prop where
  fresh : env.commit_operations[batch.operation_id]? = none
  reads : ∀ assertion ∈ batch.reads,
    (env.documents[assertion.key]?.map fun row => row.revision.to_u64) = assertion.observed_revision
  commit_sequence : env'.commit_sequence = some (env.sequence + 1)
  commit_operations : env'.commit_operations =
    env.commit_operations.insert batch.operation_id ⟨digest, env.sequence + 1, now⟩
  commit_document_results : env'.commit_document_results =
    ordered_map.writes env.commit_document_results (journal batch.operation_id 0 batch.documents)
  document : ∀ mutation ∈ batch.documents, DocumentApplies (env.sequence + 1) now mutation
    env.documents[mutation.key]? env'.documents[mutation.key]?
  other_document : ∀ key ∉ batch.documents.map DocumentMutation.key,
    env'.documents[key]? = env.documents[key]?
  index : ∀ mutation ∈ batch.indexes,
    IndexApplies (env.sequence + 1) env' mutation env'.index_entries[mutation.identity]?
  other_index : ∀ key ∉ batch.indexes.map IndexMutation.identity,
    env'.index_entries[key]? = env.index_entries[key]?
  event : ∀ event ∈ batch.outbox,
    EventApplies (env.sequence + 1) now event env.outbox[event.event_id]? env'.outbox[event.event_id]?
  other_event : ∀ event_id ∉ batch.outbox.map OutboxAppend.event_id,
    env'.outbox[event_id]? = env.outbox[event_id]?
  schedule : ∀ schedule ∈ batch.schedules, ScheduleApplies (env.sequence + 1) now schedule
    env.scheduled_invocations[schedule.id]? env'.scheduled_invocations[schedule.id]?
  other_schedule : ∀ id ∉ batch.schedules.map ScheduledInvocationInsert.id,
    env'.scheduled_invocations[id]? = env.scheduled_invocations[id]?
  outbox_consumers : env'.outbox_consumers = env.outbox_consumers

/-- What a journalled operation replays to. -/
def Replayed (batch : CommitBatch) (digest : Sha256Digest) (env : Environment) (result : CommitResult) : Prop :=
  ∃ row, env.commit_operations[batch.operation_id]? = some row ∧ row.batch_digest = digest ∧
    (env.operation_results batch.operation_id).length = batch.documents.length ∧
    result = ⟨row.commit_sequence, env.operation_results batch.operation_id, true⟩

/-- An operation is replayed from its rows, or not found. -/
theorem load_operation_runs {batch : CommitBatch} {digest : Sha256Digest}
    {result : Option CommitResult} (h : Runs (load_operation batch digest) env result env') :
    env' = env ∧ ((result = none ∧ env.commit_operations[batch.operation_id]? = none) ∨
      ∃ replay, result = some replay ∧ Replayed batch digest env replay) := by
  obtain ⟨row, env₁, hselect, h⟩ := h.bind
  obtain ⟨hrow, heq⟩ := runs_select hselect
  rw [heq] at h
  split at h
  · obtain ⟨hresult, henv⟩ := h.pure
    exact ⟨henv, .inl ⟨hresult, hrow.symm⟩⟩
  · rename_i row
    split at h
    · cases h.lift.1
    · rename_i hdigest
      obtain ⟨documents, env₂, hselect, h⟩ := h.bind
      obtain ⟨hdocuments, heq⟩ := runs_select hselect
      rw [heq] at h
      split at h
      · cases h.lift.1
      · rename_i hlen
        obtain ⟨hresult, henv⟩ := h.pure
        rw [hdocuments] at hlen hresult
        exact ⟨henv, .inr ⟨_, hresult, row, hrow.symm, not_not.mp hdigest, not_not.mp hlen, rfl⟩⟩

/-- A successful commit replays a journalled operation, or applies the whole batch. -/
theorem apply_commit_runs {batch : CommitBatch} (hvalid : batch.Valid) {digest : Sha256Digest}
    {clock : Except StoreError Int64} {result : CommitResult}
    (h : Runs (apply_commit batch digest clock) env result env') : (env' = env ∧ Replayed batch digest env result) ∨
      ∃ now, clock = .ok now ∧ Applied batch digest now env env' ∧
        result = ⟨env.sequence + 1, batch.documents.map document_result, false⟩ := by
  obtain ⟨replay, env₁, hload, h⟩ := h.bind
  obtain ⟨heq, hload⟩ := load_operation_runs hload
  rw [heq] at h
  rcases hload with ⟨rfl, hfresh⟩ | ⟨replay', rfl, hreplay⟩
  · obtain ⟨_, env₂, hreads, h⟩ := h.bind
    obtain ⟨heq, hreads⟩ := validate_document_reads_runs hreads
    rw [heq] at h
    obtain ⟨sequence, env₃, hsequence, h⟩ := h.statement_bind
    obtain ⟨sequence', hincrement, hsequence⟩ := bind_eq_ok_iff.mp hsequence
    obtain ⟨rfl, henv₃⟩ := Prod.mk.inj (Except.ok.inj hsequence)
    obtain ⟨_, rfl⟩ := increment_eq_ok_iff.mp hincrement
    obtain ⟨now, hclock, h⟩ := h.lift_bind
    obtain ⟨_, env₄, hoperation, h⟩ := h.statement_bind
    rw [ite_error_eq_ok_iff] at hoperation
    have henv₄ := (Prod.mk.inj (Except.ok.inj hoperation.2)).2
    obtain ⟨documents, env₅, hdocuments, h⟩ := h.bind
    obtain ⟨ds, hds, henv₅, hresults⟩ := apply_documents_runs hvalid.documents_nodup hdocuments
    obtain ⟨_, env₆, hindexes, h⟩ := h.bind
    obtain ⟨is, his, henv₆⟩ := apply_indexes_runs hvalid.indexes_nodup hindexes
    obtain ⟨_, env₇, hevents, h⟩ := h.bind
    obtain ⟨es, hes, henv₇⟩ := append_events_runs hvalid.outbox_nodup hevents
    obtain ⟨_, env₈, hschedules, h⟩ := h.bind
    obtain ⟨ss, hss, henv₈⟩ := insert_schedules_runs hvalid.schedules_nodup hschedules
    obtain ⟨hresult, henv'⟩ := h.pure
    subst henv' henv₈ henv₇ henv₆ henv₅ henv₄ henv₃
    refine .inr ⟨now, hclock, ?_, by rw [hresult, hresults]⟩
    exact {
      fresh := hfresh
      reads := hreads
      commit_sequence := rfl
      commit_operations := rfl
      commit_document_results := rfl
      document := fun mutation hmem => hds.getElem?_of_mem hvalid.documents_nodup hmem
      other_document := fun key hkey => hds.getElem?_of_notMem hkey
      index := fun mutation hmem => his.getElem?_of_mem hvalid.indexes_nodup hmem
      other_index := fun key hkey => his.getElem?_of_notMem hkey
      event := fun event hmem => hes.getElem?_of_mem hvalid.outbox_nodup hmem
      other_event := fun event_id hid => hes.getElem?_of_notMem hid
      schedule := fun schedule hmem => hss.getElem?_of_mem hvalid.schedules_nodup hmem
      other_schedule := fun id hid => hss.getElem?_of_notMem hid
      outbox_consumers := rfl }
  · obtain ⟨hresult, henv⟩ := h.pure
    exact .inl ⟨henv, hresult ▸ hreplay⟩

end runku.data_sqlite
