import Runku.Execution.Executor
import Runku.Execution.Session

namespace runku.execution.mutation

open runku.core runku.value runku.data runku.data_sqlite runku.runtime runku.schema
open Std (ExtTreeMap)

section
variable {executor : MutationExecutor} {request : InvocationRequest} {operation_id : OperationId}
  {schedule_base : TimestampMicros} {begin_read : Except StoreError ReadSnapshot}

/-- An attempt that succeeded: the code ran without a failure and finished. -/
structure Attempted (executor : MutationExecutor) (request : InvocationRequest) (operation_id : OperationId)
    (schedule_base : TimestampMicros) (begin_read : Except StoreError ReadSnapshot) (value : CanonicalValue)
    (batch : Option CommitBatch) (state : MutationState) (buffered : BufferedMutation)
    (reads : ExtTreeMap DocumentKey (Option DataDocument)) : Prop where
  run : request.code.run (executor.session request operation_id schedule_base begin_read).serve .new =
    (.ok value, state)
  finished : Finished (executor.session request operation_id schedule_base begin_read) state buffered reads
  batch : buffered_batch executor.schema request.scope operation_id buffered = .ok batch
  filed : state.Filed

/-- What an attempt that reached a batch did. -/
theorem attempt_eq_ok {value : CanonicalValue} {batch : Option CommitBatch}
    (h : executor.attempt request operation_id schedule_base begin_read = .ok (value, batch)) :
    ∃ state buffered reads,
      Attempted executor request operation_id schedule_base begin_read value batch state buffered reads := by
  let session := executor.session request operation_id schedule_base begin_read
  unfold MutationExecutor.attempt at h
  cases hrun : request.code.run session.serve .new with
  | mk result state =>
    have hfiled : state.Filed := by
      have := @run_filed session request.code
      rwa [hrun] at this
    simp only [session] at hrun
    simp only [hrun] at h
    split at h
    · cases h
    · cases h
    · rename_i buffered value' hfinish
      split at h
      · cases h
      · rename_i batch' hbatch
        cases h
        have hfailure : state.failure = none := by
          unfold MutationSession.finish at hfinish
          split at hfinish
          · cases hfinish
          · assumption
          · assumption
        have hagrees : session.Agrees state.reads := by
          have := @run_agrees session request.code (by rw [hrun]; exact hfailure)
          rwa [hrun] at this
        obtain ⟨reads, hfinished⟩ := finish_spec hfinish hfiled.1 hagrees
        exact ⟨state, buffered, reads, hrun, hfinished, hbatch, hfiled⟩

/-- An attempt comes out the same on every snapshot that agrees with what it read. -/
theorem Attempted.congr {value : CanonicalValue} {batch : Option CommitBatch} {state : MutationState}
    {buffered : BufferedMutation} {reads : ExtTreeMap DocumentKey (Option DataDocument)}
    (h : Attempted executor request operation_id schedule_base begin_read value batch state buffered reads)
    {begin_read' : Except StoreError ReadSnapshot}
    (hagrees : (executor.session request operation_id schedule_base begin_read').Agrees reads) :
    executor.attempt request operation_id schedule_base begin_read' = .ok (value, batch) := by
  let session := executor.session request operation_id schedule_base begin_read
  have hread : session.Agrees state.reads := fun key observed hkey =>
    h.finished.agrees key observed (h.finished.keeps key observed hkey)
  have hrun : request.code.run (executor.session request operation_id schedule_base begin_read').serve .new =
      (.ok value, state) := by
    have hcongr := @run_congr session begin_read' request.code (by rw [h.run]; exact h.finished.failure) (by
      rw [h.run]
      exact fun key observed hkey => hagrees key observed (h.finished.keeps key observed hkey))
    exact hcongr.trans h.run
  have hfinish : (executor.session request operation_id schedule_base begin_read').finish state = .ok buffered :=
    h.finished.congr h.filed.1 hread hagrees
  unfold MutationExecutor.attempt
  simp only [hrun, hfinish, h.batch]

end

/-- The batch that an attempt made of what it buffered. -/
theorem buffered_batch_eq_ok {schema : Option SchemaCatalog} {scope : EnvironmentScope}
    {operation_id : OperationId} {buffered : BufferedMutation} {batch : CommitBatch}
    (h : buffered_batch schema scope operation_id buffered = .ok (some batch)) :
    ∃ indexes, plan_indexes schema buffered = .ok indexes ∧
      mutation_batch scope operation_id ⟨operation_id.ulid⟩ buffered.reads buffered.writes indexes
        buffered.schedules = .ok batch := by
  unfold buffered_batch at h
  split at h
  · cases h
  · obtain ⟨indexes, hindexes, h⟩ := fallible.bind_eq_ok_iff.mp h
    obtain ⟨batch', hbatch, h⟩ := fallible.bind_eq_ok_iff.mp h
    cases Except.ok.inj h
    exact ⟨indexes, hindexes, hbatch⟩

/-- The batch asserts everything the session read, once for each document. -/
theorem Attempted.batch_reads {executor : MutationExecutor} {request : InvocationRequest}
    {operation_id : OperationId} {schedule_base : TimestampMicros} {begin_read : Except StoreError ReadSnapshot}
    {value : CanonicalValue} {batch : CommitBatch} {state : MutationState} {buffered : BufferedMutation}
    {reads : ExtTreeMap DocumentKey (Option DataDocument)}
    (h : Attempted executor request operation_id schedule_base begin_read value (some batch) state buffered reads) :
    batch.reads = reads.toList.map read_assertion := by
  obtain ⟨indexes, _, hbatch⟩ := buffered_batch_eq_ok h.batch
  rw [(mutation_batch_eq_ok hbatch).2, h.finished.buffered]

/-- A document as the Environment answers it. -/
def Environment.data_document (env : Environment) (key : DocumentKey) : Option DataDocument :=
  (env.documents[key]?).map fun row => execution.data_document (decode_document_row key row)

section
variable {session : MutationSession} {env env' : Environment}
  {reads : ExtTreeMap DocumentKey (Option DataDocument)}

/-- A row that a session accepts. -/
def RowValid (env : Environment) (row : DocumentRow) : Prop :=
  row.commit_sequence ≤ env.sequence ∧ row.created_at_micros ≤ row.updated_at_micros

theorem valid_record_decode (key : DocumentKey) (row : DocumentRow) (sequence : Nat) :
    valid_record key.table_id key.document_id sequence (decode_document_row key row) ↔
      row.commit_sequence ≤ sequence ∧ row.created_at_micros ≤ row.updated_at_micros := by
  have hrevision : row.revision.to_u64 ≠ 0 := by
    intro hzero
    have hnat := congrArg UInt64.toNat hzero
    rw [PositiveI64.toNat_to_u64] at hnat
    exact row.revision.pos.ne' hnat
  simp only [valid_record, decode_document_row, decide_true, hrevision, ne_eq, not_false_eq_true, Bool.true_and,
    Bool.and_eq_true]
  exact Iff.and decide_eq_true_iff decide_eq_true_iff

theorem agrees_begin_read_iff (hbegin : session.begin_read = .ok env.begin_read) :
    session.Agrees reads ↔ ∀ (key : DocumentKey) (observed : Option DataDocument),
      reads[key]? = some observed → observed = Environment.data_document env key ∧
        ∀ row ∈ env.documents[key]?, RowValid env row := by
  have hget (key : DocumentKey) : env.begin_read.get_document key.table_id key.document_id =
      .ok ((env.documents[key]?).map (decode_document_row key)) := rfl
  constructor
  · intro h key observed hread
    obtain ⟨snapshot, record, hbegin', hrecord, rfl, hvalid⟩ := h key observed hread
    cases hbegin.symm.trans hbegin'
    cases (hget key).symm.trans hrecord
    refine ⟨Option.map_map _ _ _, fun row hrow => ?_⟩
    rw [Option.mem_def] at hrow
    exact (valid_record_decode key row env.sequence).mp (hvalid _ (by rw [hrow]; rfl))
  · intro h key observed hread
    obtain ⟨rfl, hvalid⟩ := h key observed hread
    refine ⟨env.begin_read, _, hbegin, hget key, by rw [Option.map_map]; rfl, fun document hdocument => ?_⟩
    obtain ⟨row, hrow, rfl⟩ := Option.map_eq_some_iff.mp hdocument
    exact (valid_record_decode key row env.sequence).mpr (hvalid row hrow)

/-- What is remembered stays true while the rows that were read stay. -/
theorem Agrees.of_rows {session' : MutationSession} (h : session.Agrees reads)
    (hbegin : session.begin_read = .ok env.begin_read) (hbegin' : session'.begin_read = .ok env'.begin_read)
    (hrows : ∀ key ∈ reads, env'.documents[key]? = env.documents[key]?)
    (hsequence : env.sequence ≤ env'.sequence) : session'.Agrees reads := by
  rw [agrees_begin_read_iff hbegin] at h
  rw [agrees_begin_read_iff hbegin']
  intro key observed hread
  obtain ⟨hobserved, hvalid⟩ := h key observed hread
  have hkey : key ∈ reads := by
    rw [Std.ExtTreeMap.mem_iff_isSome_getElem?, hread]
    rfl
  rw [Environment.data_document, hrows key hkey]
  exact ⟨hobserved, fun row hrow => ⟨(hvalid row hrow).1.trans hsequence, (hvalid row hrow).2⟩⟩

end

end runku.execution.mutation
