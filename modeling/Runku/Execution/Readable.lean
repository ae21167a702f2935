import Runku.DataSqlite.Journal
import Runku.Execution.Attempt
import Runku.Execution.Dependencies
import Runku.Lib.Machine

namespace runku.execution

open runku.value runku.data runku.data_sqlite runku.runtime runku.execution.mutation
open machine

/-- The Environment after a call of `commit`, whatever it reports. -/
def commit_step (sha256 : List UInt8 → Sha256Digest) (env : Environment) (call : CommitCall) : Environment :=
  (env.commit sha256 call.world call.batch).2

/-- If the call takes effect, the clock shows no time before the creation of a document that it replaces. -/
def ClockHolds (sha256 : List UInt8 → Sha256Digest) (env : Environment) (call : CommitCall) : Prop :=
  commit_step sha256 env call ≠ env → ∀ now, call.world.clock = .ok now → ∀ table_id document_id revision value,
    DocumentMutation.Upsert table_id document_id (.Exact revision) value ∈ call.batch.documents →
      ∀ row, env.documents[(⟨table_id, document_id⟩ : DocumentKey)]? = some row → row.created_at_micros ≤ now

/-- Sessions accept every document. -/
def Readable (env : Environment) : Prop := ∀ (key : DocumentKey) row, env.documents[key]? = some row → RowValid env row

section
variable {sha256 : List UInt8 → Sha256Digest} {env : Environment}

/-- A commit leaves a document as it was, or with a time that its clock showed. -/
theorem readable_step (env : Environment) (call : CommitCall) (hclock : ClockHolds sha256 env call) (h : Readable env) :
    Readable (commit_step sha256 env call) := by
  unfold commit_step
  rcases commit_state sha256 call.world call.batch env with heq | ⟨digest, now, _, hnow, happlied⟩
  · rw [heq]
    exact h
  have hsequence : (env.commit sha256 call.world call.batch).2.sequence = env.sequence + 1 := by
    rw [Environment.sequence, happlied.commit_sequence]
    rfl
  have hchanged : commit_step sha256 env call ≠ env := fun hsame =>
    Nat.succ_ne_self _ (hsequence.symm.trans (congrArg Environment.sequence hsame))
  intro key row hrow
  unfold RowValid
  rw [hsequence]
  by_cases hkey : key ∈ call.batch.documents.map DocumentMutation.key
  · obtain ⟨mutation, hmutation, rfl⟩ := List.mem_map.mp hkey
    have hdocument := happlied.document mutation hmutation
    rw [hrow] at hdocument
    cases mutation with
    | Upsert table_id document_id expected value =>
      cases expected with
      | Absent =>
        obtain ⟨_, hafter⟩ := hdocument
        cases hafter
        exact ⟨le_rfl, Int64.le_refl now⟩
      | Exact revision =>
        obtain ⟨before, next, hbefore, _, _, hafter⟩ := hdocument
        cases hafter
        exact ⟨le_rfl, hclock hchanged now hnow table_id document_id revision value hmutation before hbefore⟩
    | Delete table_id document_id revision =>
      obtain ⟨_, _, _, hafter⟩ := hdocument
      cases hafter
  · rw [happlied.other_document key hkey] at hrow
    obtain ⟨hcommitted, htimes⟩ := h key row hrow
    exact ⟨hcommitted.trans (Nat.le_succ _), htimes⟩

theorem get_document_begin_read (env : Environment) (request : DataGetRequest) :
    env.begin_read.get_document request.table_id request.document_id =
      .ok ((env.documents[(⟨request.table_id, request.document_id⟩ : DocumentKey)]?).map
        (decode_document_row ⟨request.table_id, request.document_id⟩)) := rfl

theorem valid_of_readable (h : Readable env) (request : DataGetRequest) :
    ¬(((env.documents[(⟨request.table_id, request.document_id⟩ : DocumentKey)]?).map
      (decode_document_row ⟨request.table_id, request.document_id⟩)).any fun record =>
        !valid_record request.table_id request.document_id env.begin_read.commit_sequence record) = true := by
  cases hrow : env.documents[(⟨request.table_id, request.document_id⟩ : DocumentKey)]? with
  | none => simp
  | some row =>
    have hvalid := (valid_record_decode ⟨request.table_id, request.document_id⟩ row env.begin_read.commit_sequence).mpr
      (h _ row hrow)
    simpa using hvalid

/-- Without a failure, the state of a Query is tagged with its snapshot. -/
theorem tagged_of_run (snapshot : ReadSnapshot) (query : Query)
    (h : (query.run (serve_query snapshot) .new).2.failure = none) :
    (query.run (serve_query snapshot) .new).2.Tagged snapshot.commit_sequence := by
  refine Program.run_invariant (I := fun state : SessionState => state.failure = none → state.Tagged snapshot.commit_sequence)
    (fun op state htagged hafter => ?_) query (fun _ => ⟨nofun, nofun⟩) h
  exact (serve_query_retag le_rfl op (htagged (serve_query_back op hafter).1) hafter
    fun dependency _ => ReadDependency.same_refl dependency).2.1

theorem get_inner_readable (h : Readable env) {state : SessionState} (htagged : state.Tagged env.sequence)
    (hfailure : state.failure = none) (request : DataGetRequest) :
    (get_inner env.begin_read request state).2.failure ≠ some (.Store .Corruption) := by
  unfold get_inner
  rw [if_neg (by simp [hfailure])]
  dsimp only
  rw [@ensure_snapshot_getD env.begin_read _ htagged, get_document_begin_read]
  dsimp only
  rw [if_neg (valid_of_readable h request)]
  split
  · simp [latch]
  · rename_i hrecorded
    rw [(record_dependency_subset hrecorded).1]
    simp [ensure_snapshot, hfailure]

/-- A Mutation that reads finds no corrupt document. -/
theorem get_readable (h : Readable env) {session : MutationSession} (hsession : session.begin_read = .ok env.begin_read)
    {state : MutationState} (hagrees : session.Agrees state.reads) (hfailure : state.failure = none)
    (request : DataGetRequest) : (session.get request state).2.failure ≠ some (.Store .Corruption) := by
  rcases get_cases request state with ⟨answer, hanswer⟩ | ⟨_, hget⟩
  · rw [show session.get request state = (answer, state) from hanswer session.begin_read, hfailure]
    nofun
  rw [show session.get request state = _ from hget session.begin_read, hsession]
  dsimp only
  rw [snapshot_read, get_document_begin_read]
  dsimp only
  rw [if_neg (valid_of_readable h request)]
  split
  · simp [MutationState.latch]
  -- What the session remembers of the document it read from this Environment.
  rw [if_neg, hfailure]
  · nofun
  · cases hread : state.reads[(⟨request.table_id, request.document_id⟩ : DocumentKey)]? with
    | none => simp
    | some observed =>
      obtain ⟨rfl, _⟩ := (agrees_begin_read_iff hsession).mp hagrees _ _ hread
      simp [Environment.data_document, Function.comp_def]

/-- While the clock holds, documents that are only written through `commit` stay readable: neither a Query nor a
Mutation that starts on the Environment finds one that is corrupt, whatever it did before. -/
theorem documents_stay_readable {calls : List CommitCall}
    (hclock : Meets (commit_step sha256) (ClockHolds sha256) .empty calls) :
    Readable (run (commit_step sha256) .empty calls) ∧ (∀ (query : Query) request,
        let session := query.run (serve_query (run (commit_step sha256) .empty calls).begin_read) .new
        session.2.failure = none →
          (get_inner (run (commit_step sha256) .empty calls).begin_read request session.2).2.failure ≠
            some (.Store .Corruption)) ∧
      ∀ (session : MutationSession) (code : Mutation) request,
        session.begin_read = .ok (run (commit_step sha256) .empty calls).begin_read →
          (code.run session.serve .new).2.failure = none →
            (session.get request (code.run session.serve .new).2).2.failure ≠ some (.Store .Corruption) := by
  have hreadable : Readable (run (commit_step sha256) .empty calls) :=
    run_induction readable_step hclock fun key row hrow => by simp [Environment.empty] at hrow
  refine ⟨hreadable, fun query request hfailure => ?_, fun session code request hsession hfailure => ?_⟩
  · exact get_inner_readable hreadable (tagged_of_run _ query hfailure) hfailure request
  · exact get_readable hreadable hsession (run_agrees code hfailure) hfailure request

end

/-- A call that writes one document at a time that the clock shows. -/
def note_call (operation : Nat) (now : Int64) (mutation : DocumentMutation) : CommitCall where
  world := ⟨.ok now, [], .Committed⟩
  batch := {
    scope := ⟨⟨.from_nat 1⟩, ⟨.from_nat 2⟩⟩
    operation_id := ⟨.from_nat operation⟩
    reads := []
    documents := [mutation]
    indexes := []
    outbox := []
    schedules := []
    intent_context := none }

/-- Inserts a document at one time and replaces it at another. -/
def inserted_then_replaced (created updated : Int64) : List CommitCall :=
  [note_call 10 created (.Upsert ⟨.from_nat 4⟩ ⟨.from_nat 5⟩ .Absent .Null),
    note_call 11 updated (.Upsert ⟨.from_nat 4⟩ ⟨.from_nat 5⟩ (.Exact 1) .Null)]

/-- The clock goes back by one second between the two commits, and no session reads the document any more. -/
theorem replaced_before_created : ∃ (calls : List CommitCall) (request : DataGetRequest),
    ¬ Readable (run (commit_step checksum) .empty calls) ∧
      (get_inner (run (commit_step checksum) .empty calls).begin_read request .new).2.failure =
        some (.Store .Corruption) := by
  refine ⟨inserted_then_replaced 2000000 1000000, ⟨⟨.from_nat 4⟩, ⟨.from_nat 5⟩⟩, fun h => ?_, by decide +kernel⟩
  have hfailure : (get_inner (run (commit_step checksum) .empty (inserted_then_replaced 2000000 1000000)).begin_read
      ⟨⟨.from_nat 4⟩, ⟨.from_nat 5⟩⟩ .new).2.failure = some (.Store .Corruption) := by decide +kernel
  refine get_inner_readable h ⟨?_, ?_⟩ rfl _ hfailure
  · simp [SessionState.new]
  · simp [SessionState.new]

theorem replaced_after_created :
    Readable (run (commit_step checksum) .empty (inserted_then_replaced 1000000 2000000)) := by
  refine (@documents_stay_readable checksum (inserted_then_replaced 1000000 2000000) (show _ ∧ _ ∧ True from
    ⟨?_, ?_, trivial⟩)).1
  · intro _ _ _ _ _ _ _ _ row hrow
    simp [Environment.empty] at hrow
  · intro _ now hnow table_id document_id revision value hmutation row hrow
    cases hnow
    obtain ⟨rfl, rfl, _, _⟩ := DocumentMutation.Upsert.inj (List.mem_singleton.mp hmutation)
    have hcreated : (commit_step checksum .empty (note_call 10 1000000 (.Upsert ⟨.from_nat 4⟩ ⟨.from_nat 5⟩ .Absent
        .Null))).documents[(⟨⟨.from_nat 4⟩, ⟨.from_nat 5⟩⟩ : DocumentKey)]?.all fun row =>
          row.created_at_micros ≤ 2000000 := by decide +kernel
    rw [hrow] at hcreated
    simpa using hcreated

end runku.execution
