import Runku.DataSqlite.Applied

namespace runku.data_sqlite

open runku.core runku.data transaction

/-- The schema's foreign key: a journalled document result belongs to a journalled operation. -/
def Environment.ForeignKey (env : Environment) : Prop :=
  ∀ key ∈ env.commit_document_results, key.operation_id ∈ env.commit_operations

theorem journal_keys (operation_id : OperationId) (ordinal : Nat) (mutations : List DocumentMutation) :
    (journal operation_id ordinal mutations).map Prod.fst =
      (List.range' ordinal mutations.length).map fun i => ⟨operation_id, i⟩ := by
  rw [journal, List.map_map, ← List.zipIdx_map_snd ordinal mutations, List.map_map]
  rfl

theorem operation_id_of_mem_journal_keys {operation_id : OperationId} {ordinal : Nat}
    {mutations : List DocumentMutation} {key : DocumentResultKey}
    (h : key ∈ (journal operation_id ordinal mutations).map Prod.fst) : key.operation_id = operation_id := by
  rw [journal_keys, List.mem_map] at h
  obtain ⟨_, _, rfl⟩ := h
  rfl

theorem journal_keys_sorted (operation_id : OperationId) (ordinal : Nat) (mutations : List DocumentMutation) :
    ((journal operation_id ordinal mutations).map Prod.fst).Pairwise (· < ·) := by
  rw [journal_keys, List.pairwise_map]
  refine (List.pairwise_lt_range' (s := ordinal) (n := mutations.length) 1).imp fun {i j} hij => ?_
  exact Prod.Lex.toLex_lt_toLex.mpr (.inr ⟨rfl, hij⟩)

section
variable {batch : CommitBatch} {digest : Sha256Digest} {now : Int64} {env env' : Environment}

theorem Applied.sequence_eq (h : Applied batch digest now env env') : env'.sequence = env.sequence + 1 := by
  rw [Environment.sequence, h.commit_sequence, Option.getD_some]

theorem Applied.foreignKey (h : Applied batch digest now env env') (hfk : env.ForeignKey) : env'.ForeignKey := by
  intro key hkey
  rw [h.commit_operations, Std.ExtTreeMap.mem_insert]
  by_cases hjournal : key ∈ (journal batch.operation_id 0 batch.documents).map Prod.fst
  · exact .inl (by rw [operation_id_of_mem_journal_keys hjournal]; exact compare_eq_iff_eq.mpr rfl)
  · refine .inr (hfk key ?_)
    rw [Std.ExtTreeMap.mem_iff_isSome_getElem?] at hkey ⊢
    rwa [h.commit_document_results, ordered_map.getElem?_writes_of_notMem hjournal] at hkey

/-- The results of another operation are not touched. -/
theorem Applied.operation_results_other (h : Applied batch digest now env env')
    {operation_id : OperationId} (hne : operation_id ≠ batch.operation_id) :
    env'.operation_results operation_id = env.operation_results operation_id := by
  refine congrArg (List.map Prod.snd) (ordered_map.filter_toList_congr
    (p := fun (key : DocumentResultKey) _ => decide (key.operation_id = operation_id)) fun key => ?_)
  by_cases hkey : key.operation_id = operation_id
  · rw [h.commit_document_results, ordered_map.getElem?_writes_of_notMem]
    exact fun hjournal => hne (hkey.symm.trans (operation_id_of_mem_journal_keys hjournal))
  · cases env'.commit_document_results[key]? <;> cases env.commit_document_results[key]? <;>
      simp [hkey]

/-- The results of the applied operation are journalled in order. -/
theorem Applied.operation_results_self (h : Applied batch digest now env env') (hfk : env.ForeignKey) :
    env'.operation_results batch.operation_id = batch.documents.map document_result := by
  let rows : List (DocumentResultKey × DocumentRevisionResult) :=
    batch.documents.zipIdx.map fun item => (⟨batch.operation_id, item.2⟩, document_result item.1)
  have hkeys : (journal batch.operation_id 0 batch.documents).map Prod.fst = rows.map Prod.fst := by
    simp only [journal, rows, List.map_map]
    rfl
  have hwrite : ∀ row ∈ rows, (row.1, some row.2) ∈ journal batch.operation_id 0 batch.documents := by
    intro row hrow
    obtain ⟨item, hitem, rfl⟩ := List.mem_map.mp hrow
    exact List.mem_map.mpr ⟨item, hitem, rfl⟩
  have hsorted := journal_keys_sorted batch.operation_id 0 batch.documents
  have hrows : (env'.commit_document_results.toList.filter fun row =>
      decide (row.1.operation_id = batch.operation_id)) = rows := by
    refine ordered_map.filter_toList_eq
      (p := fun (key : DocumentResultKey) _ => decide (key.operation_id = batch.operation_id))
      (by rwa [hkeys, List.pairwise_map] at hsorted) fun key result => ?_
    rw [h.commit_document_results]
    constructor
    · intro hmem
      refine ⟨ordered_map.getElem?_writes_of_mem hsorted.nodup (hwrite _ hmem) _, ?_⟩
      exact decide_eq_true (operation_id_of_mem_journal_keys (hkeys ▸ List.mem_map_of_mem hmem))
    · rintro ⟨hlookup, hid⟩
      by_cases hkey : key ∈ rows.map Prod.fst
      · obtain ⟨row, hrow, rfl⟩ := List.mem_map.mp hkey
        have hwritten := ordered_map.getElem?_writes_of_mem hsorted.nodup (hwrite row hrow)
          env.commit_document_results
        rw [hlookup, Option.some.injEq] at hwritten
        rwa [hwritten]
      · -- An unwritten row of this operation would break the foreign key before the commit.
        rw [ordered_map.getElem?_writes_of_notMem (hkeys ▸ hkey)] at hlookup
        have hmem : key ∈ env.commit_document_results := by
          rw [Std.ExtTreeMap.mem_iff_isSome_getElem?, hlookup]
          rfl
        have hoperation := hfk key hmem
        rw [of_decide_eq_true hid, Std.ExtTreeMap.mem_iff_isSome_getElem?, h.fresh] at hoperation
        cases hoperation
  rw [Environment.operation_results, hrows, List.map_map, ← List.zipIdx_map_fst 0 batch.documents,
    List.map_map]
  simp [List.zipIdx_map_fst]

end

variable {sha256 : List UInt8 → Sha256Digest} {batch : CommitBatch}

theorem digest_eq_ok {digest : Sha256Digest} (h : batch.digest sha256 = .ok digest) :
    batch.Valid ∧ ∃ input, batch.digest_input = .ok input ∧ digest = sha256 input := by
  obtain ⟨_, hvalidate, h⟩ := fallible.bind_eq_ok_iff.mp h
  obtain ⟨input, hinput, h⟩ := fallible.bind_eq_ok_iff.mp h
  exact ⟨CommitBatch.valid_of_validate hvalidate, input, hinput, (Except.ok.inj h).symm⟩

/-- A successful call replays a journalled operation, or applies its batch. -/
theorem commit_eq_ok {world : CommitWorld}
    {env env' : Environment} {result : CommitResult} (h : env.commit sha256 world batch = (.ok result, env')) :
    ∃ digest, batch.digest sha256 = .ok digest ∧ ((env' = env ∧ Replayed batch digest env result) ∨
        ∃ now, world.clock = .ok now ∧ Applied batch digest now env env' ∧
          result = ⟨env.sequence + 1, batch.documents.map document_result, false⟩) := by
  unfold Environment.commit at h
  split at h
  · cases h
  · rename_i digest hdigest
    exact ⟨digest, hdigest, apply_commit_runs (digest_eq_ok hdigest).1 (runs_of_transact_eq_ok h)⟩

/-- Whatever a call reports, it left the Environment alone or applied its batch. -/
theorem commit_state (sha256 : List UInt8 → Sha256Digest) (world : CommitWorld) (batch : CommitBatch)
    (env : Environment) : (env.commit sha256 world batch).2 = env ∨
      ∃ digest now, batch.digest sha256 = .ok digest ∧ world.clock = .ok now ∧
        Applied batch digest now env (env.commit sha256 world batch).2 := by
  unfold Environment.commit
  split
  · exact .inl rfl
  · rename_i digest hdigest
    rcases transact_state (apply_commit batch digest world.clock) world.faults world.outcome env with
      h | ⟨result, h⟩
    · exact .inl h
    · rcases apply_commit_runs (digest_eq_ok hdigest).1 h with ⟨heq, _⟩ | ⟨now, hclock, happlied, _⟩
      · exact .inl heq
      · exact .inr ⟨digest, now, hdigest, hclock, happlied⟩

/-- A call in which the backend neither fails a statement nor the final `COMMIT`. -/
def CommitWorld.Healthy (world : CommitWorld) : Prop := world.faults = [] ∧ world.outcome = .Committed

/-- A healthy call for a journalled operation is answered from the journal alone. -/
theorem commit_journalled {world : CommitWorld} (hworld : world.Healthy) {digest : Sha256Digest}
    (hdigest : batch.digest sha256 = .ok digest) {env : Environment} {row : CommitOperationRow}
    (hrow : env.commit_operations[batch.operation_id]? = some row) : env.commit sha256 world batch =
      (if row.batch_digest ≠ digest then .error .OperationIdReused
        else if (env.operation_results batch.operation_id).length ≠ batch.documents.length then .error .Corruption
        else .ok ⟨row.commit_sequence, env.operation_results batch.operation_id, true⟩, env) := by
  obtain ⟨hfaults, houtcome⟩ := hworld
  simp only [Environment.commit, hdigest, hfaults, houtcome, transact, apply_commit, load_operation, select,
    bind_apply, statement_apply_nil, hrow]
  by_cases hmatch : row.batch_digest = digest
  · by_cases hlen : (env.operation_results batch.operation_id).length = batch.documents.length
    · simp [hmatch, hlen, bind_apply, statement_apply_nil, pure]
    · simp [hmatch, hlen, bind_apply, statement_apply_nil, lift]
  · simp [hmatch, lift]

end runku.data_sqlite
