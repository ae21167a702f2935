import Runku.DataSqlite.Journal
import Runku.Execution.Attempt

namespace runku.execution.mutation

open runku.core runku.value runku.data runku.data_sqlite runku.runtime runku.schema fallible
open Std (ExtTreeMap)

section
variable {catalog : SchemaCatalog} {writes : List DocumentMutation}
  {old_values : ExtTreeMap DocumentKey (Option CanonicalValue)} {indexes : List IndexMutation}

variable {mutation : DocumentMutation} {definition : IndexDefinition} {revision : UInt64}

/-- All changes to one index entry belong to one document. -/
theorem identity_of_mem_index_changes {old_key new_key : Option IndexKey} {change : IndexMutation}
    (h : change ∈ index_changes mutation revision definition old_key new_key) :
    change.identity.index_id = definition.index_id ∧ change.identity.document_id = mutation.document_id := by
  unfold index_changes at h
  rcases List.mem_append.mp h with h | h
  · split at h
    · split at h
      · rw [List.mem_singleton.mp h]
        exact ⟨rfl, rfl⟩
      · cases h
    · cases h
  · split at h
    · rw [List.mem_singleton.mp h]
      exact ⟨rfl, rfl⟩
    · cases h

/-- What the plan does to the entries of one document in one index. -/
structure Planned (mutation : DocumentMutation) (old_value : Option CanonicalValue) (definition : IndexDefinition)
    (indexes : List IndexMutation) (revision : UInt64) (new_value : Option CanonicalValue)
    (old_key new_key : Option IndexKey) : Prop where
  written : written_value mutation = .ok (new_value, revision)
  extract_old : extract_key definition old_value = .ok old_key
  extract_new : extract_key definition new_value = .ok new_key
  changes : ∀ change, change.identity.index_id = definition.index_id →
    change.identity.document_id = mutation.document_id →
    (change ∈ indexes ↔ change ∈ index_changes mutation revision definition old_key new_key)

variable {old_value new_value : Option CanonicalValue}

theorem plan_definition_eq_ok {changes : List IndexMutation}
    (h : plan_definition mutation old_value new_value revision definition = .ok changes) :
    ∃ old_key new_key, extract_key definition old_value = .ok old_key ∧
      extract_key definition new_value = .ok new_key ∧
      changes = index_changes mutation revision definition old_key new_key := by
  obtain ⟨old_key, hold, h⟩ := bind_eq_ok_iff.mp h
  obtain ⟨new_key, hnew, h⟩ := bind_eq_ok_iff.mp h
  exact ⟨old_key, new_key, hold, hnew, (Except.ok.inj h).symm⟩

/-- The plan of a document is made of the changes to the indexes of its table. -/
theorem mem_plan_document {changes : List IndexMutation}
    (h : plan_document catalog old_values mutation = .ok changes) :
    ∃ new_value revision, written_value mutation = .ok (new_value, revision) ∧
      (∀ definition ∈ catalog.indexes_for_table mutation.table_id, ∃ planned,
        plan_definition mutation (old_values[mutation.key]?).join new_value revision definition = .ok planned) ∧
      ∀ change, change ∈ changes ↔ ∃ definition ∈ catalog.indexes_for_table mutation.table_id, ∃ planned,
        plan_definition mutation (old_values[mutation.key]?).join new_value revision definition = .ok planned ∧
        change ∈ planned := by
  obtain ⟨⟨new_value, revision⟩, hwritten, h⟩ := bind_eq_ok_iff.mp h
  obtain ⟨plans, hplans, h⟩ := bind_eq_ok_iff.mp h
  cases h
  refine ⟨new_value, revision, hwritten, fun definition hdefinition => ?_, fun change => ?_⟩
  · obtain ⟨changes, _, hchanges⟩ := exists_of_mapM_eq_ok hplans hdefinition
    exact ⟨changes, hchanges⟩
  · exact mem_flatten_of_mapM_eq_ok hplans

/-- The plan has the keys of the old and of the new values. -/
theorem planned_of_plan (h : plan_document_index_mutations catalog writes old_values = .ok indexes)
    (hnodup : (writes.map DocumentMutation.key).Nodup) (hmutation : mutation ∈ writes)
    (hdefinition : definition ∈ catalog.indexes) (htable : definition.table_id = mutation.table_id) :
    ∃ revision new_value old_key new_key,
      Planned mutation (old_values[mutation.key]?).join definition indexes revision new_value old_key new_key := by
  obtain ⟨plans, hplans, _⟩ := bind_eq_ok_iff.mp h
  obtain ⟨changes, _, hchanges⟩ := exists_of_mapM_eq_ok hplans hmutation
  obtain ⟨new_value, revision, hwritten, hall, hmem⟩ := mem_plan_document hchanges
  obtain ⟨planned, hplanned⟩ := hall definition (mem_indexes_for_table.mpr ⟨hdefinition, htable⟩)
  obtain ⟨old_key, new_key, hold, hnew, rfl⟩ := plan_definition_eq_ok hplanned
  refine ⟨revision, new_value, old_key, new_key, hwritten, hold, hnew, fun change hindex hdocument => ?_⟩
  rw [mem_plan_iff h]
  constructor
  · rintro ⟨other, hother, changes', hchanges', hchange⟩
    obtain ⟨new_value', revision', hwritten', _, hmem'⟩ := mem_plan_document hchanges'
    obtain ⟨definition', hdefinition', planned', hplanned', hchange⟩ := (hmem' change).mp hchange
    obtain ⟨hdefinition', htable'⟩ := mem_indexes_for_table.mp hdefinition'
    obtain ⟨old_key', new_key', hold', hnew', rfl⟩ := plan_definition_eq_ok hplanned'
    obtain ⟨hindex', hdocument'⟩ := identity_of_mem_index_changes hchange
    -- The index names its definition, and so the table; with the document that is the write.
    obtain rfl := catalog.eq_of_index_id hdefinition' hdefinition (hindex'.symm.trans hindex)
    have hkey : other.key = mutation.key := by
      rw [DocumentMutation.key, DocumentMutation.key, ← htable', htable, ← hdocument', hdocument]
    obtain rfl := List.inj_on_of_nodup_map hnodup hother hmutation hkey
    obtain ⟨rfl, rfl⟩ := Prod.mk.inj (Except.ok.inj (hwritten'.symm.trans hwritten))
    cases hold'.symm.trans hold
    cases hnew'.symm.trans hnew
    exact hchange
  · intro hchange
    exact ⟨mutation, hmutation, changes, hchanges, (hmem change).mpr
      ⟨definition, mem_indexes_for_table.mpr ⟨hdefinition, htable⟩, _, hplanned, hchange⟩⟩

/-- Without a write to a document, the plan leaves its entries alone. -/
theorem not_mem_plan (h : plan_document_index_mutations catalog writes old_values = .ok indexes)
    (hdefinition : definition ∈ catalog.indexes) {document_id : DocumentId}
    (hkey : (⟨definition.table_id, document_id⟩ : DocumentKey) ∉ writes.map DocumentMutation.key)
    (key_bytes : List UInt8) :
    (⟨definition.index_id, key_bytes, document_id⟩ : IndexEntryKey) ∉ indexes.map IndexMutation.identity := by
  intro hmem
  obtain ⟨change, hchange, hidentity⟩ := List.mem_map.mp hmem
  obtain ⟨mutation, hmutation, changes, hchanges, hchange⟩ := (mem_plan_iff h).mp hchange
  obtain ⟨_, _, _, _, hmem'⟩ := mem_plan_document hchanges
  obtain ⟨definition', hdefinition', planned, hplanned, hchange⟩ := (hmem' change).mp hchange
  obtain ⟨hdefinition', htable⟩ := mem_indexes_for_table.mp hdefinition'
  obtain ⟨_, _, _, _, rfl⟩ := plan_definition_eq_ok hplanned
  obtain ⟨hindex, hdocument⟩ := identity_of_mem_index_changes hchange
  rw [hidentity] at hindex hdocument
  obtain rfl := catalog.eq_of_index_id hdefinition' hdefinition hindex.symm
  refine hkey (List.mem_map.mpr ⟨mutation, hmutation, ?_⟩)
  rw [DocumentMutation.key, htable, ← hdocument]

/-- The new key is put, and the entry of every other key is deleted or left alone. -/
theorem Planned.put_mem {old_key : Option IndexKey} {key : IndexKey}
    (h : Planned mutation old_value definition indexes revision new_value old_key (some key)) :
    .Put definition.index_id key mutation.table_id mutation.document_id revision ∈ indexes := by
  rw [h.changes _ rfl rfl]
  simp [index_changes]

theorem Planned.delete_mem {key : IndexKey} {new_key : Option IndexKey}
    (h : Planned mutation old_value definition indexes revision new_value (some key) new_key)
    (hnew : new_key ≠ some key) : .Delete definition.index_id key mutation.document_id ∈ indexes := by
  rw [h.changes _ rfl rfl]
  simp [index_changes, hnew]

theorem Planned.key_of_mem {old_key new_key : Option IndexKey}
    (h : Planned mutation old_value definition indexes revision new_value old_key new_key) {key_bytes : List UInt8}
    (hmem : (⟨definition.index_id, key_bytes, mutation.document_id⟩ : IndexEntryKey) ∈
      indexes.map IndexMutation.identity) :
    (old_key.map IndexKey.as_bytes = some key_bytes) ∨ new_key.map IndexKey.as_bytes = some key_bytes := by
  obtain ⟨change, hchange, hidentity⟩ := List.mem_map.mp hmem
  rw [h.changes change (by rw [hidentity]) (by rw [hidentity])] at hchange
  unfold index_changes at hchange
  rcases List.mem_append.mp hchange with hdelete | hput
  · split at hdelete
    · split at hdelete
      · rw [List.mem_singleton.mp hdelete] at hidentity
        exact .inl (congrArg some (IndexEntryKey.mk.inj hidentity).2.1)
      · cases hdelete
    · cases hdelete
  · split at hput
    · rw [List.mem_singleton.mp hput] at hidentity
      exact .inr (congrArg some (IndexEntryKey.mk.inj hidentity).2.1)
    · cases hput

end

/-- The entries of an index are exactly the keys of its table's documents, with their revisions. -/
def Indexed (definition : IndexDefinition) (env : Environment) : Prop :=
  ∀ (key_bytes : List UInt8) (document_id : DocumentId) (entry : IndexEntryRow),
    env.index_entries[(⟨definition.index_id, key_bytes, document_id⟩ : IndexEntryKey)]? = some entry ↔
      ∃ row key, env.documents[(⟨definition.table_id, document_id⟩ : DocumentKey)]? = some row ∧
        entry = ⟨definition.table_id, row.revision, row.commit_sequence⟩ ∧
        extract_index_key definition row.value = .ok (some key) ∧ key.as_bytes = key_bytes

/-- A batch whose index changes were planned from the values that its writes replace. -/
def PlannedFor (catalog : SchemaCatalog) (env : Environment) (batch : CommitBatch) : Prop :=
  ∃ old_values, plan_document_index_mutations catalog batch.documents old_values = .ok batch.indexes ∧
    ∀ mutation ∈ batch.documents,
      (old_values[mutation.key]?).join = (env.documents[mutation.key]?).map DocumentRow.value

/-- The row a write leaves has the value and the revision that the planner used. -/
theorem written_row {sequence : Nat} {now : Int64} {mutation : DocumentMutation} {before after : Option DocumentRow}
    (h : DocumentApplies sequence now mutation before after) {new_value : Option CanonicalValue} {revision : UInt64}
    (hwritten : written_value mutation = .ok (new_value, revision)) : after.map DocumentRow.value = new_value ∧
      ∀ row ∈ after, row.revision.to_u64 = revision ∧ row.commit_sequence = sequence := by
  cases mutation with
  | Upsert table_id document_id expected value =>
    cases expected with
    | Absent =>
      obtain ⟨_, rfl⟩ := h
      cases hwritten
      refine ⟨rfl, fun row hrow => ?_⟩
      cases hrow
      exact ⟨rfl, rfl⟩
    | Exact expected =>
      obtain ⟨row, next, _, hrevision, hnext, rfl⟩ := h
      simp only [written_value, ExpectedRevision.next, checked_succ] at hwritten
      split at hwritten
      · rename_i revision' hsucc
        cases hwritten
        split at hsucc
        · rename_i hlt
          cases hsucc
          refine ⟨rfl, fun row' hrow' => ?_⟩
          cases hrow'
          refine ⟨?_, rfl⟩
          rw [← UInt64.toNat_inj, PositiveI64.toNat_to_u64]
          rw [UInt64.toNat_add, ← hrevision, PositiveI64.toNat_to_u64] at *
          change next.val = _
          rw [hnext]
          exact (Nat.mod_eq_of_lt hlt).symm
        · cases hsucc
      · cases hwritten
  | Delete table_id document_id expected =>
    obtain ⟨_, _, _, rfl⟩ := h
    cases hwritten
    exact ⟨rfl, nofun⟩

variable {definition : IndexDefinition}

theorem extract_key_some_iff {value : CanonicalValue} {key : Option IndexKey} :
    extract_key definition (some value) = .ok key ↔ extract_index_key definition value = .ok key := by
  unfold extract_key
  dsimp only
  split <;> simp_all

section
variable {catalog : SchemaCatalog} {definition : IndexDefinition} {batch : CommitBatch} {digest : Sha256Digest}
  {now : Int64} {env env' : Environment}

/-- The entries of a document that a commit writes. -/
theorem indexed_of_written (happlied : Applied batch digest now env env') (hindexed : Indexed definition env)
    {mutation : DocumentMutation} (hmutation : mutation ∈ batch.documents)
    (htable : definition.table_id = mutation.table_id) {old_value new_value : Option CanonicalValue}
    {revision : UInt64} {old_key new_key : Option IndexKey}
    (hold : old_value = (env.documents[mutation.key]?).map DocumentRow.value)
    (hplanned : Planned mutation old_value definition batch.indexes revision new_value old_key new_key)
    (key_bytes : List UInt8) (entry : IndexEntryRow) :
    env'.index_entries[(⟨definition.index_id, key_bytes, mutation.document_id⟩ : IndexEntryKey)]? = some entry ↔
      ∃ row key, env'.documents[mutation.key]? = some row ∧
        entry = ⟨definition.table_id, row.revision, row.commit_sequence⟩ ∧
        extract_index_key definition row.value = .ok (some key) ∧ key.as_bytes = key_bytes := by
  obtain ⟨hvalue, hwritten⟩ := written_row (happlied.document mutation hmutation) hplanned.written
  have hextract {row : DocumentRow} (hrow : env'.documents[mutation.key]? = some row) :
      extract_index_key definition row.value = .ok new_key := by
    rw [← extract_key_some_iff, ← hplanned.extract_new, ← hvalue, hrow, Option.map_some]
  by_cases hput : new_key.map IndexKey.as_bytes = some key_bytes
  · -- The new key is put with the revision that the write leaves.
    obtain ⟨key, rfl, rfl⟩ := Option.map_eq_some_iff.mp hput
    obtain ⟨row, hrow, hrevision, hentry⟩ := happlied.index _ hplanned.put_mem
    have hsequence := (hwritten row hrow).2
    change env'.index_entries[(⟨definition.index_id, key.as_bytes, mutation.document_id⟩ : IndexEntryKey)]? =
      _ at hentry
    rw [hentry]
    constructor
    · intro h
      cases h
      exact ⟨row, key, hrow, by rw [htable, hsequence], hextract hrow, rfl⟩
    · rintro ⟨row', key', hrow', rfl, _, _⟩
      cases hrow.symm.trans hrow'
      rw [htable, hsequence]
  · -- No document of the table has this key any more.
    refine iff_of_false (fun hentry => ?_) ?_
    · by_cases hdelete : old_key.map IndexKey.as_bytes = some key_bytes
      · obtain ⟨key, rfl, rfl⟩ := Option.map_eq_some_iff.mp hdelete
        have hgone := happlied.index _ (hplanned.delete_mem (by rintro rfl; exact hput rfl))
        exact Option.some_ne_none entry (hentry.symm.trans hgone)
      · rw [happlied.other_index _ (fun hmem => (hplanned.key_of_mem hmem).elim hdelete hput)] at hentry
        obtain ⟨row, key, hrow, _, hkey, rfl⟩ := (hindexed _ _ _).mp hentry
        rw [htable] at hrow
        have hextract_old : old_key = some key := by
          refine Except.ok.inj (hplanned.extract_old.symm.trans ?_)
          rw [hold, show env.documents[mutation.key]? = some row from hrow, Option.map_some, extract_key_some_iff,
            hkey]
        exact hdelete (by rw [hextract_old]; rfl)
    · rintro ⟨row, key, hrow, _, hkey, rfl⟩
      cases (hextract hrow).symm.trans hkey
      exact hput rfl

/-- A commit of a planned batch keeps every index of the catalog consistent. -/
theorem Indexed.applied (hindexed : Indexed definition env) (hdefinition : definition ∈ catalog.indexes)
    (hvalid : batch.Valid) (hplan : PlannedFor catalog env batch) (happlied : Applied batch digest now env env') :
    Indexed definition env' := by
  obtain ⟨old_values, hplan, hold⟩ := hplan
  intro key_bytes document_id entry
  by_cases hwritten : (⟨definition.table_id, document_id⟩ : DocumentKey) ∈
      batch.documents.map DocumentMutation.key
  · obtain ⟨mutation, hmutation, hkey⟩ := List.mem_map.mp hwritten
    obtain ⟨htable, rfl⟩ := DocumentKey.mk.inj hkey
    obtain ⟨revision, new_value, old_key, new_key, hplanned⟩ :=
      planned_of_plan hplan hvalid.documents_nodup hmutation hdefinition htable.symm
    rw [show (⟨definition.table_id, mutation.document_id⟩ : DocumentKey) = mutation.key from hkey.symm]
    exact indexed_of_written happlied hindexed hmutation htable.symm (hold mutation hmutation) hplanned
      key_bytes entry
  · rw [happlied.other_index _ (not_mem_plan hplan hdefinition hwritten key_bytes),
      happlied.other_document _ hwritten]
    exact hindexed key_bytes document_id entry

end

section
variable {executor : MutationExecutor} {request : InvocationRequest} {operation_id : OperationId}
  {schedule_base : TimestampMicros} {value : CanonicalValue} {batch : CommitBatch} {state : MutationState}
  {buffered : BufferedMutation} {reads : ExtTreeMap DocumentKey (Option DataDocument)}

/-- A session that finished knows the value that each of its writes replaces. -/
theorem Attempted.old_value {env env' : Environment} {digest : Sha256Digest} {now : Int64}
    (h : Attempted executor request operation_id schedule_base (.ok env.begin_read) value (some batch) state buffered
      reads) (happlied : Applied batch digest now env env') {mutation : DocumentMutation}
    (hmutation : mutation ∈ batch.documents) (hwrite : state.writes[mutation.key]? = some mutation) :
    (buffered.old_values[mutation.key]?).join = (env.documents[mutation.key]?).map DocumentRow.value := by
  rw [h.finished.buffered]
  dsimp only
  rw [Std.ExtTreeMap.getElem?_map]
  cases hread : reads[mutation.key]? with
  | some observed =>
    rw [((agrees_begin_read_iff rfl).mp h.finished.agrees _ _ hread).1]
    simp only [Environment.data_document, Option.map_some, Option.join_some, Option.map_map]
    rfl
  | none =>
    -- Only an insert leaves its base unread, and it is applied where there is no document.
    have hbase : needs_old mutation = false := by
      by_contra hneeds
      have hmem := h.finished.bases _ _ hwrite (Bool.not_eq_false _ ▸ hneeds)
      rw [Std.ExtTreeMap.mem_iff_isSome_getElem?, hread] at hmem
      cases hmem
    have happlies := happlied.document mutation hmutation
    cases mutation with
    | Upsert _ _ expected _ =>
      cases expected with
      | Absent => rw [happlies.1]; rfl
      | Exact => cases hbase
    | Delete => cases hbase

theorem Attempted.plannedFor {catalog : SchemaCatalog} (hschema : executor.schema = some catalog)
    {env env' : Environment} {digest : Sha256Digest} {now : Int64}
    (h : Attempted executor request operation_id schedule_base (.ok env.begin_read) value (some batch) state buffered
      reads) (happlied : Applied batch digest now env env') : PlannedFor catalog env batch := by
  obtain ⟨indexes, hindexes, hbatch⟩ := buffered_batch_eq_ok h.batch
  obtain ⟨_, hfields⟩ := mutation_batch_eq_ok hbatch
  have hdocuments : batch.documents = state.writes.toList.map Prod.snd := by rw [hfields, h.finished.buffered]
  rw [hschema] at hindexes
  refine ⟨buffered.old_values, ?_, fun mutation hmutation => ?_⟩
  · rw [hdocuments, show batch.indexes = indexes by rw [hfields]]
    rw [plan_indexes, h.finished.buffered] at hindexes
    rw [h.finished.buffered]
    exact hindexes
  · have hwrite : state.writes[mutation.key]? = some mutation := by
      rw [hdocuments] at hmutation
      obtain ⟨⟨key, _⟩, hkey, rfl⟩ := List.mem_map.mp hmutation
      rw [Std.ExtTreeMap.mem_toList_iff_getElem?_eq_some] at hkey
      rwa [h.filed.2 key _ hkey]
    exact h.old_value happlied hmutation hwrite

end

/-- A Mutation that runs on the state it commits on. -/
structure MutationCall where
  request : InvocationRequest
  operation_id : OperationId
  world : CommitWorld

/-- One Mutation without commits of others between its snapshot and its commit. -/
def Environment.mutate (executor : MutationExecutor) (env : Environment) (call : MutationCall) : Environment :=
  match executor.prepare call.request call.operation_id with
  | .error _ => env
  | .ok schedule_base =>
    match executor.attempt call.request call.operation_id schedule_base (.ok env.begin_read) with
    | .ok (_, some batch) => (env.commit executor.sha256 call.world batch).2
    | .ok (_, none) | .error _ => env

/-- A Mutation leaves the Environment alone or applies a batch planned for it. -/
theorem mutate_cases (executor : MutationExecutor) {catalog : SchemaCatalog}
    (hschema : executor.schema = some catalog) (env : Environment) (call : MutationCall) :
    Environment.mutate executor env call = env ∨ ∃ batch digest now, batch.Valid ∧ PlannedFor catalog env batch ∧
      Applied batch digest now env (Environment.mutate executor env call) := by
  unfold Environment.mutate
  split
  · exact .inl rfl
  · split
    · rename_i batch hattempt
      obtain ⟨state, buffered, reads, hattempted⟩ := attempt_eq_ok hattempt
      rcases commit_state executor.sha256 call.world batch env with h | ⟨digest, now, hdigest, _, happlied⟩
      · exact .inl h
      · exact .inr ⟨batch, digest, now, (digest_eq_ok hdigest).1, hattempted.plannedFor hschema happlied, happlied⟩
    · exact .inl rfl
    · exact .inl rfl

/-- Every run of Mutations keeps the indexes exact. -/
theorem run_indexed {executor : MutationExecutor} {catalog : SchemaCatalog} (hschema : executor.schema = some catalog)
    (hdefinition : definition ∈ catalog.indexes) (calls : List MutationCall) :
    Indexed definition (calls.foldl (Environment.mutate executor) .empty) := by
  induction calls using List.reverseRecOn with
  | nil =>
    intro key_bytes document_id entry
    refine iff_of_false (fun h => ?_) (fun ⟨row, _, h, _⟩ => ?_)
    all_goals
      rw [List.foldl_nil, Environment.empty, Std.ExtTreeMap.getElem?_empty] at h
      cases h
  | append_singleton calls call ih =>
    rw [List.foldl_append, List.foldl_cons, List.foldl_nil]
    rcases mutate_cases executor hschema (calls.foldl (Environment.mutate executor) .empty) call with
      h | ⟨batch, digest, now, hvalid, hplan, happlied⟩
    · rwa [h]
    · exact ih.applied hdefinition hvalid hplan happlied

/-- The entries stored under an index: key, document and revision. -/
def index_triples (definition : IndexDefinition) (env : Environment) : List (List UInt8 × DocumentId × UInt64) :=
  (env.index_entries.toList.filter fun row => row.1.index_id = definition.index_id).map fun row =>
    (row.1.key_bytes, row.1.document_id, row.2.document_revision.to_u64)

theorem mem_index_triples {env : Environment} {key_bytes : List UInt8}
    {document_id : DocumentId} {revision : UInt64} :
    (key_bytes, document_id, revision) ∈ index_triples definition env ↔ ∃ entry,
      env.index_entries[(⟨definition.index_id, key_bytes, document_id⟩ : IndexEntryKey)]? = some entry ∧
        entry.document_revision.to_u64 = revision := by
  simp only [index_triples, List.mem_map, List.mem_filter, decide_eq_true_eq, Prod.mk.injEq]
  constructor
  · rintro ⟨⟨⟨_, _, _⟩, entry⟩, ⟨hentry, rfl⟩, rfl, rfl, hrevision⟩
    exact ⟨entry, Std.ExtTreeMap.mem_toList_iff_getElem?_eq_some.mp hentry, hrevision⟩
  · rintro ⟨entry, hentry, hrevision⟩
    exact ⟨(⟨definition.index_id, key_bytes, document_id⟩, entry),
      ⟨Std.ExtTreeMap.mem_toList_iff_getElem?_eq_some.mpr hentry, rfl⟩, rfl, rfl, hrevision⟩

/-- After every run of Mutations an index holds the key of each current document of its table that has
one, at the document's revision, once, and nothing else. -/
theorem index_consistent {executor : MutationExecutor} {catalog : SchemaCatalog}
    (hschema : executor.schema = some catalog) {definition : IndexDefinition}
    (hdefinition : definition ∈ catalog.indexes) (calls : List MutationCall) :
    let env := calls.foldl (Environment.mutate executor) .empty
    ((index_triples definition env).map fun triple => (triple.1, triple.2.1)).Nodup ∧
      ∀ (key_bytes : List UInt8) (document_id : DocumentId) (revision : UInt64),
        (key_bytes, document_id, revision) ∈ index_triples definition env ↔
          ∃ row key, env.documents[(⟨definition.table_id, document_id⟩ : DocumentKey)]? = some row ∧
            row.revision.to_u64 = revision ∧ extract_index_key definition row.value = .ok (some key) ∧
            key.as_bytes = key_bytes := by
  intro env
  have hindexed : Indexed definition env := run_indexed hschema hdefinition calls
  constructor
  · rw [index_triples, List.map_map]
    have hkeys : ((env.index_entries.toList.filter fun row =>
        row.1.index_id = definition.index_id).map Prod.fst).Nodup := by
      refine List.Nodup.sublist (List.Sublist.map Prod.fst List.filter_sublist) ?_
      rw [Std.ExtTreeMap.map_fst_toList_eq_keys]
      exact Std.ExtTreeMap.nodup_keys
    refine List.Nodup.map_on (fun row hrow row' hrow' heq => ?_) hkeys.of_map
    obtain ⟨hkey, hdocument⟩ := Prod.mk.inj heq
    have hindex := (List.mem_filter.mp hrow).2
    have hindex' := (List.mem_filter.mp hrow').2
    refine List.inj_on_of_nodup_map hkeys hrow hrow' ?_
    rw [IndexEntryKey.ext_iff]
    exact ⟨(of_decide_eq_true hindex).trans (of_decide_eq_true hindex').symm, hkey, hdocument⟩
  · intro key_bytes document_id revision
    rw [mem_index_triples]
    constructor
    · rintro ⟨entry, hentry, rfl⟩
      obtain ⟨row, key, hrow, rfl, hkey, hbytes⟩ := (hindexed key_bytes document_id entry).mp hentry
      exact ⟨row, key, hrow, rfl, hkey, hbytes⟩
    · rintro ⟨row, key, hrow, rfl, hkey, hbytes⟩
      exact ⟨_, (hindexed key_bytes document_id _).mpr ⟨row, key, hrow, rfl, hkey, hbytes⟩, rfl⟩

/-- An index over one property of the documents of a table. -/
def email_index : IndexDefinition where
  index_id := ⟨.from_nat 8⟩
  table_id := ⟨.from_nat 4⟩
  name := "by_email"
  fields := [⟨["email"], by decide⟩]
  valid := by decide

def email_catalog : SchemaCatalog where
  project_id := ⟨.from_nat 1⟩
  indexes := [email_index]
  digest := Vector.replicate 32 0
  within_limit := by decide
  sorted := List.pairwise_singleton _ _
  ids_nodup := List.nodup_singleton _
  names_nodup := List.nodup_singleton _

/-- Inserts a document, moves its key and adds a document without the property. -/
def email_calls : List MutationCall :=
  [⟨mutation_request (write_code (.Insert ⟨.from_nat 4⟩ ⟨.from_nat 5⟩ (.Object [("email", .String "a")]))),
      ⟨.from_nat 10⟩, ⟨.ok 0, [], .Committed⟩⟩,
    ⟨mutation_request (write_code (.Replace ⟨.from_nat 4⟩ ⟨.from_nat 5⟩ 1 (.Object [("email", .String "b")]))),
      ⟨.from_nat 11⟩, ⟨.ok 0, [], .Committed⟩⟩,
    ⟨mutation_request (write_code (.Insert ⟨.from_nat 4⟩ ⟨.from_nat 9⟩ (.Object []))), ⟨.from_nat 12⟩,
      ⟨.ok 0, [], .Committed⟩⟩]

theorem index_consistent_email :
    (∀ key_bytes document_id revision, (key_bytes, document_id, revision) ∈ index_triples email_index
      (email_calls.foldl (Environment.mutate ⟨checksum, some email_catalog⟩) .empty) →
        ∃ row key, (email_calls.foldl (Environment.mutate ⟨checksum, some email_catalog⟩)
          .empty).documents[(⟨email_index.table_id, document_id⟩ : DocumentKey)]? = some row ∧
            row.revision.to_u64 = revision ∧ extract_index_key email_index row.value = .ok (some key) ∧
            key.as_bytes = key_bytes) ∧
      (index_triples email_index (email_calls.foldl (Environment.mutate ⟨checksum, some email_catalog⟩)
        .empty)).length = 1 :=
  ⟨fun key_bytes document_id revision => ((index_consistent rfl (List.mem_singleton.mpr rfl) email_calls).2
    key_bytes document_id revision).mp, by decide +kernel⟩

end runku.execution.mutation
