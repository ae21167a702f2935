import Runku.DataSqlite.Journal
import Runku.Execution.Dependencies
import Runku.Execution.Plan
import Runku.DataSqlite.Snapshot
import Runku.Realtime.Impact

namespace runku.realtime

open runku.core runku.value runku.data runku.data_sqlite runku.execution runku.execution.mutation

def document_impact_kind : DocumentMutation → DocumentImpactKind
  | .Upsert _ _ .Absent _ => .Insert
  | .Upsert _ _ (.Exact _) _ => .Replace
  | .Delete .. => .Delete

/-- What the event says about a write. -/
def document_impact (mutation : DocumentMutation) : DocumentImpact :=
  ⟨mutation.table_id, mutation.document_id, document_impact_kind mutation⟩

/-- What the event says about an index change. -/
def index_impact_of : IndexMutation → IndexImpact
  | .Put index_id key _ document_id _ => ⟨index_id, key, document_id, .Put⟩
  | .Delete index_id key document_id => ⟨index_id, key, document_id, .Delete⟩

theorem parse_id_to_string {PREFIX : String} (id : ResourceId PREFIX) : parse_id id.to_string = .ok id := by
  rw [parse_id, ResourceId.from_str_to_string]

/-- The fields that identify a decoded write. -/
theorem decode_document_impact_eq {value : CanonicalValue} {object : Fields} {table_id : TableId}
    {document_id : DocumentId} {kind : String} {impact_kind : DocumentImpactKind}
    (hobject : exact_object value ["documentId", "kind", "tableId"] = .ok object)
    (htable : Fields.get object "tableId" = some (.String table_id.to_string))
    (hdocument : Fields.get object "documentId" = some (.String document_id.to_string))
    (hkind : Fields.get object "kind" = some (.String kind)) (hdecode : decode_document_kind kind = .ok impact_kind) :
    decode_document_impact value = .ok ⟨table_id, document_id, impact_kind⟩ := by
  simp only [decode_document_impact, hobject, htable, hdocument, hkind, string, fallible.ok_bind,
    parse_id_to_string, hdecode, fallible.pure_eq_ok]

theorem decode_write_impact (mutation : DocumentMutation) :
    decode_document_impact (write_impact mutation) = .ok (document_impact mutation) := by
  refine decode_document_impact_eq (by rfl) (by rfl) (by rfl) (by rfl) ?_
  cases mutation with
  | Upsert table_id document_id expected value => cases expected <;> rfl
  | Delete table_id document_id expected_revision => rfl

theorem decode_index_impact_eq {value : CanonicalValue} {object : Fields} {index_id : IndexId} {key : IndexKey}
    {document_id : DocumentId} {kind : String} {impact_kind : IndexImpactKind}
    (hobject : exact_object value ["documentId", "indexId", "key", "kind"] = .ok object)
    (hindex : Fields.get object "indexId" = some (.String index_id.to_string))
    (hdocument : Fields.get object "documentId" = some (.String document_id.to_string))
    (hkey : Fields.get object "key" = some (.Bytes key.as_bytes))
    (hkind : Fields.get object "kind" = some (.String kind)) (hdecode : decode_index_kind kind = .ok impact_kind) :
    decode_index_impact value = .ok ⟨index_id, key, document_id, impact_kind⟩ := by
  simp only [decode_index_impact, hobject, hindex, hdocument, hkey, hkind, string, bytes, fallible.ok_bind,
    parse_id_to_string, decode_index_key, IndexKey.decode_as_bytes, hdecode, fallible.pure_eq_ok]

theorem decode_index_impact_of (mutation : IndexMutation) :
    decode_index_impact (index_impact mutation) = .ok (index_impact_of mutation) := by
  cases mutation <;> exact decode_index_impact_eq (by rfl) (by rfl) (by rfl) (by rfl) (by rfl) (by rfl)

/-- Impacts with distinct identities decode one by one. -/
theorem decode_unique_map {α β κ : Type} [DecidableEq κ] {decode : CanonicalValue → Except RealtimeError α}
    {identity : α → κ} {encode : β → CanonicalValue} {impact : β → α}
    (hdecode : ∀ item, decode (encode item) = .ok (impact item)) {items : List β}
    (hnodup : (items.map fun item => identity (impact item)).Nodup) {seen : List κ}
    (hseen : ∀ item ∈ items, identity (impact item) ∉ seen) :
    decode_unique decode identity seen (items.map encode) = .ok (items.map impact) := by
  induction items generalizing seen with
  | nil => rfl
  | cons item items ih =>
    rw [List.map_cons, List.nodup_cons] at hnodup
    rw [List.forall_mem_cons] at hseen
    have hrest := @ih hnodup.2 (identity (impact item) :: seen) (fun other hother => by
      rw [List.mem_cons, not_or]
      exact ⟨fun heq => hnodup.1 (List.mem_map.mpr ⟨other, hother, heq⟩), hseen.2 other hother⟩)
    rw [List.map_cons, decode_unique, hdecode, fallible.ok_bind, if_neg hseen.1, hrest]
    rfl

theorem index_impact_identity (mutation : IndexMutation) :
    (⟨(index_impact_of mutation).index_id, (index_impact_of mutation).key.as_bytes,
      (index_impact_of mutation).document_id⟩ : IndexEntryKey) = mutation.identity := by
  cases mutation <;> rfl

theorem decode_writes {documents : List DocumentMutation} (hnodup : (documents.map DocumentMutation.key).Nodup) :
    decode_unique decode_document_impact (fun impact => (impact.table_id, impact.document_id)) []
      (documents.map write_impact) = .ok (documents.map document_impact) := by
  refine decode_unique_map decode_write_impact ?_ (fun _ _ => List.not_mem_nil)
  refine List.Nodup.of_map (fun identity => (⟨identity.1, identity.2⟩ : DocumentKey)) ?_
  rw [List.map_map]
  exact hnodup

theorem decode_indexes {indexes : List IndexMutation} (hnodup : (indexes.map IndexMutation.identity).Nodup) :
    decode_unique decode_index_impact
      (fun impact => (impact.index_id, impact.key.as_bytes, impact.document_id, impact.kind)) []
      (indexes.map index_impact) = .ok (indexes.map index_impact_of) := by
  refine decode_unique_map decode_index_impact_of ?_ (fun _ _ => List.not_mem_nil)
  refine List.Nodup.of_map (fun identity => (⟨identity.1, identity.2.1, identity.2.2.1⟩ : IndexEntryKey)) ?_
  rw [List.map_map]
  exact List.map_congr_left (fun mutation _ => index_impact_identity mutation) ▸ hnodup

/-- The event of a batch decodes to what the batch does. -/
theorem decode_document_write_set_payload {batch : CommitBatch} (hvalid : batch.Valid) :
    ChangeImpact.decode (document_write_set_payload batch.documents batch.indexes) =
      .ok ⟨batch.documents.map document_impact, batch.indexes.map index_impact_of⟩ := by
  have hlimits := hvalid.within_limits
  simp only [CommitBatch.exceeds_limits, CommitLimits.V1, Bool.or_eq_false_iff] at hlimits
  obtain ⟨⟨⟨⟨⟨_, hdocuments⟩, hindexes⟩, _⟩, _⟩, _⟩ := hlimits
  have hroom : ¬((batch.documents.map write_impact).length > MAX_DOCUMENT_IMPACTS ∨
      (batch.indexes.map index_impact).length > MAX_INDEX_IMPACTS) := by
    rw [List.length_map, List.length_map, not_or]
    exact ⟨of_decide_eq_false hdocuments, of_decide_eq_false hindexes⟩
  have hobject : exact_object (document_write_set_payload batch.documents batch.indexes)
      ["indexes", "type", "writes"] = .ok [("indexes", .Array (batch.indexes.map index_impact)),
        ("type", .String "document_write_set_v2"), ("writes", .Array (batch.documents.map write_impact))] := by
    rfl
  have htype : string (Fields.get [("indexes", .Array (batch.indexes.map index_impact)),
        ("type", .String "document_write_set_v2"), ("writes", .Array (batch.documents.map write_impact))] "type") =
      .ok "document_write_set_v2" := by rfl
  have hwrites : array (Fields.get [("indexes", .Array (batch.indexes.map index_impact)),
        ("type", .String "document_write_set_v2"), ("writes", .Array (batch.documents.map write_impact))] "writes") =
      .ok (batch.documents.map write_impact) := by rfl
  have hvalues : array (Fields.get [("indexes", .Array (batch.indexes.map index_impact)),
        ("type", .String "document_write_set_v2"), ("writes", .Array (batch.documents.map write_impact))] "indexes") =
      .ok (batch.indexes.map index_impact) := by rfl
  simp only [ChangeImpact.decode, hobject, htype, hwrites, hvalues, fallible.ok_bind, if_neg hroom,
    decode_writes hvalid.documents_nodup, decode_indexes hvalid.indexes_nodup, fallible.pure_eq_ok, ne_eq,
    not_true_eq_false, if_false]

section
variable {batch : CommitBatch} {digest : Sha256Digest} {now : Int64} {env env' : Environment}

theorem not_written_of_not_touched {documents : List DocumentMutation} {indexes : List IndexImpact}
    {table_id : TableId} {document_id : DocumentId} {revision : Option UInt64} {sequence : Nat}
    (h : (⟨documents.map document_impact, indexes⟩ : ChangeImpact).touches
      (.Point table_id document_id revision sequence) = false) :
    (⟨table_id, document_id⟩ : DocumentKey) ∉ documents.map DocumentMutation.key := by
  intro hmem
  obtain ⟨mutation, hmutation, hkey⟩ := List.mem_map.mp hmem
  cases hkey
  refine Bool.false_ne_true (h.symm.trans ?_)
  rw [ChangeImpact.touches, List.any_map, List.any_eq_true]
  exact ⟨mutation, hmutation, by simp [document_impact]⟩

theorem out_of_bounds_of_not_touched {documents : List DocumentImpact} {indexes : List IndexMutation}
    {index_id : IndexId} {lower upper : DependencyBound} {sequence : Nat}
    (h : (⟨documents, indexes.map index_impact_of⟩ : ChangeImpact).touches
      (.Range index_id lower upper sequence) = false) {key : IndexEntryKey}
    (hkey : key ∈ indexes.map IndexMutation.identity) (hindex : key.index_id = index_id) :
    key_in_bounds key.key_bytes lower upper = false := by
  obtain ⟨mutation, hmutation, rfl⟩ := List.mem_map.mp hkey
  rw [ChangeImpact.touches, List.any_map, List.any_eq_false] at h
  rw [← index_impact_identity mutation] at hindex ⊢
  have hout : (index_impact_of mutation).index_id = index_id →
      key_in_bounds (index_impact_of mutation).key.as_bytes lower upper = false := by
    simpa using h mutation hmutation
  exact hout hindex

theorem push_range_key_bound (lower upper : DependencyBound) (key_bytes : List UInt8) :
    push_range ⟨lower.key_bound, upper.key_bound⟩ key_bytes = key_in_bounds key_bytes lower upper := by
  cases lower <;> cases upper <;> rfl

/-- A commit leaves every read alone that its event does not touch. -/
theorem same_of_not_touched (happlied : Applied batch digest now env env') {dependency : ReadDependency}
    (h : (⟨batch.documents.map document_impact, batch.indexes.map index_impact_of⟩ : ChangeImpact).touches
      dependency = false) : dependency.Same env.begin_read env'.begin_read := by
  cases dependency with
  | Point table_id document_id revision sequence =>
    change env'.get_document table_id document_id = env.get_document table_id document_id
    rw [Environment.get_document, Environment.get_document,
      happlied.other_document _ (not_written_of_not_touched h)]
  | Range index_id lower upper sequence =>
    intro limit
    change env'.scan_index index_id _ limit = env.scan_index index_id _ limit
    have hrows : env'.scan_rows index_id ⟨lower.key_bound, upper.key_bound⟩ limit =
        env.scan_rows index_id ⟨lower.key_bound, upper.key_bound⟩ limit := by
      refine congrArg (List.take limit) (@ordered_map.filter_toList_congr _ _ _ env'.index_entries env.index_entries
        (fun key _ => key.index_id = index_id && push_range ⟨lower.key_bound, upper.key_bound⟩ key.key_bytes)
        fun key => ?_)
      by_cases hkey : key ∈ batch.indexes.map IndexMutation.identity
      · -- A changed entry lies outside the range, before and after.
        by_cases hindex : key.index_id = index_id
        · have hout := out_of_bounds_of_not_touched h hkey hindex
          cases env'.index_entries[key]? <;> cases env.index_entries[key]? <;> simp [push_range_key_bound, hout]
        · simp [hindex]
      · rw [happlied.other_index key hkey]
    rw [Environment.scan_index, Environment.scan_index, hrows]

theorem same_of_not_invalidated (happlied : Applied batch digest now env env') {dependencies : List ReadDependency}
    (h : (⟨batch.documents.map document_impact, batch.indexes.map index_impact_of⟩ : ChangeImpact).invalidates
      dependencies = false) : ∀ dependency ∈ dependencies, dependency.Same env.begin_read env'.begin_read := by
  intro dependency hdependency
  refine same_of_not_touched happlied ?_
  rw [ChangeImpact.invalidates, List.any_eq_false] at h
  exact Bool.eq_false_of_not_eq_true (h dependency hdependency)

end

/-- The event of a batch decodes, and a Query whose recorded dependencies it does not invalidate reads
the same documents and the same ranges after the commit, and returns the same. -/
theorem unmatched_unchanged {scope : EnvironmentScope} {operation_id : OperationId} {event_id : OutboxEventId}
    {reads : List DocumentReadAssertion} {documents : List DocumentMutation} {indexes : List IndexMutation}
    {schedules : List ScheduledInvocationInsert} {batch : CommitBatch}
    (hbatch : mutation_batch scope operation_id event_id reads documents indexes schedules = .ok batch)
    (sha256 : List UInt8 → Sha256Digest) (world : CommitWorld) (env : Environment) :
    let env' := (env.commit sha256 world batch).2
    ∃ impact, ChangeImpact.decode (document_write_set_payload batch.documents batch.indexes) = .ok impact ∧
      ∀ query : Query,
        let session := (query.run (serve_query env.begin_read) .new).2
        impact.invalidates session.dependencies = false →
          (∀ dependency ∈ session.dependencies, dependency.Same env.begin_read env'.begin_read) ∧
          (session.failure = none →
            (QueryExecutor.execute query env'.begin_read).map QueryOutcome.value =
              (QueryExecutor.execute query env.begin_read).map QueryOutcome.value) := by
  intro env'
  have hvalid := CommitBatch.valid_of_validate (mutation_batch_eq_ok hbatch).1
  refine ⟨_, decode_document_write_set_payload hvalid, fun query hunmatched => ?_⟩
  obtain ⟨hsame, hle⟩ : (∀ dependency ∈ (query.run (serve_query env.begin_read) .new).2.dependencies,
      dependency.Same env.begin_read env'.begin_read) ∧ env.sequence ≤ env'.sequence := by
    rcases commit_state sha256 world batch env with heq | ⟨digest, now, _, _, happlied⟩
    · rw [show env' = env from heq]
      exact ⟨fun dependency _ => ReadDependency.same_refl dependency, le_rfl⟩
    · exact ⟨same_of_not_invalidated happlied hunmatched, happlied.sequence_eq ▸ Nat.le_succ _⟩
  refine ⟨hsame, fun hfailure => ?_⟩
  exact execute_value_congr hle query hfailure hsame

/-- A Query that looks up one document. -/
def lookup_query (document_id : DocumentId) : Query :=
  .call (.Get ⟨⟨.from_nat 4⟩, document_id⟩) fun _ => .done (.ok .Null)

/-- The batch of a Mutation that inserts one document. -/
def insert_batch : CommitBatch where
  scope := ⟨⟨.from_nat 1⟩, ⟨.from_nat 2⟩⟩
  operation_id := ⟨.from_nat 10⟩
  reads := []
  documents := [.Upsert ⟨.from_nat 4⟩ ⟨.from_nat 5⟩ .Absent .Null]
  indexes := []
  outbox := [⟨⟨.from_nat 10⟩, document_write_set_payload [.Upsert ⟨.from_nat 4⟩ ⟨.from_nat 5⟩ .Absent .Null] []⟩]
  schedules := []
  intent_context := none

/-- A Query for another document is not matched and reads the same after the commit, which does insert
its own document. -/
theorem unmatched_unchanged_lookup :
    (Environment.empty.commit checksum ⟨.ok 0, [], .Committed⟩ insert_batch).2.get_document ⟨.from_nat 4⟩
        ⟨.from_nat 9⟩ = Environment.empty.get_document ⟨.from_nat 4⟩ ⟨.from_nat 9⟩ ∧
      (Environment.empty.commit checksum ⟨.ok 0, [], .Committed⟩ insert_batch).2.get_document ⟨.from_nat 4⟩
        ⟨.from_nat 5⟩ ≠ Environment.empty.get_document ⟨.from_nat 4⟩ ⟨.from_nat 5⟩ := by
  have hbatch : mutation_batch insert_batch.scope ⟨.from_nat 10⟩ ⟨.from_nat 10⟩ [] insert_batch.documents [] [] =
      .ok insert_batch := by decide +kernel
  obtain ⟨impact, hdecode, hunmatched⟩ :=
    unmatched_unchanged hbatch checksum ⟨.ok 0, [], .Committed⟩ Environment.empty
  have himpact : impact = ⟨[⟨⟨.from_nat 4⟩, ⟨.from_nat 5⟩, .Insert⟩], []⟩ := by
    refine Except.ok.inj (hdecode.symm.trans ?_)
    decide +kernel
  refine ⟨?_, by decide +kernel⟩
  exact (hunmatched (lookup_query ⟨.from_nat 9⟩) (by rw [himpact]; decide +kernel)).1
    (.Point ⟨.from_nat 4⟩ ⟨.from_nat 9⟩ none 0) (by decide +kernel)

end runku.realtime
