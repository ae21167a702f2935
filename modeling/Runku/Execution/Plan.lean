import Runku.Execution.Mutation

/-! `runku-execution/src/mutation.rs`: how buffered writes become one commit batch. -/

namespace runku.execution.mutation

open runku.core runku.value runku.data runku.schema
open Std (ExtTreeMap)

/-- The value a write leaves and its revision. A deleted document has none. -/
def written_value : DocumentMutation → Except MutationExecutionError (Option CanonicalValue × UInt64)
  | .Upsert _ _ expected value =>
    match ExpectedRevision.next expected with
    | some revision => .ok (some value, revision)
    | none => .error (.Storage .LimitExceeded)
  | .Delete .. => .ok (none, 0)

/-- The key of a document that may not exist. -/
def extract_key (definition : IndexDefinition) : Option CanonicalValue → Except MutationExecutionError (Option IndexKey)
  | none => .ok none
  | some value =>
    match extract_index_key definition value with
    | .ok key => .ok key
    | .error error => .error (.Schema error)

/-- The changes to one index: the old key goes unless it stays, and the new key is put in any case. -/
def index_changes (mutation : DocumentMutation) (revision : UInt64) (definition : IndexDefinition)
    (old_key new_key : Option IndexKey) : List IndexMutation :=
  (match old_key with
    | some old_key =>
      if new_key ≠ some old_key then [.Delete definition.index_id old_key mutation.document_id] else []
    | none => []) ++
  (match new_key with
    | some new_key => [.Put definition.index_id new_key mutation.table_id mutation.document_id revision]
    | none => [])

def plan_definition (mutation : DocumentMutation) (old_value new_value : Option CanonicalValue) (revision : UInt64)
    (definition : IndexDefinition) : Except MutationExecutionError (List IndexMutation) := do
  let old_key ← extract_key definition old_value
  let new_key ← extract_key definition new_value
  return index_changes mutation revision definition old_key new_key

def plan_document (schema : SchemaCatalog) (old_values : ExtTreeMap DocumentKey (Option CanonicalValue))
    (mutation : DocumentMutation) : Except MutationExecutionError (List IndexMutation) := do
  let old_value := (old_values[mutation.key]?).join
  let (new_value, revision) ← written_value mutation
  let changes ← (schema.indexes_for_table mutation.table_id).mapM
    (plan_definition mutation old_value new_value revision)
  return changes.flatten

def plan_document_index_mutations (schema : SchemaCatalog) (writes : List DocumentMutation)
    (old_values : ExtTreeMap DocumentKey (Option CanonicalValue)) :
    Except MutationExecutionError (List IndexMutation) := do
  let changes ← writes.mapM (plan_document schema old_values)
  return changes.flatten

def write_kind : DocumentMutation → String
  | .Upsert _ _ .Absent _ => "insert"
  | .Upsert _ _ (.Exact _) _ => "replace"
  | .Delete .. => "delete"

def write_impact (mutation : DocumentMutation) : CanonicalValue :=
  .Object [
    ("documentId", .String mutation.document_id.to_string),
    ("kind", .String (write_kind mutation)),
    ("tableId", .String mutation.table_id.to_string)]

def index_impact : IndexMutation → CanonicalValue
  | .Put index_id key _ document_id _ =>
    .Object [
      ("documentId", .String document_id.to_string),
      ("indexId", .String index_id.to_string),
      ("key", .Bytes key.as_bytes),
      ("kind", .String "put")]
  | .Delete index_id key document_id =>
    .Object [
      ("documentId", .String document_id.to_string),
      ("indexId", .String index_id.to_string),
      ("key", .Bytes key.as_bytes),
      ("kind", .String "delete")]

def document_write_set_payload (documents : List DocumentMutation) (indexes : List IndexMutation) : CanonicalValue :=
  .Object [
    ("indexes", .Array (indexes.map index_impact)),
    ("type", .String "document_write_set_v2"),
    ("writes", .Array (documents.map write_impact))]

/-- One batch for everything a Mutation changes. It announces its documents, if it writes any. -/
def mutation_batch (scope : EnvironmentScope) (operation_id : OperationId) (event_id : OutboxEventId)
    (reads : List DocumentReadAssertion) (documents : List DocumentMutation) (indexes : List IndexMutation)
    (schedules : List ScheduledInvocationInsert) : Except MutationExecutionError CommitBatch :=
  let batch : CommitBatch := {
    scope
    operation_id
    reads
    documents
    indexes
    outbox := if documents.isEmpty then [] else [⟨event_id, document_write_set_payload documents indexes⟩]
    schedules
    intent_context := none }
  match batch.validate with
  | .error error => .error (.Storage error)
  | .ok _ => .ok batch

theorem mutation_batch_eq_ok {scope : EnvironmentScope} {operation_id : OperationId} {event_id : OutboxEventId}
    {reads : List DocumentReadAssertion} {documents : List DocumentMutation} {indexes : List IndexMutation}
    {schedules : List ScheduledInvocationInsert} {batch : CommitBatch}
    (h : mutation_batch scope operation_id event_id reads documents indexes schedules = .ok batch) :
    batch.validate = .ok () ∧ batch = {
      scope
      operation_id
      reads
      documents
      indexes
      outbox := if documents.isEmpty then [] else [⟨event_id, document_write_set_payload documents indexes⟩]
      schedules
      intent_context := none } := by
  unfold mutation_batch at h
  dsimp only at h
  split at h
  · cases h
  · rename_i hvalid
    cases h
    exact ⟨hvalid, rfl⟩

/-- A plan is made of the changes of its writes to the indexes of their tables. -/
theorem mem_plan_iff {schema : SchemaCatalog} {writes : List DocumentMutation}
    {old_values : ExtTreeMap DocumentKey (Option CanonicalValue)} {indexes : List IndexMutation}
    (h : plan_document_index_mutations schema writes old_values = .ok indexes) {change : IndexMutation} :
    change ∈ indexes ↔ ∃ mutation ∈ writes, ∃ changes,
      plan_document schema old_values mutation = .ok changes ∧ change ∈ changes := by
  obtain ⟨plans, hplans, h⟩ := fallible.bind_eq_ok_iff.mp h
  cases h
  exact fallible.mem_flatten_of_mapM_eq_ok hplans

end runku.execution.mutation
