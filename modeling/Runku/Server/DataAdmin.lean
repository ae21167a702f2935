import Runku.Contracts.Merge
import Runku.Execution.Indexes
import Runku.Lib.Machine

/-! `runku-server/src/product.rs`: a write is planned from one snapshot and committed later. -/

namespace runku.server.product

open runku.core runku.value runku.data runku.data_sqlite runku.schema runku.contracts runku.execution.mutation
open bytes (as_bytes)
open machine fallible
open Std (ExtTreeMap)

inductive ManagementProductError
  | Invalid
  | NotFound
  | Conflict
  | OperationIdReused
  | Validation
  | Unavailable
  | Corruption
  deriving DecidableEq

def map_store : StoreError → ManagementProductError
  | .OperationIdReused => .OperationIdReused
  | .MutationConflict => .Conflict
  | .NotFound => .NotFound
  | .LimitExceeded | .InvalidRange | .EmptyBatch | .DuplicateMutation => .Invalid
  | .Corruption | .MigrationFailed => .Corruption
  | .Busy | .SerializationFailure | .ResultUncertain | .Unavailable | .LeaseLost | .OutboxLeaseLost
  | .ProductionBackendUnsupported | .Internal => .Unavailable

def map_mutation_planning : MutationExecutionError → ManagementProductError
  | .Storage error => map_store error
  | .Schema _ => .Validation
  | .Runtime _ | .Data _ | .Schedule _ => .Corruption

structure ManagementResolvedTarget where
  requested : String
  resolved : String
  schema_contract_hash : String
  deriving DecidableEq

/-- What the code target of a call resolves to. -/
structure EffectiveCatalog where
  target : ManagementResolvedTarget
  schema : DocumentSchemaV1
  indexes : SchemaCatalog

inductive DataWrite
  | Insert (value : CanonicalValue)
  | Replace (expected_revision : UInt64) (previous_value value : CanonicalValue)
  | Delete (expected_revision : UInt64) (previous_value : CanonicalValue)

structure ManagementDataWriteResult where
  version : Nat
  target : ManagementResolvedTarget
  table_id : String
  document_id : String
  revision : Option String
  commit_sequence : String
  replayed : Bool
  deriving DecidableEq

def resolve_table (schema : DocumentSchemaV1) (name : String) : Except ManagementProductError DocumentTableContract :=
  match schema.tables.find? fun table => table.name = name with
  | some table => .ok table
  | none => .error .NotFound

/-- A failed check of a value is a failed validation of the request. -/
def map_validation {α : Type} : Except ValidationError α → Except ManagementProductError α
  | .ok result => .ok result
  | .error _ => .error .Validation

/-- The stored value, when the snapshot holds the expected revision and shows the caller's previous value. At any
other revision nothing is verified, and the revision is left to the commit. -/
def verify_previous_value (env : Environment) (table_id : TableId) (document_id : DocumentId)
    (expected_revision : UInt64) (previous_value : CanonicalValue) (schema : DocumentSchemaV1) :
    Except ManagementProductError (Option CanonicalValue) := do
  match env.get_document table_id document_id with
  | .error error => .error (map_store error)
  | .ok none => .ok none
  | .ok (some current) =>
    if current.revision = expected_revision then do
      let projected ← map_validation (schema.project_document table_id current.value)
      if projected ≠ previous_value then .error .Conflict
      else .ok (some current.value)
    else .ok none

/-- A call of `commit_data_write` after its target was resolved. -/
structure DataWriteCall where
  catalog : EffectiveCatalog
  operation_id : OperationId
  table_name : String
  document_id : DocumentId
  write : DataWrite

/-- The value a replacement writes: merged with the stored one if that was verified. -/
def replacement_value (schema : DocumentSchemaV1) (table_id : TableId) (value : CanonicalValue) :
    Option CanonicalValue → Except ManagementProductError CanonicalValue
  | none => .ok value
  | some stored => map_validation (schema.preserve_unknown_document_fields table_id stored value)

/-- The document mutation of a write and the value from which its index changes are planned. -/
def plan_write (env : Environment) (schema : DocumentSchemaV1) (table_id : TableId) (document_id : DocumentId) :
    DataWrite → Except ManagementProductError (DocumentMutation × Option CanonicalValue)
  | .Insert value => do
    map_validation (schema.validate_document table_id value)
    .ok (.Upsert table_id document_id .Absent value, none)
  | .Replace expected_revision previous_value value => do
    map_validation (schema.validate_document table_id previous_value)
    map_validation (schema.validate_document table_id value)
    let stored ← verify_previous_value env table_id document_id expected_revision previous_value schema
    let value ← replacement_value schema table_id value stored
    .ok (.Upsert table_id document_id (.Exact expected_revision) value, stored.or (some previous_value))
  | .Delete expected_revision previous_value => do
    map_validation (schema.validate_document table_id previous_value)
    let stored ← verify_previous_value env table_id document_id expected_revision previous_value schema
    .ok (.Delete table_id document_id expected_revision, stored.or (some previous_value))

def ADMIN_CONTEXT : List UInt8 := as_bytes "RUNKU_DATA_ADMIN_V1"

def intent_context (target : ManagementResolvedTarget) : List UInt8 :=
  ADMIN_CONTEXT ++ [0] ++ as_bytes target.requested ++ [0] ++ as_bytes target.resolved ++ [0] ++
    as_bytes target.schema_contract_hash

/-- A call that is about to commit its batch, and the Environment as its snapshot saw it. -/
structure PreparedWrite where
  snapshot : Environment
  call : DataWriteCall
  table : DocumentTableContract
  batch : CommitBatch

def PreparedWrite.key (prepared : PreparedWrite) : DocumentKey := ⟨prepared.table.id, prepared.call.document_id⟩

/-- The batch of a planned write. -/
def admin_batch (scope : EnvironmentScope) (call : DataWriteCall) (mutation : DocumentMutation)
    (indexes : List IndexMutation) : CommitBatch where
  scope
  operation_id := call.operation_id
  reads := []
  documents := [mutation]
  indexes
  outbox := [⟨⟨call.operation_id.ulid⟩, document_write_set_payload [mutation] indexes⟩]
  schedules := []
  intent_context := some (intent_context call.catalog.target)

/-- The first part of `commit_data_write`, up to the batch. It reads one snapshot of the Environment. -/
def prepare_data_write (scope : EnvironmentScope) (env : Environment) (call : DataWriteCall) :
    Except ManagementProductError PreparedWrite := do
  let table ← resolve_table call.catalog.schema call.table_name
  let (mutation, previous_value) ← plan_write env call.catalog.schema table.id call.document_id call.write
  let old_values :=
    (∅ : ExtTreeMap DocumentKey (Option CanonicalValue)).insert ⟨table.id, call.document_id⟩ previous_value
  match plan_document_index_mutations call.catalog.indexes [mutation] old_values with
  | .error error => .error (map_mutation_planning error)
  | .ok indexes =>
    .ok ⟨env, call, table, admin_batch scope call mutation indexes⟩

/-- The second part of `commit_data_write`: the commit and its answer. -/
def commit_data_write (sha256 : List UInt8 → Sha256Digest) (world : CommitWorld) (env : Environment)
    (prepared : PreparedWrite) : Except ManagementProductError ManagementDataWriteResult × Environment :=
  match env.commit sha256 world prepared.batch with
  | (.error error, env') => (.error (map_store error), env')
  | (.ok result, env') =>
    match result.documents.find? fun document =>
      document.table_id = prepared.table.id && document.document_id = prepared.call.document_id with
    | none => (.error .Corruption, env')
    | some document =>
      (.ok {
        version := 1
        target := prepared.call.catalog.target
        table_id := prepared.table.id.to_string
        document_id := prepared.call.document_id.to_string
        revision := document.revision.map fun revision => toString revision.toNat
        commit_sequence := toString result.commit_sequence
        replayed := result.replayed }, env')

/-- The Environment and the Data Admin calls between their snapshot and their commit. -/
structure System where
  env : Environment
  prepared : List PreparedWrite

inductive Action
  /-- A Data Admin call reads its snapshot and plans its batch. -/
  | Prepare (call : DataWriteCall)
  /-- The prepared call at a position commits and ends. -/
  | Commit (world : CommitWorld) (position : Nat)
  /-- A Mutation commits a batch. -/
  | Mutation (world : CommitWorld) (batch : CommitBatch)

section
variable (sha256 : List UInt8 → Sha256Digest) (scope : EnvironmentScope)

def System.step (s : System) : Action → System
  | .Prepare call =>
    match prepare_data_write scope s.env call with
    | .ok prepared => { s with prepared := s.prepared ++ [prepared] }
    | .error _ => s
  | .Commit world position =>
    match s.prepared[position]? with
    | none => s
    | some prepared => ⟨(commit_data_write sha256 world s.env prepared).2, s.prepared.eraseIdx position⟩
  | .Mutation world batch => { s with env := (s.env.commit sha256 world batch).2 }

end

/-- The revision that a call expects of its document. -/
def DataWrite.expected_revision : DataWrite → Option UInt64
  | .Insert _ => none
  | .Replace expected_revision _ _ | .Delete expected_revision _ => some expected_revision

/-- If the document has the revision that the call expects, its row is the one that the snapshot saw. -/
def Undisturbed (env : Environment) (prepared : PreparedWrite) : Prop :=
  ∀ row, env.documents[prepared.key]? = some row →
    prepared.call.write.expected_revision = some row.revision.to_u64 →
      prepared.snapshot.documents[prepared.key]? = some row

section
variable {scope : EnvironmentScope} {env : Environment} {call : DataWriteCall} {prepared : PreparedWrite}

/-- What a prepared write was planned from. -/
theorem prepare_data_write_eq_ok_iff : prepare_data_write scope env call = .ok prepared ↔
      ∃ table mutation previous_value indexes, resolve_table call.catalog.schema call.table_name = .ok table ∧
        plan_write env call.catalog.schema table.id call.document_id call.write = .ok (mutation, previous_value) ∧
        plan_document_index_mutations call.catalog.indexes [mutation]
          ((∅ : ExtTreeMap DocumentKey (Option CanonicalValue)).insert ⟨table.id, call.document_id⟩ previous_value) =
            .ok indexes ∧ prepared = ⟨env, call, table, admin_batch scope call mutation indexes⟩ := by
  unfold prepare_data_write
  rw [bind_eq_ok_iff]
  constructor
  · rintro ⟨table, htable, h⟩
    obtain ⟨⟨mutation, previous_value⟩, hplan, h⟩ := bind_eq_ok_iff.mp h
    dsimp only at h
    split at h
    · cases h
    · rename_i indexes hindexes
      exact ⟨table, mutation, previous_value, indexes, htable, hplan, hindexes, (Except.ok.inj h).symm⟩
  · rintro ⟨table, mutation, previous_value, indexes, htable, hplan, hindexes, rfl⟩
    refine ⟨table, htable, bind_eq_ok_iff.mpr ⟨_, hplan, ?_⟩⟩
    dsimp only
    rw [hindexes]

/-- The one document mutation of a prepared call is about its document. -/
theorem key_of_plan_write {schema : DocumentSchemaV1} {table_id : TableId} {document_id : DocumentId} {write : DataWrite}
    {mutation : DocumentMutation} {previous_value : Option CanonicalValue}
    (h : plan_write env schema table_id document_id write = .ok (mutation, previous_value)) :
    mutation.key = ⟨table_id, document_id⟩ := by
  cases write with
  | Insert value =>
    obtain ⟨_, _, h⟩ := bind_eq_ok_iff.mp h
    cases h
    rfl
  | Replace expected_revision previous_value value =>
    obtain ⟨_, _, h⟩ := bind_eq_ok_iff.mp h
    obtain ⟨_, _, h⟩ := bind_eq_ok_iff.mp h
    obtain ⟨stored, _, h⟩ := bind_eq_ok_iff.mp h
    obtain ⟨_, _, h⟩ := bind_eq_ok_iff.mp h
    cases h
    rfl
  | Delete expected_revision previous_value =>
    obtain ⟨_, _, h⟩ := bind_eq_ok_iff.mp h
    obtain ⟨stored, _, h⟩ := bind_eq_ok_iff.mp h
    cases h
    rfl

end

/-- The value a mutation leaves. -/
def new_value : DocumentMutation → Option CanonicalValue
  | .Upsert _ _ _ value => some value
  | .Delete .. => none

/-- The keys a batch takes out of the indexes of the table are those of the stored value which the document does not
keep. -/
def RemovesKeysOf (prepared : PreparedWrite) (stored : CanonicalValue) : Prop :=
  ∃ mutation, prepared.batch.documents = [mutation] ∧ ∀ index_id key document_id,
    IndexMutation.Delete index_id key document_id ∈ prepared.batch.indexes ↔
      document_id = prepared.call.document_id ∧
        ∃ definition ∈ prepared.call.catalog.indexes.indexes_for_table prepared.table.id,
          definition.index_id = index_id ∧ extract_index_key definition stored = .ok (some key) ∧
            extract_key definition (new_value mutation) ≠ .ok (some key)

/-- What a replacement writes is its value merged with the stored one, and has every field of the stored one that the
contract of the table does not know. -/
def KeepsUnknownFields (prepared : PreparedWrite) (stored : CanonicalValue) : Prop :=
  match prepared.call.write with
  | .Replace expected_revision _ value =>
    ∃ table written, prepared.call.catalog.schema.table prepared.table.id = .ok table ∧
      table.document_contract.preserve_unknown_fields stored value = .ok written ∧
      prepared.batch.documents =
        [.Upsert prepared.table.id prepared.call.document_id (.Exact expected_revision) written] ∧
      ∀ old_fields new_fields key field, stored = .Object old_fields → value = .Object new_fields →
        knows_field key table.document_contract = false → old_fields.lookup key = some field →
          ∃ written_fields, written = .Object written_fields ∧ written_fields.lookup key = some field
  | _ => True

variable {mutation : DocumentMutation}

/-- The old key is taken out unless the new value has it too. -/
theorem delete_mem_index_changes_iff {revision : UInt64} {definition : IndexDefinition}
    {old_key new_key : Option IndexKey} {index_id : IndexId} {key : IndexKey} {document_id : DocumentId} :
    IndexMutation.Delete index_id key document_id ∈ index_changes mutation revision definition old_key new_key ↔
      document_id = mutation.document_id ∧ definition.index_id = index_id ∧ old_key = some key ∧ new_key ≠ some key := by
  rw [index_changes.eq_def, List.mem_append]
  -- The other part holds the new key alone, and puts it.
  refine (or_iff_left (by cases new_key <;> simp)).trans ?_
  cases old_key with
  | none => simp
  | some old_key =>
    dsimp only
    split
    · rename_i hkept
      rw [List.mem_singleton, IndexMutation.Delete.injEq, Option.some.injEq]
      constructor
      · rintro ⟨rfl, rfl, rfl⟩
        exact ⟨rfl, rfl, rfl, hkept⟩
      · rintro ⟨rfl, rfl, rfl, _⟩
        exact ⟨rfl, rfl, rfl⟩
    · rename_i hkept
      refine iff_of_false List.not_mem_nil ?_
      rintro ⟨_, _, hkey, hnew⟩
      rw [← hkey] at hnew
      exact hkept hnew

theorem new_value_of_written_value {value : Option CanonicalValue} {revision : UInt64}
    (h : written_value mutation = .ok (value, revision)) : value = new_value mutation := by
  cases mutation with
  | Upsert table_id document_id expected written =>
    rw [written_value] at h
    split at h
    · exact (Prod.mk.inj (Except.ok.inj h)).1.symm
    · cases h
  | Delete table_id document_id expected => exact (Prod.mk.inj (Except.ok.inj h)).1.symm

theorem extract_key_some_iff {definition : IndexDefinition} {value : CanonicalValue} {key : Option IndexKey} :
    extract_key definition (some value) = .ok key ↔ extract_index_key definition value = .ok key := by
  unfold extract_key
  split
  · rename_i hkey
    cases hkey
  · rename_i heq
    cases heq
    split
    all_goals
      rename_i hextract
      rw [hextract]
      simp

/-- Which changes a plan for one document takes out of the indexes. -/
theorem delete_mem_plan_iff {catalog : SchemaCatalog} {old_value : CanonicalValue} {indexes : List IndexMutation}
    (h : plan_document_index_mutations catalog [mutation]
      ((∅ : ExtTreeMap DocumentKey (Option CanonicalValue)).insert mutation.key (some old_value)) = .ok indexes)
    {index_id : IndexId} {key : IndexKey} {document_id : DocumentId} :
    IndexMutation.Delete index_id key document_id ∈ indexes ↔ document_id = mutation.document_id ∧
      ∃ definition ∈ catalog.indexes_for_table mutation.table_id, definition.index_id = index_id ∧
        extract_index_key definition old_value = .ok (some key) ∧
          extract_key definition (new_value mutation) ≠ .ok (some key) := by
  obtain ⟨plans, hplans, _⟩ := bind_eq_ok_iff.mp h
  obtain ⟨changes, _, hchanges⟩ := exists_of_mapM_eq_ok hplans (List.mem_singleton.mpr rfl)
  obtain ⟨value, revision, hwritten, hall, hmem⟩ := mem_plan_document hchanges
  obtain rfl := new_value_of_written_value hwritten
  rw [ExtTreeMap.getElem?_insert_self] at hall hmem
  rw [mem_plan_iff h]
  constructor
  · rintro ⟨other, hother, changes', hchanges', hdelete⟩
    obtain rfl := List.mem_singleton.mp hother
    cases hchanges'.symm.trans hchanges
    obtain ⟨definition, hdefinition, planned, hplanned, hdelete⟩ := (hmem _).mp hdelete
    obtain ⟨old_key, new_key, hold, hnew, rfl⟩ := plan_definition_eq_ok hplanned
    obtain ⟨hdocument, hindex, rfl, hkept⟩ := delete_mem_index_changes_iff.mp hdelete
    refine ⟨hdocument, definition, hdefinition, hindex, extract_key_some_iff.mp hold, fun hsame => hkept ?_⟩
    exact Except.ok.inj (hnew.symm.trans hsame)
  · rintro ⟨hdocument, definition, hdefinition, hindex, hold, hnew⟩
    obtain ⟨planned, hplanned⟩ := hall definition hdefinition
    refine ⟨mutation, List.mem_singleton.mpr rfl, changes, hchanges, ?_⟩
    refine (hmem _).mpr ⟨definition, hdefinition, planned, hplanned, ?_⟩
    obtain ⟨old_key, new_key, hold', hnew', rfl⟩ := plan_definition_eq_ok hplanned
    cases hold'.symm.trans (extract_key_some_iff.mpr hold)
    refine delete_mem_index_changes_iff.mpr ⟨hdocument, hindex, rfl, ?_⟩
    rintro rfl
    exact hnew hnew'

section
variable {sha256 : List UInt8 → Sha256Digest} {scope : EnvironmentScope}

/-- Every prepared call was prepared from its snapshot. -/
def FromSnapshot (scope : EnvironmentScope) (s : System) : Prop :=
  ∀ prepared ∈ s.prepared, prepare_data_write scope prepared.snapshot prepared.call = .ok prepared

variable {env : Environment} {call : DataWriteCall} {prepared : PreparedWrite}

theorem of_prepare_data_write (h : prepare_data_write scope env call = .ok prepared) :
    prepared.snapshot = env ∧ prepared.call = call := by
  obtain ⟨_, _, _, _, _, _, _, rfl⟩ := prepare_data_write_eq_ok_iff.mp h
  exact ⟨rfl, rfl⟩

/-- Every prepared write keeps the snapshot it was prepared from. -/
theorem fromSnapshot_step (s : System) (action : Action) (hs : FromSnapshot scope s) :
    FromSnapshot scope (s.step sha256 scope action) := by
  cases action with
  | Prepare call =>
    unfold System.step
    dsimp only
    split
    · rename_i prepared hprepared
      intro other hother
      rcases List.mem_append.mp hother with hother | hother
      · exact hs other hother
      · obtain rfl := List.mem_singleton.mp hother
        obtain ⟨hsnapshot, hcall⟩ := of_prepare_data_write hprepared
        rw [hsnapshot, hcall]
        exact hprepared
    · exact hs
  | Commit world position =>
    unfold System.step
    dsimp only
    split
    · exact hs
    · exact fun other hother => hs other (List.mem_of_mem_eraseIdx hother)
  | Mutation world batch => exact hs

/-- A call that commits as new applies its batch. -/
theorem applied_of_commit_data_write {world : CommitWorld}
    {result : ManagementDataWriteResult} (h : (commit_data_write sha256 world env prepared).1 = .ok result)
    (hnew : result.replayed = false) :
    ∃ digest now, Applied prepared.batch digest now env (env.commit sha256 world prepared.batch).2 := by
  unfold commit_data_write at h
  split at h
  · cases h
  · rename_i commit env' heq
    split at h
    · cases h
    · cases h
      obtain ⟨digest, _, ⟨_, hreplayed⟩ | ⟨now, _, happlied, _⟩⟩ := commit_eq_ok heq
      · obtain ⟨row, _, _, _, rfl⟩ := hreplayed
        cases hnew
      · rw [heq]
        exact ⟨digest, now, happlied⟩

/-- At the expected revision the verified value is the stored one. -/
theorem verified_of_revision {schema : DocumentSchemaV1} {table_id : TableId}
    {document_id : DocumentId} {expected_revision : UInt64} {previous_value : CanonicalValue} {row : DocumentRow}
    {stored : Option CanonicalValue} (hrow : env.documents[(⟨table_id, document_id⟩ : DocumentKey)]? = some row)
    (hrevision : row.revision.to_u64 = expected_revision)
    (h : verify_previous_value env table_id document_id expected_revision previous_value schema = .ok stored) :
    stored = some row.value := by
  unfold verify_previous_value Environment.get_document at h
  rw [hrow] at h
  dsimp only [Option.map_some] at h
  rw [if_pos (show (decode_document_row ⟨table_id, document_id⟩ row).revision = expected_revision from hrevision)] at h
  obtain ⟨projected, _, h⟩ := bind_eq_ok_iff.mp h
  split at h
  · cases h
  · exact (Except.ok.inj h).symm

theorem map_validation_eq_ok_iff {α : Type} {result : Except ValidationError α} {a : α} :
    map_validation result = .ok a ↔ result = .ok a := by
  cases result with
  | error error => exact iff_of_false nofun nofun
  | ok b => simp [map_validation]

/-- What is planned from the stored value takes its keys out of the indexes. -/
theorem removes_keys_of_plan {table : DocumentTableContract} {mutation : DocumentMutation}
    {stored : CanonicalValue} {indexes : List IndexMutation} (hkey : mutation.key = ⟨table.id, call.document_id⟩)
    (hindexes : plan_document_index_mutations call.catalog.indexes [mutation]
      ((∅ : ExtTreeMap DocumentKey (Option CanonicalValue)).insert ⟨table.id, call.document_id⟩ (some stored)) =
        .ok indexes) : RemovesKeysOf ⟨env, call, table, admin_batch scope call mutation indexes⟩ stored := by
  obtain ⟨htable, hdocument⟩ := DocumentKey.mk.inj hkey
  refine ⟨mutation, rfl, fun index_id key document_id => ?_⟩
  dsimp only [admin_batch]
  rw [← htable, ← hdocument] at hindexes ⊢
  exact delete_mem_plan_iff hindexes

/-- An undisturbed call that commits as new rests on the value stored at that moment. -/
theorem rests_on_stored {env env' : Environment}
    (hprepared : prepare_data_write scope prepared.snapshot prepared.call = .ok prepared)
    (hundisturbed : Undisturbed env prepared) {digest : Sha256Digest} {now : Int64}
    (happlied : Applied prepared.batch digest now env env') (hwrite : ∀ value, prepared.call.write ≠ .Insert value) :
    ∃ row, env.documents[prepared.key]? = some row ∧ RemovesKeysOf prepared row.value ∧
      KeepsUnknownFields prepared row.value := by
  obtain ⟨table, mutation, previous_value, indexes, _, hplan, hindexes, heq⟩ := prepare_data_write_eq_ok_iff.mp hprepared
  generalize prepared.snapshot = snapshot, prepared.call = call at *
  subst heq
  have hkey := key_of_plan_write hplan
  have hdocument := happlied.document mutation (List.mem_singleton.mpr rfl)
  rw [hkey] at hdocument
  unfold KeepsUnknownFields
  dsimp only
  cases hcase : call.write with
  | Insert value => exact absurd hcase (hwrite value)
  | Replace expected_revision previous_value value =>
    rw [hcase] at hplan
    obtain ⟨_, _, hplan⟩ := bind_eq_ok_iff.mp hplan
    obtain ⟨_, hvalid, hplan⟩ := bind_eq_ok_iff.mp hplan
    obtain ⟨stored, hverify, hplan⟩ := bind_eq_ok_iff.mp hplan
    obtain ⟨written, hwritten, hplan⟩ := bind_eq_ok_iff.mp hplan
    cases hplan
    obtain ⟨row, _, hrow, hrevision, _, _⟩ := hdocument
    obtain rfl := verified_of_revision (hundisturbed row hrow (by simp [hcase, DataWrite.expected_revision, hrevision]))
      hrevision hverify
    obtain ⟨contract_table, htable, hmerge⟩ := bind_eq_ok_iff.mp (map_validation_eq_ok_iff.mp hwritten)
    refine ⟨row, hrow, removes_keys_of_plan hkey hindexes, contract_table, written, htable, hmerge, rfl, ?_⟩
    rintro old_fields new_fields key field hold rfl hunknown hfield
    obtain ⟨haccepts, hmerge⟩ := check_bind_eq_ok_iff.mp hmerge
    rw [hold] at hmerge
    exact preserve_keeps_unknown haccepts hmerge hunknown hfield
  | Delete expected_revision previous_value =>
    rw [hcase] at hplan
    obtain ⟨_, _, hplan⟩ := bind_eq_ok_iff.mp hplan
    obtain ⟨stored, hverify, hplan⟩ := bind_eq_ok_iff.mp hplan
    cases hplan
    obtain ⟨row, hrow, hrevision, _⟩ := hdocument
    obtain rfl := verified_of_revision (hundisturbed row hrow (by simp [hcase, DataWrite.expected_revision, hrevision]))
      hrevision hverify
    exact ⟨row, hrow, removes_keys_of_plan hkey hindexes, trivial⟩

/-- What a Data Admin call replaces or deletes is what is stored, unless the row that has the expected revision at its
commit is another one than its snapshot saw: its batch takes exactly the keys of the stored value out of the indexes, and
a replacement keeps the fields that the selected schema does not know. -/
theorem data_admin_writes_consistent {env : Environment} {actions : List Action} {position : Nat}
    {prepared : PreparedWrite}
    (hprepared : (run (System.step sha256 scope) ⟨env, []⟩ actions).prepared[position]? = some prepared)
    (hundisturbed : Undisturbed (run (System.step sha256 scope) ⟨env, []⟩ actions).env prepared)
    {world : CommitWorld} {result : ManagementDataWriteResult}
    (hcommit : (commit_data_write sha256 world (run (System.step sha256 scope) ⟨env, []⟩ actions).env prepared).1 =
      .ok result) (hnew : result.replayed = false) (hwrite : ∀ value, prepared.call.write ≠ .Insert value) :
    ∃ row, (run (System.step sha256 scope) ⟨env, []⟩ actions).env.documents[prepared.key]? = some row ∧
      RemovesKeysOf prepared row.value ∧ KeepsUnknownFields prepared row.value := by
  have hsnapshots : FromSnapshot scope (run (System.step sha256 scope) ⟨env, []⟩ actions) :=
    List.foldlRecOn actions (System.step sha256 scope) (motive := FromSnapshot scope) nofun
      fun s hs action _ => fromSnapshot_step s action hs
  obtain ⟨digest, now, happlied⟩ := applied_of_commit_data_write hcommit hnew
  exact rests_on_stored (hsnapshots prepared (List.mem_of_getElem? hprepared)) hundisturbed happlied hwrite

end

/-- Notes with an email. Other Releases know further fields. -/
def notes_catalog : EffectiveCatalog where
  target := ⟨"release:current", "release:one", "hash"⟩
  schema := ⟨[⟨⟨.from_nat 4⟩, "notes", .Object [("email", .String none none)] []⟩]⟩
  indexes := email_catalog

def note (email : String) : CanonicalValue := .Object [("email", .String email)]

def tagged_note (email : String) : CanonicalValue := .Object [("email", .String email), ("tag", .Null)]

/-- Replaces the first revision of a note. The caller says that its email was `previous`. -/
def note_call (previous : String) : DataWriteCall where
  catalog := notes_catalog
  operation_id := ⟨.from_nat 20⟩
  table_name := "notes"
  document_id := ⟨.from_nat 5⟩
  write := .Replace 1 (note previous) (note "c")

def note_scope : EnvironmentScope := ⟨⟨.from_nat 1⟩, ⟨.from_nat 2⟩⟩

/-- The batch of a Mutation that inserts the note with another field. -/
def note_insert : CommitBatch where
  scope := note_scope
  operation_id := ⟨.from_nat 21⟩
  reads := []
  documents := [.Upsert ⟨.from_nat 4⟩ ⟨.from_nat 5⟩ .Absent (tagged_note "b")]
  indexes := (plan_document_index_mutations email_catalog
    [.Upsert ⟨.from_nat 4⟩ ⟨.from_nat 5⟩ .Absent (tagged_note "b")] ∅).toOption.getD []
  outbox := []
  schedules := []
  intent_context := none

def healthy : CommitWorld := ⟨.ok 0, [], .Committed⟩

/-- The Environment after the insertion. -/
def noted : Environment := (Environment.empty.commit checksum healthy note_insert).2

def note_key : DocumentKey := ⟨⟨.from_nat 4⟩, ⟨.from_nat 5⟩⟩

/-- The call, prepared before the note is there. -/
def early_write : PreparedWrite :=
  (prepare_data_write note_scope .empty (note_call "a")).toOption.get (by decide +kernel)

/-- The call, prepared after the note is there. -/
def late_write : PreparedWrite :=
  (prepare_data_write note_scope noted (note_call "b")).toOption.get (by decide +kernel)

/-- The batch of a Mutation that inserts another note. -/
def other_insert : CommitBatch :=
  { note_insert with
    operation_id := ⟨.from_nat 22⟩
    documents := [.Upsert ⟨.from_nat 4⟩ ⟨.from_nat 6⟩ .Absent (note "d")]
    indexes := (plan_document_index_mutations email_catalog
      [.Upsert ⟨.from_nat 4⟩ ⟨.from_nat 6⟩ .Absent (note "d")] ∅).toOption.getD [] }

/-- The Environment after both insertions. -/
def both_noted : Environment := (noted.commit checksum healthy other_insert).2

theorem prepare_toOption_get {scope : EnvironmentScope} {env : Environment} {call : DataWriteCall}
    (h : (prepare_data_write scope env call).toOption.isSome = true) :
    prepare_data_write scope env call = .ok ((prepare_data_write scope env call).toOption.get h) := by
  generalize prepare_data_write scope env call = prepared at h ⊢
  cases prepared with
  | ok prepared => rfl
  | error error => cases h

theorem early_run :
    run (System.step checksum note_scope) ⟨.empty, []⟩ [.Prepare (note_call "a"), .Mutation healthy note_insert] =
      ⟨noted, [early_write]⟩ := by
  have hprepare : prepare_data_write note_scope .empty (note_call "a") = .ok early_write := prepare_toOption_get _
  simp only [run, List.foldl_cons, List.foldl_nil, System.step, hprepare, List.nil_append, noted]

theorem late_run : run (System.step checksum note_scope) ⟨.empty, []⟩
        [.Mutation healthy note_insert, .Prepare (note_call "b"), .Mutation healthy other_insert] =
      ⟨both_noted, [late_write]⟩ := by
  have hprepare : prepare_data_write note_scope noted (note_call "b") = .ok late_write := prepare_toOption_get _
  simp only [run, List.foldl_cons, List.foldl_nil, System.step]
  rw [show (Environment.empty.commit checksum healthy note_insert).2 = noted from rfl, hprepare]
  rfl

/-- A row of the note as the Mutation wrote it. -/
theorem exists_noted : ∃ row, noted.documents[note_key]? = some row ∧ row.value = tagged_note "b" := by
  have h : noted.documents[note_key]?.map DocumentRow.value = some (tagged_note "b") := by decide +kernel
  exact Option.map_eq_some_iff.mp h

theorem exists_new_result {env : Environment} {prepared : PreparedWrite}
    (h : ((commit_data_write checksum healthy env prepared).1.map ManagementDataWriteResult.replayed) = .ok false) :
    ∃ result, (commit_data_write checksum healthy env prepared).1 = .ok result ∧ result.replayed = false := by
  generalize (commit_data_write checksum healthy env prepared).1 = result at h ⊢
  cases result with
  | ok result => exact ⟨result, rfl, Except.ok.inj h⟩
  | error error => cases h

/-- The key of the inserted note. -/
def noted_key : IndexKey :=
  (extract_index_key email_index (tagged_note "b")).toOption.join.get (by decide +kernel)

/-- The early call leaves the key of the inserted note in the index. -/
theorem early_write_leaves_key : ¬ RemovesKeysOf early_write (tagged_note "b") := by
  rintro ⟨mutation, hmutation, hiff⟩
  have hdocuments : early_write.batch.documents = [.Upsert ⟨.from_nat 4⟩ ⟨.from_nat 5⟩ (.Exact 1) (note "c")] := by
    decide +kernel
  obtain rfl := List.singleton_inj.mp (hmutation.symm.trans hdocuments)
  have hleft : IndexMutation.Delete email_index.index_id noted_key ⟨.from_nat 5⟩ ∉ early_write.batch.indexes := by
    decide +kernel
  exact hleft ((hiff _ _ _).mpr (by decide +kernel))

/-- The early call drops the tag of the inserted note. -/
theorem early_write_drops_tag : ¬ KeepsUnknownFields early_write (tagged_note "b") := by
  have hcall : early_write.call = note_call "a" := (of_prepare_data_write (prepare_toOption_get _)).2
  rw [KeepsUnknownFields, hcall]
  rintro ⟨table, written, htable, hmerge, hwritten, _⟩
  have hdocuments : early_write.batch.documents = [.Upsert ⟨.from_nat 4⟩ ⟨.from_nat 5⟩ (.Exact 1) (note "c")] := by
    decide +kernel
  obtain ⟨_, _, _, rfl⟩ := DocumentMutation.Upsert.inj (List.singleton_inj.mp (hdocuments.symm.trans hwritten))
  have hplain : notes_catalog.schema.preserve_unknown_document_fields early_write.table.id (tagged_note "b") (note "c") =
      .ok (note "c") := bind_eq_ok_iff.mpr ⟨table, htable, hmerge⟩
  exact absurd hplain (by decide +kernel)

/-- The caller expects the first revision of a note that is not there yet, so nothing is verified. Then a Mutation
inserts the note, and the replacement commits with the previous value of the caller: the index keeps the key of the
inserted note, and its tag is lost. -/
theorem unverified_note_replaced : ∃ (actions : List Action) (prepared : PreparedWrite) (result : ManagementDataWriteResult)
    (row : DocumentRow), (run (System.step checksum note_scope) ⟨.empty, []⟩ actions).prepared[0]? = some prepared ∧
      (commit_data_write checksum healthy (run (System.step checksum note_scope) ⟨.empty, []⟩ actions).env prepared).1 =
        .ok result ∧ result.replayed = false ∧ (∀ value, prepared.call.write ≠ .Insert value) ∧
      (run (System.step checksum note_scope) ⟨.empty, []⟩ actions).env.documents[prepared.key]? = some row ∧
      ¬ RemovesKeysOf prepared row.value ∧ ¬ KeepsUnknownFields prepared row.value := by
  obtain ⟨row, hrow, hvalue⟩ := exists_noted
  obtain ⟨result, hresult, hnew⟩ := @exists_new_result noted early_write (by decide +kernel)
  refine ⟨[.Prepare (note_call "a"), .Mutation healthy note_insert], early_write, result, row, ?_⟩
  rw [early_run]
  have hcall : early_write.call = note_call "a" := (of_prepare_data_write (prepare_toOption_get _)).2
  have hkey : early_write.key = note_key := by decide +kernel
  rw [hcall, hkey, hvalue]
  exact ⟨rfl, hresult, hnew, nofun, hrow, early_write_leaves_key, early_write_drops_tag⟩

/-- The replacement of a note, while another note is inserted between its snapshot and its commit. -/
theorem verified_note_replaced :
    ∃ row, both_noted.documents[late_write.key]? = some row ∧ RemovesKeysOf late_write row.value ∧
      KeepsUnknownFields late_write row.value := by
  obtain ⟨result, hresult, hnew⟩ := @exists_new_result both_noted late_write (by decide +kernel)
  have hprepare : prepare_data_write note_scope noted (note_call "b") = .ok late_write := prepare_toOption_get _
  obtain ⟨hsnapshot, hcall⟩ := of_prepare_data_write hprepare
  have hunchanged : noted.documents[late_write.key]? = both_noted.documents[late_write.key]? := by decide +kernel
  have h := @data_admin_writes_consistent checksum note_scope .empty
    [.Mutation healthy note_insert, .Prepare (note_call "b"), .Mutation healthy other_insert] 0 late_write
  rw [late_run] at h
  exact h rfl (fun row hrow _ => by rw [hsnapshot, hunchanged, hrow]) hresult hnew (by rw [hcall]; exact nofun)

end runku.server.product
