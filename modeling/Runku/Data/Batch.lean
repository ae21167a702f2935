import Runku.Data.Model
import Runku.Value.Stored

/-! `runku-data/src/batch.rs`. -/

namespace runku.data

open runku.core runku.value bytes

structure DocumentReadAssertion where
  table_id : TableId
  document_id : DocumentId
  observed_revision : Option UInt64
  deriving DecidableEq

def DocumentReadAssertion.key (assertion : DocumentReadAssertion) : DocumentKey :=
  ⟨assertion.table_id, assertion.document_id⟩

inductive ExpectedRevision
  | Absent
  | Exact (revision : UInt64)
  deriving DecidableEq

inductive DocumentMutation
  | Upsert (table_id : TableId) (document_id : DocumentId) (expected : ExpectedRevision)
      (value : CanonicalValue)
  | Delete (table_id : TableId) (document_id : DocumentId) (expected_revision : UInt64)
  deriving DecidableEq

def DocumentMutation.table_id : DocumentMutation → TableId
  | .Upsert table_id .. | .Delete table_id .. => table_id

def DocumentMutation.document_id : DocumentMutation → DocumentId
  | .Upsert _ document_id .. | .Delete _ document_id .. => document_id

def DocumentMutation.key (mutation : DocumentMutation) : DocumentKey :=
  ⟨mutation.table_id, mutation.document_id⟩

inductive IndexMutation
  | Put (index_id : IndexId) (key : IndexKey) (table_id : TableId) (document_id : DocumentId)
      (document_revision : UInt64)
  | Delete (index_id : IndexId) (key : IndexKey) (document_id : DocumentId)
  deriving DecidableEq

/-- The primary key of an index entry. -/
@[ext]
structure IndexEntryKey where
  index_id : IndexId
  key_bytes : List UInt8
  document_id : DocumentId
  deriving DecidableEq

instance : LinearOrder IndexEntryKey :=
  LinearOrder.lift' (fun key => toLex (key.index_id, toLex (key.key_bytes, key.document_id)))
    fun a b h => by cases a; cases b; simpa using h

def IndexMutation.identity : IndexMutation → IndexEntryKey
  | .Put index_id key _ document_id _ | .Delete index_id key document_id =>
    ⟨index_id, key.as_bytes, document_id⟩

structure OutboxAppend where
  event_id : OutboxEventId
  payload : CanonicalValue
  deriving DecidableEq

structure ScheduledInvocationInsert where
  id : ScheduledInvocationId
  pinned_code : PinnedCode
  function : FunctionName
  args : CanonicalValue
  execute_at : TimestampMicros
  idempotency_key : Option String
  deriving DecidableEq

structure CommitBatch where
  scope : EnvironmentScope
  operation_id : OperationId
  reads : List DocumentReadAssertion
  documents : List DocumentMutation
  indexes : List IndexMutation
  outbox : List OutboxAppend
  schedules : List ScheduledInvocationInsert
  intent_context : Option (List UInt8)
  deriving DecidableEq

structure CommitLimits where
  reads : Nat
  documents : Nat
  indexes : Nat
  outbox : Nat
  schedules : Nat
  payload_bytes : Nat

def CommitLimits.V1 : CommitLimits where
  reads := 10000
  documents := 1000
  indexes := 10000
  outbox := 100
  schedules := 100
  payload_bytes := 8 * 1024 * 1024

def MAX_INTENT_CONTEXT_BYTES : Nat := 1024

def encode_value (value : CanonicalValue) : Except StoreError (List UInt8) :=
  match encode_stored_value value with
  | .ok encoded => .ok encoded
  | .error _ => .error .LimitExceeded

/-- A loop over `items` that checks each against the keys inserted before it, then inserts its key. -/
def unique_loop {α κ : Type} (key : α → κ) (check : α → List κ → Except StoreError Unit) :
    List α → List κ → Except StoreError Unit
  | [], _ => .ok ()
  | item :: items, inserted => do
    check item inserted
    unique_loop key check items (key item :: inserted)

def validate_reads (reads : List DocumentReadAssertion) : Except StoreError Unit :=
  unique_loop DocumentReadAssertion.key (fun assertion read_keys =>
    if assertion.observed_revision = some 0 then .error .MutationConflict
    else if assertion.key ∈ read_keys then .error .DuplicateMutation
    else .ok ()) reads []

/-- Revision zero never exists, so expecting it is a conflict. -/
def DocumentMutation.expects_zero : DocumentMutation → Bool
  | .Upsert _ _ (.Exact revision) _ => revision = 0
  | .Upsert _ _ .Absent _ => false
  | .Delete _ _ expected_revision => expected_revision = 0

def validate_documents (documents : List DocumentMutation) : Except StoreError Unit :=
  unique_loop DocumentMutation.key (fun mutation document_keys =>
    if mutation.key ∈ document_keys then .error .DuplicateMutation
    else if mutation.expects_zero then .error .MutationConflict
    else .ok ()) documents []

def IndexMutation.puts_zero : IndexMutation → Bool
  | .Put _ _ _ _ document_revision => document_revision = 0
  | .Delete .. => false

def validate_indexes (indexes : List IndexMutation) : Except StoreError Unit :=
  unique_loop IndexMutation.identity (fun mutation index_keys =>
    if mutation.identity ∈ index_keys then .error .DuplicateMutation
    else if mutation.puts_zero then .error .MutationConflict
    else .ok ()) indexes []

def validate_outbox (outbox : List OutboxAppend) : Except StoreError Unit :=
  unique_loop OutboxAppend.event_id (fun event event_ids =>
    if event.event_id ∈ event_ids then .error .DuplicateMutation else .ok ()) outbox []

/-- Inserts both the identity and, when there is one, the idempotency key. -/
def validate_schedules (schedules : List ScheduledInvocationInsert) : Except StoreError Unit :=
  unique_loop (fun schedule => (schedule.id, schedule.idempotency_key)) (fun schedule inserted =>
    if schedule.id ∈ inserted.map Prod.fst then .error .DuplicateMutation
    else
      match schedule.idempotency_key with
      | none => .ok ()
      | some key =>
        if (as_bytes key).length = 0 ∨ (as_bytes key).length > 128 ∨
            some key ∈ inserted.map Prod.snd then
          .error .DuplicateMutation
        else .ok ()) schedules []

def add_payload (total amount : Nat) : Except StoreError Nat :=
  if total + amount ≤ CommitLimits.V1.payload_bytes then .ok (total + amount)
  else .error .LimitExceeded

/-- Adds the sizes of a list of payloads to a running total. -/
def add_payloads {α : Type} (size : α → Except StoreError Nat) : List α → Nat → Except StoreError Nat
  | [], total => .ok total
  | item :: items, total => do
    let amount ← size item
    let total ← add_payload total amount
    add_payloads size items total

/-- What a document mutation adds; a delete carries no value and adds nothing. -/
def DocumentMutation.payload_size : DocumentMutation → Except StoreError Nat
  | .Upsert _ _ _ value => List.length <$> encode_value value
  | .Delete .. => .ok 0

def CommitBatch.payload_bytes (batch : CommitBatch) : Except StoreError Nat := do
  let total ← add_payloads DocumentMutation.payload_size batch.documents 0
  let total ← add_payloads (fun mutation => .ok mutation.identity.key_bytes.length) batch.indexes total
  let total ← add_payloads (fun event => List.length <$> encode_value event.payload) batch.outbox total
  add_payloads (fun schedule => List.length <$> encode_value schedule.args) batch.schedules total

def CommitBatch.is_empty (batch : CommitBatch) : Bool :=
  batch.documents.isEmpty && batch.indexes.isEmpty && batch.outbox.isEmpty && batch.schedules.isEmpty

/-- Whether a count or the intent context is out of bounds. -/
def CommitBatch.exceeds_limits (batch : CommitBatch) : Bool :=
  batch.reads.length > CommitLimits.V1.reads
    || batch.documents.length > CommitLimits.V1.documents
    || batch.indexes.length > CommitLimits.V1.indexes
    || batch.outbox.length > CommitLimits.V1.outbox
    || batch.schedules.length > CommitLimits.V1.schedules
    || batch.intent_context.any fun context =>
      context.isEmpty || context.length > MAX_INTENT_CONTEXT_BYTES

def CommitBatch.validate (batch : CommitBatch) : Except StoreError Unit :=
  if batch.is_empty then .error .EmptyBatch
  else if batch.exceeds_limits then .error .LimitExceeded
  else do
    validate_reads batch.reads
    validate_documents batch.documents
    validate_indexes batch.indexes
    validate_outbox batch.outbox
    validate_schedules batch.schedules
    let payload_bytes ← batch.payload_bytes
    if payload_bytes > CommitLimits.V1.payload_bytes then .error .LimitExceeded else .ok ()

/-- A loop whose check refuses inserted keys accepts only lists without repeated keys, and every
item it accepts satisfies what the check establishes. The keys may be compared through a part `f`. -/
theorem unique_loop_eq_ok {α κ κ' : Type} {key : α → κ} (f : κ → κ')
    {check : α → List κ → Except StoreError Unit} {P : α → Prop}
    (hcheck : ∀ item inserted, check item inserted = .ok () → f (key item) ∉ inserted.map f ∧ P item)
    {items : List α} {inserted : List κ} (h : unique_loop key check items inserted = .ok ()) :
    (items.map fun item => f (key item)).Nodup ∧ (∀ item ∈ items, f (key item) ∉ inserted.map f) ∧
      ∀ item ∈ items, P item := by
  induction items generalizing inserted with
  | nil => simp
  | cons item items ih =>
    rw [unique_loop, fallible.bind_eq_ok_iff] at h
    obtain ⟨_, hitem, h⟩ := h
    obtain ⟨hfresh, hP⟩ := hcheck item inserted hitem
    obtain ⟨hnodup, hnew, hall⟩ := ih h
    simp only [List.map_cons, List.mem_cons, not_or] at hnew
    refine ⟨?_, ?_, ?_⟩
    · rw [List.map_cons, List.nodup_cons]
      refine ⟨?_, hnodup⟩
      rw [List.mem_map]
      rintro ⟨other, hother, hkey⟩
      exact (hnew other hother).1 hkey
    · rw [List.forall_mem_cons]
      exact ⟨hfresh, fun other hother => (hnew other hother).2⟩
    · rw [List.forall_mem_cons]
      exact ⟨hP, hall⟩

/-- What a batch that passes validation guarantees. -/
structure CommitBatch.Valid (batch : CommitBatch) : Prop where
  reads_nodup : (batch.reads.map DocumentReadAssertion.key).Nodup
  reads_nonzero : ∀ assertion ∈ batch.reads, assertion.observed_revision ≠ some 0
  documents_nodup : (batch.documents.map DocumentMutation.key).Nodup
  documents_nonzero : ∀ mutation ∈ batch.documents, mutation.expects_zero = false
  indexes_nodup : (batch.indexes.map IndexMutation.identity).Nodup
  indexes_nonzero : ∀ mutation ∈ batch.indexes, mutation.puts_zero = false
  outbox_nodup : (batch.outbox.map OutboxAppend.event_id).Nodup
  schedules_nodup : (batch.schedules.map ScheduledInvocationInsert.id).Nodup
  within_limits : batch.exceeds_limits = false

/-- What the validation of a batch establishes. -/
theorem CommitBatch.valid_of_validate {batch : CommitBatch} (h : batch.validate = .ok ()) : batch.Valid := by
  simp only [CommitBatch.validate, fallible.ite_error_eq_ok_iff, fallible.bind_eq_ok_iff] at h
  obtain ⟨_, hlimits, _, hreads, _, hdocuments, _, hindexes, _, houtbox, _, hschedules, _⟩ := h
  have hreads := unique_loop_eq_ok id (P := fun a => a.observed_revision ≠ some 0) (by
    intro assertion read_keys hok
    simp only [fallible.ite_error_eq_ok_iff] at hok
    exact ⟨by simpa using hok.2.1, hok.1⟩) hreads
  have hdocuments := unique_loop_eq_ok id (P := fun m => m.expects_zero = false) (by
    intro mutation document_keys hok
    simp only [fallible.ite_error_eq_ok_iff, Bool.not_eq_true] at hok
    exact ⟨by simpa using hok.1, hok.2.1⟩) hdocuments
  have hindexes := unique_loop_eq_ok id (P := fun m => m.puts_zero = false) (by
    intro mutation index_keys hok
    simp only [fallible.ite_error_eq_ok_iff, Bool.not_eq_true] at hok
    exact ⟨by simpa using hok.1, hok.2.1⟩) hindexes
  have houtbox := unique_loop_eq_ok id (P := fun _ => True) (by
    intro event event_ids hok
    simp only [fallible.ite_error_eq_ok_iff] at hok
    exact ⟨by simpa using hok.1, trivial⟩) houtbox
  have hschedules := unique_loop_eq_ok Prod.fst (P := fun _ => True) (by
    intro schedule inserted hok
    simp only [fallible.ite_error_eq_ok_iff] at hok
    exact ⟨hok.1, trivial⟩) hschedules
  exact ⟨hreads.1, hreads.2.2, hdocuments.1, hdocuments.2.2, hindexes.1, hindexes.2.2, houtbox.1,
    hschedules.1, by simpa using hlimits⟩

end runku.data
