import Runku.Data.Digest

/-!
`runku-data-sqlite/src/migration.rs`: the rows of one scope, which every statement names. A `CHECK` that ties columns
together is carried by the row types, and values are kept decoded.
-/

namespace runku.data_sqlite

open runku.core runku.value runku.data
open Std (ExtTreeMap)

def I64_MAX : Nat := 2 ^ 63 - 1

/-- An `INTEGER` column with `CHECK (column > 0)`. -/
structure PositiveI64 where
  val : Nat
  pos : 0 < val
  le_max : val ≤ I64_MAX
  deriving DecidableEq

def positive_i64 (value : Nat) : Except StoreError PositiveI64 :=
  if hpos : value = 0 then .error .MutationConflict
  else if hmax : value ≤ I64_MAX then .ok ⟨value, Nat.pos_of_ne_zero hpos, hmax⟩
  else .error .LimitExceeded

/-- `positive_u64`: a positive column always converts. -/
def PositiveI64.to_u64 (value : PositiveI64) : UInt64 := UInt64.ofNat value.val

theorem PositiveI64.toNat_to_u64 (value : PositiveI64) : value.to_u64.toNat = value.val := by
  have := value.le_max
  simp only [I64_MAX] at this
  exact UInt64.toNat_ofNat_of_lt' (by simp only [UInt64.size]; omega)

theorem PositiveI64.ext {a b : PositiveI64} (h : a.val = b.val) : a = b := by
  cases a
  cases b
  simp_all

theorem PositiveI64.to_u64_inj {a b : PositiveI64} (h : a.to_u64 = b.to_u64) : a = b := by
  apply PositiveI64.ext
  rw [← a.toNat_to_u64, h, b.toNat_to_u64]

theorem positive_i64_eq_ok_iff {value : Nat} {p : PositiveI64} : positive_i64 value = .ok p ↔ p.val = value := by
  unfold positive_i64
  constructor
  · intro h
    split at h
    · cases h
    · split at h
      · rw [← Except.ok.inj h]
      · cases h
  · rintro rfl
    rw [dif_neg p.pos.ne', dif_pos p.le_max]

/-- A revision column holds exactly the machine word it was written from. -/
theorem positive_i64_toNat_eq_ok_iff {value : UInt64} {p : PositiveI64} :
    positive_i64 value.toNat = .ok p ↔ p.to_u64 = value := by
  rw [positive_i64_eq_ok_iff, ← UInt64.toNat_inj, p.toNat_to_u64]

/-- `column + 1` on an `INTEGER` column of a `STRICT` table, which refuses the overflowing sum. -/
def increment (column : Nat) : Except StoreError Nat :=
  if column < I64_MAX then .ok (column + 1) else .error .Internal

theorem increment_eq_ok_iff {column next : Nat} :
    increment column = .ok next ↔ column < I64_MAX ∧ next = column + 1 := by
  unfold increment
  split <;> rename_i h <;> simp [h, eq_comm]

structure CommitOperationRow where
  batch_digest : Sha256Digest
  commit_sequence : Nat
  created_at_micros : Int64
  deriving DecidableEq

/-- The primary key of `runku_commit_document_results`. -/
structure DocumentResultKey where
  operation_id : OperationId
  ordinal : Nat
  deriving DecidableEq

instance : LinearOrder DocumentResultKey :=
  LinearOrder.lift' (fun key => toLex (key.operation_id, key.ordinal)) fun a b h => by
    cases a; cases b; simpa using h

structure DocumentRow where
  revision : PositiveI64
  commit_sequence : Nat
  created_at_micros : Int64
  updated_at_micros : Int64
  value : CanonicalValue
  deriving DecidableEq

structure IndexEntryRow where
  table_id : TableId
  document_revision : PositiveI64
  commit_sequence : Nat
  deriving DecidableEq

structure OutboxRow where
  commit_sequence : Nat
  payload : CanonicalValue
  created_at_micros : Int64
  deriving DecidableEq

structure ScheduledRow where
  pinned_code : PinnedCode
  function_name : FunctionName
  args : CanonicalValue
  execute_at_micros : Int64
  status : ScheduleStatus
  attempts : Nat
  lease_generation : Nat
  lease_owner : Option WorkerId
  lease_until_micros : Option Int64
  idempotency_key : Option String
  last_error_code : Option String
  commit_sequence : Nat
  created_at_micros : Int64
  updated_at_micros : Int64
  deriving DecidableEq

/-- The row of one outbox consumer. Cursor, lease and claimed position are each null or not null as a
whole; a null cursor is the position before every event. -/
structure OutboxConsumerRow where
  cursor : Option OutboxCursor
  lease : Option (WorkerId × Int64)
  lease_generation : Nat
  claimed : Option OutboxCursor
  updated_at_micros : Int64
  deriving DecidableEq

/-- All rows of one Environment. -/
structure Environment where
  commit_sequence : Option Nat
  commit_operations : ExtTreeMap OperationId CommitOperationRow
  commit_document_results : ExtTreeMap DocumentResultKey DocumentRevisionResult
  documents : ExtTreeMap DocumentKey DocumentRow
  index_entries : ExtTreeMap IndexEntryKey IndexEntryRow
  outbox : ExtTreeMap OutboxEventId OutboxRow
  scheduled_invocations : ExtTreeMap ScheduledInvocationId ScheduledRow
  outbox_consumers : ExtTreeMap OutboxConsumerName OutboxConsumerRow
  deriving DecidableEq

/-- The Environment before its first operation. -/
def Environment.empty : Environment := ⟨none, ∅, ∅, ∅, ∅, ∅, ∅, ∅⟩

/-- The sequence a snapshot reports; an Environment without a row is at zero. -/
def Environment.sequence (env : Environment) : Nat := env.commit_sequence.getD 0

/-- All Environments of a store. -/
abbrev SqliteStore := EnvironmentScope → Environment

end runku.data_sqlite
