import Runku.Core.Id
import Runku.Lib.Fallible

/-! `runku-execution-queue/src/control.rs`. -/

namespace runku.execution_queue

open runku.core bytes fallible

def EXECUTION_CONTROL_FORMAT_VERSION : Nat := 1
def EXECUTION_RESULT_PAYLOAD_MAX_BYTES : Nat := 524288

inductive ExecutionState
  | Queued
  | Preparing
  | Running
  | CancelRequested
  | Succeeded
  | Failed
  | Cancelled
  | Uncertain
  deriving DecidableEq

def ExecutionState.is_terminal : ExecutionState → Bool
  | .Succeeded | .Failed | .Cancelled | .Uncertain => true
  | _ => false

/-- Whether the execution has neither started nor ended. -/
def ExecutionState.is_open (state : ExecutionState) : Bool := state ≠ .Running && !state.is_terminal

inductive ExecutionCompletion
  | Succeeded (payload : List UInt8)
  | Failed (code : String)
  | Cancelled
  | Uncertain
  deriving DecidableEq

structure ExecutionRecordV1 where
  format_version : Nat
  invocation_id : InvocationId
  deadline_unix_ms : UInt64
  state : ExecutionState
  result : Option (List UInt8)
  error_code : Option String
  deriving DecidableEq

inductive ExecutionControlError
  | InvalidRecord
  | NotFound
  | Conflict
  | Unavailable
  deriving DecidableEq

def valid_error_code (code : String) : Bool :=
  !code.isEmpty && (as_bytes code).length ≤ 128 &&
    (as_bytes code).all fun byte => is_ascii_uppercase byte || is_ascii_digit byte || byte == 95

def valid_payload (payload : List UInt8) : Bool :=
  !payload.isEmpty && payload.length ≤ EXECUTION_RESULT_PAYLOAD_MAX_BYTES

/-- Whether the record carries what its state says: a result, an error code or neither. -/
def ExecutionRecordV1.valid_shape (record : ExecutionRecordV1) : Bool :=
  match record.state with
  | .Succeeded => record.result.isSome && record.error_code.isNone
  | .Failed => record.result.isNone && record.error_code.isSome
  | _ => record.result.isNone && record.error_code.isNone

def ExecutionRecordV1.validate (record : ExecutionRecordV1) : Except ExecutionControlError Unit :=
  if record.format_version ≠ EXECUTION_CONTROL_FORMAT_VERSION ∨ record.deadline_unix_ms = 0 ∨
      !record.error_code.all valid_error_code ∨ !record.result.all valid_payload ∨ !record.valid_shape then
    .error .InvalidRecord
  else .ok ()

inductive Transition
  | Preparing
  | Running
  | Cancel
  | Complete (completion : ExecutionCompletion)
  deriving DecidableEq

/-- The state, result and error code a completion writes. -/
def ExecutionCompletion.outcome : ExecutionCompletion → ExecutionState × Option (List UInt8) × Option String
  | .Succeeded payload => (.Succeeded, some payload, none)
  | .Failed code => (.Failed, none, some code)
  | .Cancelled => (.Cancelled, none, none)
  | .Uncertain => (.Uncertain, none, none)

/-- The record with the outcome of a completion. -/
def ExecutionRecordV1.with_outcome (current : ExecutionRecordV1) (completion : ExecutionCompletion) :
    ExecutionRecordV1 :=
  { current with
    state := completion.outcome.1
    result := completion.outcome.2.1
    error_code := completion.outcome.2.2 }

def completed_record (current : ExecutionRecordV1) (completion : ExecutionCompletion) :
    Except ExecutionControlError ExecutionRecordV1 := do
  let record := current.with_outcome completion
  record.validate
  return record

def transition (current : ExecutionRecordV1) (next : Transition) :
    Except ExecutionControlError ExecutionRecordV1 := do
  current.validate
  if current.state.is_terminal then
    match next with
    | .Complete completion => do
      let candidate ← completed_record current completion
      if candidate = current then .ok candidate else .error .Conflict
    | _ => .ok current
  else
    match next, current.state with
    | .Preparing, .Queued | .Preparing, .Preparing => do
      let record := { current with state := .Preparing }
      record.validate
      return record
    | .Running, .Preparing | .Running, .Running => do
      let record := { current with state := .Running }
      record.validate
      return record
    | .Preparing, .CancelRequested | .Running, .CancelRequested => .ok current
    | .Preparing, _ | .Running, _ => .error .Conflict
    | .Cancel, _ => do
      let record := { current with state := .CancelRequested }
      record.validate
      return record
    | .Complete completion, _ => completed_record current completion

/-- A record at a revision of the backend, which keeps valid records only. -/
structure VersionedExecutionRecord where
  revision : Nat
  record : ExecutionRecordV1
  valid : record.validate = .ok ()
  deriving DecidableEq

variable {completion : ExecutionCompletion} {current record : ExecutionRecordV1}

theorem completed_record_eq_ok_iff : completed_record current completion = .ok record ↔
      record = current.with_outcome completion ∧ record.validate = .ok () := by
  simp only [completed_record, bind_eq_ok_iff, pure_eq_ok, Except.ok.injEq]
  constructor
  · rintro ⟨_, hvalid, rfl⟩
    exact ⟨rfl, hvalid⟩
  · rintro ⟨rfl, hvalid⟩
    exact ⟨(), hvalid, rfl⟩

variable {next : Transition}

/-- Every record a transition returns is valid. -/
theorem transition_valid (h : transition current next = .ok record) : record.validate = .ok () := by
  obtain ⟨_, hcurrent, h⟩ := bind_eq_ok_iff.mp h
  split at h
  · split at h
    · obtain ⟨candidate, hcandidate, h⟩ := bind_eq_ok_iff.mp h
      split at h
      · cases h
        exact (completed_record_eq_ok_iff.mp hcandidate).2
      · cases h
    · cases h
      exact hcurrent
  · split at h
    all_goals first
      | exact (completed_record_eq_ok_iff.mp h).2
      | (obtain rfl := Except.ok.inj h; exact hcurrent)
      | (obtain ⟨_, hvalid, h⟩ := bind_eq_ok_iff.mp h; obtain rfl := Except.ok.inj h; exact hvalid)
      | cases h

/-- The states a transition leads between. -/
inductive Moves : ExecutionState → Transition → ExecutionState → Prop
  | terminal {state : ExecutionState} (next : Transition) (hterminal : state.is_terminal = true) : Moves state next state
  | prepare {state : ExecutionState} (hstate : state = .Queued ∨ state = .Preparing) :
      Moves state .Preparing .Preparing
  | run {state : ExecutionState} (hstate : state = .Preparing ∨ state = .Running) : Moves state .Running .Running
  | cancelled {next : Transition} (hnext : next = .Preparing ∨ next = .Running) :
      Moves .CancelRequested next .CancelRequested
  | cancel {state : ExecutionState} (hactive : state.is_terminal = false) : Moves state .Cancel .CancelRequested
  | complete {state : ExecutionState} (completion : ExecutionCompletion) (hactive : state.is_terminal = false) :
      Moves state (.Complete completion) completion.outcome.1

variable {state state' : ExecutionState}

/-- A record that has left `Queued` and `Preparing` never returns to them. -/
theorem Moves.past (h : Moves state next state')
    (hqueued : state ≠ .Queued) (hpreparing : state ≠ .Preparing) : state' ≠ .Queued ∧ state' ≠ .Preparing := by
  cases h with
  | terminal => exact ⟨hqueued, hpreparing⟩
  | prepare hstate => exact absurd hstate (not_or.mpr ⟨hqueued, hpreparing⟩)
  | run | cancelled | cancel => exact ⟨nofun, nofun⟩
  | complete completion => cases completion <;> exact ⟨nofun, nofun⟩

/-- A completed record is terminal. -/
theorem Moves.terminal_of_complete (h : Moves state (.Complete completion) state') : state'.is_terminal = true := by
  cases h with
  | terminal _ hterminal => exact hterminal
  | cancelled hnext => rcases hnext with hnext | hnext <;> cases hnext
  | complete => cases completion <;> rfl

/-- An open record is closed by a start or a completion only. -/
theorem Moves.is_open (h : Moves state next state')
    (hnext : next = .Preparing ∨ next = .Cancel) (hopen : state.is_open = true) : state'.is_open = true := by
  cases h with
  | terminal => exact hopen
  | prepare | cancelled | cancel => rfl
  | run | complete => rcases hnext with hnext | hnext <;> cases hnext

/-- What starts an open record: it was preparing, unless its cancellation is requested. -/
theorem Moves.started (h : Moves state .Running state') (hopen : state.is_open = true)
    (hcancel : state' ≠ .CancelRequested) : state = .Preparing ∧ state' = .Running := by
  cases h with
  | terminal next hterminal =>
    rw [ExecutionState.is_open, hterminal] at hopen
    simp at hopen
  | run hstate =>
    rcases hstate with rfl | rfl
    · exact ⟨rfl, rfl⟩
    · cases hopen
  | cancelled => exact absurd rfl hcancel

/-- All moves of a record, transition by transition. -/
theorem transition_moves (h : transition current next = .ok record) : Moves current.state next record.state := by
  obtain ⟨_, _, h⟩ := bind_eq_ok_iff.mp h
  split at h
  · rename_i hterminal
    split at h
    · obtain ⟨candidate, _, h⟩ := bind_eq_ok_iff.mp h
      split at h
      · rename_i hcandidate
        cases h
        rw [hcandidate]
        exact .terminal _ hterminal
      · cases h
    · cases h
      exact .terminal _ hterminal
  · rename_i hactive
    rw [Bool.not_eq_true] at hactive
    split at h
    · obtain ⟨_, _, h⟩ := bind_eq_ok_iff.mp h
      cases h
      exact .prepare (.inl ‹_›)
    · obtain ⟨_, _, h⟩ := bind_eq_ok_iff.mp h
      cases h
      exact .prepare (.inr ‹_›)
    · obtain ⟨_, _, h⟩ := bind_eq_ok_iff.mp h
      cases h
      exact .run (.inl ‹_›)
    · obtain ⟨_, _, h⟩ := bind_eq_ok_iff.mp h
      cases h
      exact .run (.inr ‹_›)
    · cases h
      rw [‹current.state = _›]
      exact .cancelled (.inl rfl)
    · cases h
      rw [‹current.state = _›]
      exact .cancelled (.inr rfl)
    · cases h
    · cases h
    · obtain ⟨_, _, h⟩ := bind_eq_ok_iff.mp h
      cases h
      exact .cancel hactive
    · rw [(completed_record_eq_ok_iff.mp h).1]
      exact .complete _ hactive

/-- Registers the execution, or returns the record it already has under the same deadline. -/
def register (entry : Option VersionedExecutionRecord) (invocation_id : InvocationId) (deadline_unix_ms : UInt64) :
    Except ExecutionControlError VersionedExecutionRecord :=
  let record : ExecutionRecordV1 :=
    ⟨EXECUTION_CONTROL_FORMAT_VERSION, invocation_id, deadline_unix_ms, .Queued, none, none⟩
  match hvalid : record.validate with
  | .error error => .error error
  | .ok () =>
    match entry with
    | some existing =>
      if existing.record.deadline_unix_ms = deadline_unix_ms then .ok existing else .error .Conflict
    | none => .ok ⟨1, record, hvalid⟩

/-- A record that is not terminal takes every completion it can hold. -/
theorem transition_complete_of_active {current : ExecutionRecordV1} (hcurrent : current.validate = .ok ())
    (hactive : current.state.is_terminal = false) (completion : ExecutionCompletion) :
    transition current (.Complete completion) = completed_record current completion := by
  simp only [transition, hcurrent, hactive, ok_bind, Bool.false_eq_true, if_false]

variable {error : ExecutionControlError}

theorem completed_record_eq_error {current : ExecutionRecordV1}
    (h : completed_record current completion = .error error) : error = .InvalidRecord := by
  simp only [completed_record, ExecutionRecordV1.validate] at h
  split at h
  · exact (Except.error.inj h).symm
  · cases h

/-- A completion that the record can hold is refused only by another outcome. -/
theorem transition_complete_eq_error {current : ExecutionRecordV1} (hcurrent : current.validate = .ok ())
    (hvalid : (current.with_outcome completion).validate = .ok ())
    (h : transition current (.Complete completion) = .error error) : error = .Conflict := by
  have hcompleted : completed_record current completion = .ok (current.with_outcome completion) :=
    completed_record_eq_ok_iff.mpr ⟨rfl, hvalid⟩
  simp only [transition, hcurrent, hcompleted, ok_bind] at h
  split at h
  · split at h
    · cases h
    · exact (Except.error.inj h).symm
  · cases h

/-- Registration keeps a record, or starts one that is queued. -/
theorem register_eq_ok {entry : Option VersionedExecutionRecord} {invocation_id : InvocationId}
    {deadline_unix_ms : UInt64} {after : VersionedExecutionRecord}
    (h : register entry invocation_id deadline_unix_ms = .ok after) :
    entry = some after ∨ entry = none ∧ after.record.state = .Queued := by
  unfold register at h
  dsimp only at h
  split at h
  · cases h
  · split at h
    · split at h
      · cases h
        exact .inl rfl
      · cases h
    · rw [← Except.ok.inj h]
      exact .inr ⟨rfl, rfl⟩

/-- Moves the record of the execution; a record that does not change keeps its revision. -/
def apply (entry : Option VersionedExecutionRecord) (next : Transition) :
    Except ExecutionControlError VersionedExecutionRecord :=
  match entry with
  | none => .error .NotFound
  | some entry =>
    match hcandidate : transition entry.record next with
    | .error error => .error error
    | .ok candidate =>
      if candidate ≠ entry.record then .ok ⟨entry.revision + 1, candidate, transition_valid hcandidate⟩ else .ok entry

/-- What an accepted call did to the record. -/
theorem apply_eq_ok {entry : Option VersionedExecutionRecord} {after : VersionedExecutionRecord}
    (h : apply entry next = .ok after) :
    ∃ before, entry = some before ∧ transition before.record next = .ok after.record := by
  unfold apply at h
  split at h
  · cases h
  · rename_i before
    split at h
    · cases h
    · rename_i candidate hcandidate
      refine ⟨before, rfl, ?_⟩
      split at h
      · rw [← Except.ok.inj h]
        exact hcandidate
      · rename_i hsame
        rw [← Except.ok.inj h, hcandidate, not_not.mp hsame]

theorem apply_eq_error {before : VersionedExecutionRecord}
    (h : apply (some before) next = .error error) : transition before.record next = .error error := by
  simp only [apply] at h
  split at h
  · rename_i error' herror
    rw [herror, Except.error.inj h]
  · split at h <;> cases h

end runku.execution_queue
