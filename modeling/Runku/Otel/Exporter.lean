import Runku.Core.Id
import Runku.Lib.Machine

/-!
`runku-otel/src/exporter.rs`, `checkpoint.rs` and `mapping.rs`: any number of exporter processes share the row; each
statement, each request and each stop is one step. The Protobuf mapping of a record is a parameter.
-/

namespace runku.otel

open runku.core

/-- A record of the operational log with its position in it. -/
structure SequencedOperationalEvent (Event : Type) where
  cursor : Nat
  event : Event
  deriving DecidableEq

inductive OtlpTransportError
  | InvalidConfiguration
  | InvalidInput
  | Unavailable
  | InvalidResponse
  | LimitExceeded
  deriving DecidableEq

inductive OtlpTransportOutcome
  | Accepted
  | Retryable
  | Terminal
  deriving DecidableEq

/-- How events are checked and written as Protobuf. -/
structure Mapping (Event LogRecord : Type) where
  scope : Event → EnvironmentScope
  validate : Event → Bool
  map_record : SequencedOperationalEvent Event → Except OtlpTransportError LogRecord
  encode_to_vec : EnvironmentScope → List LogRecord → List UInt8

section
variable {Event LogRecord : Type} (mapping : Mapping Event LogRecord)

/-- The loop over the records of a page. -/
def map_records (scope : EnvironmentScope) :
    Option Nat → List (SequencedOperationalEvent Event) → Except OtlpTransportError (List LogRecord)
  | _, [] => .ok []
  | previous, record :: records =>
    if mapping.scope record.event ≠ scope ∨ previous.any (record.cursor ≤ ·) ∨ !mapping.validate record.event then
      .error .InvalidInput
    else do
      let log_record ← mapping.map_record record
      let log_records ← map_records scope (some record.cursor) records
      return log_record :: log_records

def encode_otlp_logs (records : List (SequencedOperationalEvent Event)) (maximum_bytes : Nat) :
    Except OtlpTransportError (List UInt8) :=
  match records with
  | [] => .error .InvalidInput
  | first :: _ =>
    if maximum_bytes = 0 then .error .InvalidInput
    else do
      let scope := mapping.scope first.event
      let log_records ← map_records mapping scope none records
      let encoded := mapping.encode_to_vec scope log_records
      if encoded.length > maximum_bytes then .error .LimitExceeded else return encoded

/-- Drops records from the end of the page until the request fits. -/
def fit (records : List (SequencedOperationalEvent Event)) (maximum_bytes : Nat) :
    Option (List (SequencedOperationalEvent Event) × List UInt8) :=
  match encode_otlp_logs mapping records maximum_bytes with
  | .ok payload => some (records, payload)
  | .error .LimitExceeded => if 1 < records.length then fit records.dropLast maximum_bytes else none
  | .error _ => none
termination_by records.length
decreasing_by simp only [List.length_dropLast]; omega

end

abbrev OtlpDestinationDigest := Vector UInt8 32

structure CheckpointRow where
  destination : OtlpDestinationDigest
  cursor : Nat
  revision : Nat
  deriving DecidableEq

structure ExportCheckpoint where
  destination : OtlpDestinationDigest
  cursor : Nat
  revision : Nat
  deriving DecidableEq

inductive CheckpointError
  | InvalidRequest
  | ConfigurationDrift
  | Conflict
  | Unavailable
  | Corruption
  | Unsupported
  deriving DecidableEq

/-- The transaction that inserts the row if there is none and checks its destination. -/
def load_or_create (row : Option CheckpointRow) (destination : OtlpDestinationDigest) :
    Except CheckpointError ExportCheckpoint × Option CheckpointRow :=
  let stored := row.getD ⟨destination, 0, 0⟩
  if stored.destination ≠ destination then (.error .ConfigurationDrift, row)
  else (.ok ⟨destination, stored.cursor, stored.revision⟩, some stored)

/-- Whether the `UPDATE` of `advance` finds its row. -/
def CheckpointRow.expected (row : CheckpointRow) (checkpoint : ExportCheckpoint) : Bool :=
  row.destination = checkpoint.destination && row.cursor = checkpoint.cursor && row.revision = checkpoint.revision

/-- The `UPDATE` of `advance`, and whether it affected the row. -/
def update_checkpoint (row : Option CheckpointRow) (checkpoint : ExportCheckpoint) (next : Nat) :
    Bool × Option CheckpointRow :=
  match row with
  | none => (false, none)
  | some row =>
    if row.expected checkpoint then (true, some { row with cursor := next, revision := row.revision + 1 })
    else (false, some row)

structure OtlpExporterConfig where
  destination : OtlpDestinationDigest
  maximum_batch_records : Nat
  maximum_request_bytes : Nat
  maximum_attempts : Nat

inductive OtlpExportError
  | InvalidConfiguration
  | AlreadyRunning
  | Cancelled
  | Source
  | ConfigurationDrift
  | CheckpointConflict
  | CheckpointUnavailable
  | CheckpointCorrupt
  | Payload
  | Rejected
  | RetryExhausted
  | InvalidResponse
  deriving DecidableEq

inductive OtlpExportOutcome
  | Idle (cursor : Nat)
  | Exported (records : Nat) (cursor : Nat) (replayed_checkpoint : Bool)
  deriving DecidableEq

def map_checkpoint : CheckpointError → OtlpExportError
  | .ConfigurationDrift => .ConfigurationDrift
  | .Conflict => .CheckpointConflict
  | .Unavailable => .CheckpointUnavailable
  | .Corruption => .CheckpointCorrupt
  | .InvalidRequest | .Unsupported => .InvalidConfiguration

/-- Where an exporter is in its cycle, with what it holds. -/
inductive Phase (Event : Type)
  | Idle
  | Loaded (checkpoint : ExportCheckpoint)
  | Sending (checkpoint : ExportCheckpoint) (batch : List (SequencedOperationalEvent Event)) (payload : List UInt8)
      (next : Nat) (attempt : Nat)
  | Accepted (checkpoint : ExportCheckpoint) (batch : List (SequencedOperationalEvent Event)) (next : Nat)
  | Refused (checkpoint : ExportCheckpoint) (batch : List (SequencedOperationalEvent Event)) (next : Nat)

/-- A cycle goes on in a phase or returns. -/
inductive Progress (Event : Type)
  | Continue (phase : Phase Event)
  | Return (result : Except OtlpExportError OtlpExportOutcome)

def Progress.phase {Event : Type} : Progress Event → Phase Event
  | .Continue phase => phase
  | .Return _ => .Idle

section
variable {Event LogRecord : Type} (mapping : Mapping Event LogRecord)

/-- `LogRepository::query`: the first records after the cursor. -/
def query (journal : List (SequencedOperationalEvent Event)) (after limit : Nat) :
    List (SequencedOperationalEvent Event) :=
  (journal.filter (after < ·.cursor)).take limit

def after_load : Except CheckpointError ExportCheckpoint → Progress Event
  | .ok checkpoint => .Continue (.Loaded checkpoint)
  | .error error => .Return (.error (map_checkpoint error))

/-- The page is read and shortened to a request. -/
def after_query (config : OtlpExporterConfig) (checkpoint : ExportCheckpoint)
    (records : List (SequencedOperationalEvent Event)) : Progress Event :=
  if records.isEmpty then .Return (.ok (.Idle checkpoint.cursor))
  else
    match fit mapping records config.maximum_request_bytes with
    | none => .Return (.error .Payload)
    | some (batch, payload) =>
      match batch.getLast? with
      | none => .Return (.error .Payload)
      | some last => .Continue (.Sending checkpoint batch payload last.cursor 0)

/-- One attempt of `send_with_retry` has its outcome. -/
def after_attempt (config : OtlpExporterConfig) (checkpoint : ExportCheckpoint)
    (batch : List (SequencedOperationalEvent Event)) (payload : List UInt8) (next attempt : Nat)
    (outcome : Except OtlpTransportError OtlpTransportOutcome) : Progress Event :=
  let retry :=
    if config.maximum_attempts ≤ attempt + 1 then .Return (.error .RetryExhausted)
    else .Continue (.Sending checkpoint batch payload next (attempt + 1))
  match outcome with
  | .ok .Accepted => .Continue (.Accepted checkpoint batch next)
  | .ok .Retryable => retry
  | .ok .Terminal => .Return (.error .Rejected)
  | .error .Unavailable => retry
  | .error .InvalidResponse | .error .LimitExceeded => .Return (.error .InvalidResponse)
  | .error .InvalidConfiguration | .error .InvalidInput => .Return (.error .Payload)

/-- The `UPDATE` of `advance` is skipped for a cursor that is not ahead or does not fit its column. -/
def invalid_advance (checkpoint : ExportCheckpoint) (next : Nat) : Bool := next ≤ checkpoint.cursor || 2 ^ 63 ≤ next

def after_update (checkpoint : ExportCheckpoint) (batch : List (SequencedOperationalEvent Event)) (next : Nat)
    (affected : Bool) : Progress Event :=
  if affected then .Return (.ok (.Exported batch.length next false))
  else .Continue (.Refused checkpoint batch next)

/-- The row that refused the update is read again: another process may have moved it to the same cursor. -/
def after_reload (batch : List (SequencedOperationalEvent Event)) (next : Nat) :
    Except CheckpointError ExportCheckpoint → Progress Event
  | .error error => .Return (.error (map_checkpoint error))
  | .ok current =>
    if current.cursor = next then .Return (.ok (.Exported batch.length next true))
    else .Return (.error .CheckpointConflict)

end

/-- The journal and its next position, the checkpoint row, the requests that collectors accepted, and the exporters. -/
structure System (Event : Type) where
  journal : List (SequencedOperationalEvent Event)
  next_sequence : Nat
  row : Option CheckpointRow
  accepted : List (OtlpDestinationDigest × List (SequencedOperationalEvent Event))
  exporters : Nat → Phase Event

def System.initial {Event : Type} : System Event := ⟨[], 1, none, [], fun _ => .Idle⟩

/-- What can happen next. A stop is a crash, a cancellation or a call that failed. -/
inductive Action (Event : Type)
  | Admit (event : Event)
  | Load (exporter : Nat)
  | Query (exporter : Nat)
  | Attempt (exporter : Nat) (delivered : Bool) (outcome : Except OtlpTransportError OtlpTransportOutcome)
  | Advance (exporter : Nat)
  | Reload (exporter : Nat)
  | Stop (exporter : Nat)

/-- The exporter that acts. -/
def Action.exporter {Event : Type} : Action Event → Option Nat
  | .Admit _ => none
  | .Load exporter | .Query exporter | .Attempt exporter _ _ | .Advance exporter | .Reload exporter | .Stop exporter =>
    some exporter

section
variable {Event LogRecord : Type} (mapping : Mapping Event LogRecord) (configs : Nat → OtlpExporterConfig)

def System.enter (s : System Event) (exporter : Nat) (progress : Progress Event) : System Event :=
  { s with exporters := Function.update s.exporters exporter progress.phase }

/-- One step. An action that the exporter's phase does not allow does nothing. An accepted request is one that the
    transport reports as accepted, or one whose response was lost. -/
def System.step (s : System Event) : Action Event → System Event
  | .Admit event => { s with journal := s.journal ++ [⟨s.next_sequence, event⟩], next_sequence := s.next_sequence + 1 }
  | .Load exporter =>
    match s.exporters exporter with
    | .Idle =>
      let loaded := load_or_create s.row (configs exporter).destination
      { s with row := loaded.2 }.enter exporter (after_load loaded.1)
    | _ => s
  | .Query exporter =>
    match s.exporters exporter with
    | .Loaded checkpoint =>
      s.enter exporter (after_query mapping (configs exporter) checkpoint
        (query s.journal checkpoint.cursor (configs exporter).maximum_batch_records))
    | _ => s
  | .Attempt exporter delivered outcome =>
    match s.exporters exporter with
    | .Sending checkpoint batch payload next attempt =>
      let accepted :=
        if delivered ∨ outcome = .ok .Accepted then s.accepted ++ [((configs exporter).destination, batch)]
        else s.accepted
      { s with accepted := accepted }.enter exporter
        (after_attempt (configs exporter) checkpoint batch payload next attempt outcome)
    | _ => s
  | .Advance exporter =>
    match s.exporters exporter with
    | .Accepted checkpoint batch next =>
      if invalid_advance checkpoint next then s.enter exporter (.Return (.error .InvalidConfiguration))
      else
        let updated := update_checkpoint s.row checkpoint next
        { s with row := updated.2 }.enter exporter (after_update checkpoint batch next updated.1)
    | _ => s
  | .Reload exporter =>
    match s.exporters exporter with
    | .Refused _ batch next =>
      let loaded := load_or_create s.row (configs exporter).destination
      { s with row := loaded.2 }.enter exporter (after_reload batch next loaded.1)
    | _ => s
  | .Stop exporter => s.enter exporter (.Return (.error .Cancelled))

def run (actions : List (Action Event)) : System Event := machine.run (System.step mapping configs) .initial actions

end

end runku.otel
