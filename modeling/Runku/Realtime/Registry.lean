import Runku.Data.Digest
import Runku.Realtime.Impact

/-!
`runku-realtime/src/registry.rs`: each function is one transition, because it holds the lock throughout. The counters of
generations and revisions do not overflow here.
-/

namespace runku.realtime

open runku.core runku.value runku.data runku.execution

structure RegistryConfig where
  max_subscriptions : Nat
  max_dependencies : Nat
  max_result_bytes : Nat
  delivery_buffer : Nat
  retry_base_micros : Nat
  retry_max_micros : Nat
  max_consecutive_failures : Nat
  deriving DecidableEq

def RegistryConfig.PRODUCTION : RegistryConfig where
  max_subscriptions := 100000
  max_dependencies := 10000
  max_result_bytes := 4 * 1024 * 1024
  delivery_buffer := 64
  retry_base_micros := 100000
  retry_max_micros := 30000000
  max_consecutive_failures := 10

def RegistryConfig.validate (config : RegistryConfig) : Except RealtimeError RegistryConfig :=
  if config.max_subscriptions = 0 ∨ config.max_dependencies = 0 ∨ config.max_result_bytes = 0 ∨
      config.delivery_buffer = 0 ∨ config.retry_base_micros = 0 ∨
      config.retry_base_micros > config.retry_max_micros ∨ config.max_consecutive_failures = 0 then
    .error .InvalidConfiguration
  else .ok config

/-- What a subscription reruns, without the identity it runs under, which the registry only stores. -/
structure SubscriptionSpec where
  id : SubscriptionId
  scope : EnvironmentScope
  release_id : ReleaseId
  pinned_code : PinnedCode
  function : FunctionName
  arguments : CanonicalValue
  authorized_until : TimestampMicros
  deriving DecidableEq

structure SubscriptionSnapshot where
  spec : SubscriptionSpec
  value : CanonicalValue
  result_hash : Sha256Digest
  snapshot_sequence : Option Nat
  dependencies : List ReadDependency
  delivery_revision : Nat
  processed_through : Option OutboxCursor
  suspended : Bool
  deriving DecidableEq

inductive DeliveryEvent
  | State (subscription_id : SubscriptionId) (delivery_revision : Nat) (value : CanonicalValue)
      (result_hash : Sha256Digest) (snapshot_sequence : Option Nat)
  | Error (subscription_id : SubscriptionId) (delivery_revision : Nat) (code : String) (retryable : Bool)
      (suspended : Bool)
  deriving DecidableEq

structure RerunTicket where
  spec : SubscriptionSpec
  generation : Nat
  deriving DecidableEq

structure Entry where
  snapshot : SubscriptionSnapshot
  delivery : List DeliveryEvent
  running_generation : Option Nat
  next_generation : Nat
  running_through : Option OutboxCursor
  dirty_through : Option OutboxCursor
  retry_not_before : Option TimestampMicros
  consecutive_failures : Nat
  deriving DecidableEq

structure SubscriptionRegistry where
  config : RegistryConfig
  entries : Std.ExtTreeMap SubscriptionId Entry
  deriving DecidableEq

def SubscriptionRegistry.new (config : RegistryConfig) : Except RealtimeError SubscriptionRegistry := do
  return ⟨← config.validate, ∅⟩

def validate_outcome (outcome : QueryOutcome) (config : RegistryConfig) : Except RealtimeError Unit :=
  if outcome.dependencies.length > config.max_dependencies then .error .LimitExceeded
  else
    match encode_stored_value outcome.value with
    | .error _ => .error .InvalidOutcome
    | .ok encoded => if encoded.length > config.max_result_bytes then .error .LimitExceeded else .ok ()

def result_hash (sha256 : List UInt8 → Sha256Digest) (value : CanonicalValue) : Except RealtimeError Sha256Digest :=
  match encode_stored_value value with
  | .error _ => .error .InvalidOutcome
  | .ok encoded => .ok (sha256 encoded)

def max_cursor (current : Option OutboxCursor) (candidate : OutboxCursor) : OutboxCursor :=
  match current with
  | none => candidate
  | some value => max value candidate

def start_rerun (entry : Entry) (through : OutboxCursor) : RerunTicket × Entry :=
  let generation := entry.next_generation + 1
  (⟨entry.snapshot.spec, generation⟩, { entry with
    next_generation := generation
    running_generation := some generation
    running_through := some through
    retry_not_before := none })

def require_generation (entry : Entry) (generation : Nat) : Except RealtimeError Unit :=
  if entry.running_generation = some generation then .ok () else .error .StaleTicket

def U64_MAX : Nat := 2 ^ 64 - 1
def U32_MAX : Nat := 2 ^ 32 - 1

def retry_delay (config : RegistryConfig) (failures : Nat) : Nat :=
  let shift := min (failures - 1) 63
  min (min (config.retry_base_micros * 2 ^ shift) U64_MAX) config.retry_max_micros

def send_event (entry : Entry) (event : DeliveryEvent) : Entry :=
  { entry with delivery := entry.delivery ++ [event] }

/-- The first state of an entry, with its first delivery. -/
def Entry.new (spec : SubscriptionSpec) (outcome : QueryOutcome) (hash : Sha256Digest) : Entry where
  snapshot := {
    spec
    value := outcome.value
    result_hash := hash
    snapshot_sequence := outcome.snapshot_sequence
    dependencies := outcome.dependencies
    delivery_revision := 1
    processed_through := none
    suspended := false }
  delivery := [.State spec.id 1 outcome.value hash outcome.snapshot_sequence]
  running_generation := none
  next_generation := 0
  running_through := none
  dirty_through := none
  retry_not_before := none
  consecutive_failures := 0

/-- Whether an event concerns an entry and was not processed yet. -/
def Entry.impacted (entry : Entry) (scope : EnvironmentScope) (cursor : OutboxCursor) (impact : ChangeImpact) :
    Bool :=
  entry.snapshot.spec.scope = scope && !(entry.snapshot.processed_through.any fun seen => seen ≥ cursor) &&
    impact.invalidates entry.snapshot.dependencies

/-- The turn of one entry in `mark_impacted`. -/
def Entry.mark_impacted (scope : EnvironmentScope) (cursor : OutboxCursor) (impact : ChangeImpact)
    (now : TimestampMicros) (entry : Entry) : Option RerunTicket × Entry :=
  if !entry.impacted scope cursor impact then (none, entry)
  else if entry.running_generation.isSome || entry.snapshot.suspended ||
      entry.retry_not_before.any fun deadline => deadline > now then
    (none, { entry with dirty_through := some (max_cursor entry.dirty_through cursor) })
  else
    let (ticket, entry) := start_rerun entry cursor
    (some ticket, entry)

/-- The turn of one entry in `ready_retries`. -/
def Entry.ready_retry (now : TimestampMicros) (entry : Entry) : Option RerunTicket × Entry :=
  if entry.running_generation.isNone && !entry.snapshot.suspended &&
      entry.retry_not_before.all fun deadline => deadline ≤ now then
    match entry.dirty_through with
    | none => (none, entry)
    | some cursor =>
      let (ticket, entry) := start_rerun { entry with dirty_through := none } cursor
      (some ticket, entry)
  else (none, entry)

/-- Applies a result and reports it. -/
def Entry.apply_outcome (outcome : QueryOutcome) (hash : Sha256Digest) (through : OutboxCursor) (id : SubscriptionId)
    (entry : Entry) : Entry :=
  let revision := entry.snapshot.delivery_revision + 1
  send_event { entry with
    snapshot := { entry.snapshot with
      value := outcome.value
      result_hash := hash
      snapshot_sequence := outcome.snapshot_sequence
      dependencies := outcome.dependencies
      delivery_revision := revision
      processed_through := some (max_cursor entry.snapshot.processed_through through)
      suspended := false }
    consecutive_failures := 0
    retry_not_before := none
    running_generation := none
    running_through := none }
    (.State id revision outcome.value hash outcome.snapshot_sequence)

/-- Starts the rerun that invalidations during the last one asked for. -/
def Entry.follow_up (entry : Entry) : Option RerunTicket × Entry :=
  match entry.dirty_through with
  | none => (none, entry)
  | some dirty =>
    let entry := { entry with dirty_through := none }
    if entry.snapshot.processed_through.any fun seen => seen ≥ dirty then (none, entry)
    else
      let (ticket, entry) := start_rerun entry dirty
      (some ticket, entry)

def Entry.complete_success (ticket : RerunTicket) (outcome : QueryOutcome) (hash : Sha256Digest) (entry : Entry) :
    Except RealtimeError (Option RerunTicket) × Entry :=
  match require_generation entry ticket.generation, entry.running_through with
  | .error error, _ => (.error error, entry)
  | .ok _, none => (.error .StaleTicket, entry)
  | .ok _, some through =>
    let (next, entry) := (entry.apply_outcome outcome hash through ticket.spec.id).follow_up
    (.ok next, entry)

/-- Counts a failed delivery revision and reports it. -/
def Entry.report_failure (id : SubscriptionId) (code : String) (retryable : Bool) (entry : Entry) : Entry :=
  let revision := entry.snapshot.delivery_revision + 1
  send_event { entry with snapshot := { entry.snapshot with delivery_revision := revision } }
    (.Error id revision code retryable entry.snapshot.suspended)

/-- Ends the active rerun without a result: its cursor is owed again. -/
def Entry.end_rerun (config : RegistryConfig) (retryable : Bool) (through : OutboxCursor) (entry : Entry) : Entry :=
  let consecutive_failures := min (entry.consecutive_failures + 1) U32_MAX
  { entry with
    dirty_through := some (max_cursor entry.dirty_through through)
    running_generation := none
    running_through := none
    consecutive_failures
    snapshot := { entry.snapshot with
      suspended := !retryable || consecutive_failures ≥ config.max_consecutive_failures } }

/-- A failure that is not retried counts as processed, and its entry is suspended. A deadline that
overflows leaves the failure half recorded. -/
def Entry.complete_failure (config : RegistryConfig) (ticket : RerunTicket) (code : String) (retryable : Bool)
    (now : TimestampMicros) (entry : Entry) : Except RealtimeError Unit × Entry :=
  match require_generation entry ticket.generation, entry.running_through with
  | .error error, _ => (.error error, entry)
  | .ok _, none => (.error .StaleTicket, entry)
  | .ok _, some through =>
    let entry := entry.end_rerun config retryable through
    if entry.snapshot.suspended then
      (.ok (), { entry with
        retry_not_before := none
        snapshot := { entry.snapshot with
          processed_through := some (max_cursor entry.snapshot.processed_through through) } }.report_failure
        ticket.spec.id code retryable)
    else
      match checked_add_micros now (retry_delay config entry.consecutive_failures) with
      | none => (.error .Internal, entry)
      | some deadline =>
        (.ok (), { entry with retry_not_before := some deadline }.report_failure ticket.spec.id code retryable)

def Entry.resume (entry : Entry) : Entry :=
  { entry with
    snapshot := { entry.snapshot with suspended := false }
    consecutive_failures := 0
    retry_not_before := none }

/-- Whether an entry still owes work up to a cursor. -/
def Entry.pending_through (scope : EnvironmentScope) (through : OutboxCursor) (entry : Entry) : Bool :=
  entry.snapshot.spec.scope = scope && !entry.snapshot.suspended &&
    [entry.running_through, entry.dirty_through].any fun cursor => cursor.any fun cursor => cursor ≤ through

/-- Changes the entry of an identity, if there is one. -/
def SubscriptionRegistry.with_entry {α : Type} (registry : SubscriptionRegistry) (id : SubscriptionId)
    (update : Entry → Except RealtimeError α × Entry) : Except RealtimeError α × SubscriptionRegistry :=
  match registry.entries[id]? with
  | none => (.error .NotFound, registry)
  | some entry =>
    ((update entry).1, { registry with entries := registry.entries.insert id (update entry).2 })

/-- Visits every entry in the order of identities and collects the tickets issued. -/
def SubscriptionRegistry.visit (registry : SubscriptionRegistry) (turn : Entry → Option RerunTicket × Entry) :
    List RerunTicket × SubscriptionRegistry :=
  (registry.entries.toList.filterMap fun row => (turn row.2).1,
    { registry with entries := registry.entries.map fun _ entry => (turn entry).2 })

section
variable (sha256 : List UInt8 → Sha256Digest) (registry : SubscriptionRegistry)

def SubscriptionRegistry.register (spec : SubscriptionSpec) (outcome : QueryOutcome) :
    Except RealtimeError SubscriptionSnapshot × SubscriptionRegistry :=
  match validate_outcome outcome registry.config, result_hash sha256 outcome.value with
  | .error error, _ => (.error error, registry)
  | .ok _, .error error => (.error error, registry)
  | .ok _, .ok hash =>
    if spec.id ∈ registry.entries then (.error .AlreadyExists, registry)
    else if registry.entries.size ≥ registry.config.max_subscriptions then (.error .LimitExceeded, registry)
    else
      let entry := Entry.new spec outcome hash
      (.ok entry.snapshot, { registry with entries := registry.entries.insert spec.id entry })

def SubscriptionRegistry.remove (id : SubscriptionId) : Except RealtimeError Unit × SubscriptionRegistry :=
  if id ∈ registry.entries then (.ok (), { registry with entries := registry.entries.erase id })
  else (.error .NotFound, registry)

def SubscriptionRegistry.mark_impacted (scope : EnvironmentScope) (cursor : OutboxCursor) (impact : ChangeImpact)
    (now : TimestampMicros) : List RerunTicket × SubscriptionRegistry :=
  registry.visit (Entry.mark_impacted scope cursor impact now)

def SubscriptionRegistry.ready_retries (now : TimestampMicros) : List RerunTicket × SubscriptionRegistry :=
  registry.visit (Entry.ready_retry now)

def SubscriptionRegistry.complete_success (ticket : RerunTicket) (outcome : QueryOutcome) :
    Except RealtimeError (Option RerunTicket) × SubscriptionRegistry :=
  match validate_outcome outcome registry.config, result_hash sha256 outcome.value with
  | .error error, _ => (.error error, registry)
  | .ok _, .error error => (.error error, registry)
  | .ok _, .ok hash => registry.with_entry ticket.spec.id (Entry.complete_success ticket outcome hash)

def SubscriptionRegistry.complete_failure (ticket : RerunTicket) (code : String) (retryable : Bool)
    (now : TimestampMicros) : Except RealtimeError Unit × SubscriptionRegistry :=
  registry.with_entry ticket.spec.id (Entry.complete_failure registry.config ticket code retryable now)

def SubscriptionRegistry.has_pending_through (scope : EnvironmentScope) (through : OutboxCursor) : Bool :=
  registry.entries.toList.any fun row => row.2.pending_through scope through

def SubscriptionRegistry.resume (id : SubscriptionId) : Except RealtimeError Unit × SubscriptionRegistry :=
  registry.with_entry id fun entry => (.ok (), entry.resume)

end

end runku.realtime
