import Runku.Realtime.Registry

/-! `runku-realtime/src/dispatcher.rs`: steps end where another task can run. -/

namespace runku.realtime

open runku.core runku.value runku.data runku.execution

structure DispatcherConfig where
  batch_limit : Nat
  lease_micros : Nat
  deriving DecidableEq

def DispatcherConfig.PRODUCTION : DispatcherConfig where
  batch_limit := 100
  lease_micros := 30000000

structure SubscriptionRunFailure where
  code : String
  retryable : Bool
  deriving DecidableEq

def SubscriptionRunFailure.authorization_expired : SubscriptionRunFailure where
  code := "AUTHORIZATION_EXPIRED"
  retryable := false

inductive DispatcherError
  | Storage (error : StoreError)
  | Realtime (error : RealtimeError)
  | Rerun (failure : SubscriptionRunFailure)
  deriving DecidableEq

structure PollOutcome where
  lease_busy : Bool
  events : Nat
  reruns : Nat
  acknowledged_through : Option OutboxCursor
  deriving DecidableEq

/-- The locals of a poll: its arguments and the reruns it completed. -/
structure Poll where
  scope : EnvironmentScope
  now : TimestampMicros
  reruns : Nat
  deriving DecidableEq

/-- Which of its two lists of tickets a poll executes. -/
inductive Stage
  | Retries
  | Impacts (claim : ClaimedOutboxBatch)
  deriving DecidableEq

/-- Where a poll stands. An idle dispatcher remembers what the last poll returned. -/
inductive Phase
  | Idle (returned : Option (Except DispatcherError PollOutcome))
  | Executing (poll : Poll) (tickets : List RerunTicket) (stage : Stage)
  | Rerunning (poll : Poll) (ticket : RerunTicket) (tickets : List RerunTicket) (stage : Stage)
  | Claiming (poll : Poll) (lease_until : TimestampMicros)
  | Marking (poll : Poll) (claim : ClaimedOutboxBatch) (events : List OutboxEventRecord)
      (tickets : List RerunTicket)
  | Checking (poll : Poll) (claim : ClaimedOutboxBatch)
  | Acking (poll : Poll) (claim : ClaimedOutboxBatch) (through : OutboxCursor)
  deriving DecidableEq

/-- A registry and the dispatcher that drives it. -/
structure System where
  config : DispatcherConfig
  registry : SubscriptionRegistry
  phase : Phase
  deriving DecidableEq

inductive Action
  | Register (spec : SubscriptionSpec) (outcome : QueryOutcome)
  | Remove (id : SubscriptionId)
  | Resume (id : SubscriptionId)
  /-- A call of `poll_once`. -/
  | Poll (scope : EnvironmentScope) (now : TimestampMicros)
  /-- The next step of the poll that needs no answer. -/
  | Advance
  /-- The answer to a rerun. -/
  | Rerun (result : Except SubscriptionRunFailure QueryOutcome)
  /-- The answer to `claim_outbox`. -/
  | Claim (result : Except StoreError ClaimedOutboxBatch)
  /-- The answer to `ack_outbox`. -/
  | Ack (result : Except StoreError Unit)
  deriving DecidableEq

def System.returns (s : System) (result : Except DispatcherError PollOutcome) : System :=
  { s with phase := .Idle (some result) }

/-- The end of the lease a poll asks for. -/
def lease_until (config : DispatcherConfig) (now : TimestampMicros) : Except RealtimeError TimestampMicros :=
  match checked_add_micros now config.lease_micros with
  | some value => .ok value
  | none => .error .InvalidConfiguration

/-- Records a failed rerun and ends the poll. -/
def System.fail_ticket (s : System) (poll : Poll) (ticket : RerunTicket) (failure : SubscriptionRunFailure) :
    System :=
  match s.registry.complete_failure ticket failure.code failure.retryable poll.now with
  | (.error error, registry) => { s with registry }.returns (.error (.Realtime error))
  | (.ok _, registry) => { s with registry }.returns (.error (.Rerun failure))

/-- What follows after all tickets of a stage are executed. -/
def System.finish_stage (s : System) (poll : Poll) : Stage → System
  | .Retries =>
    match lease_until s.config poll.now with
    | .error error => s.returns (.error (.Realtime error))
    | .ok lease_until => { s with phase := .Claiming poll lease_until }
  | .Impacts claim => { s with phase := .Checking poll claim }

/-- The top of the loop of `execute_tickets`: an expired authorization fails without a rerun. -/
def System.execute (s : System) (poll : Poll) (tickets : List RerunTicket) (stage : Stage) : System :=
  match tickets with
  | [] => s.finish_stage poll stage
  | ticket :: tickets =>
    if ticket.spec.authorized_until ≤ poll.now then s.fail_ticket poll ticket .authorization_expired
    else { s with phase := .Rerunning poll ticket tickets stage }

/-- Marks the next claimed event. -/
def System.mark (s : System) (poll : Poll) (claim : ClaimedOutboxBatch) (events : List OutboxEventRecord)
    (tickets : List RerunTicket) : System :=
  match events with
  | [] => { s with phase := .Executing poll tickets (.Impacts claim) }
  | event :: events =>
    match ChangeImpact.decode event.payload with
    | .error error => s.returns (.error (.Realtime error))
    | .ok impact =>
      let (issued, registry) := s.registry.mark_impacted poll.scope event.cursor impact poll.now
      { s with registry, phase := .Marking poll claim events (tickets ++ issued) }

/-- Refuses to acknowledge while a subscription still owes work. -/
def System.check (s : System) (poll : Poll) (claim : ClaimedOutboxBatch) : System :=
  match claim.events.getLast? with
  | none => s.returns (.error (.Realtime .Internal))
  | some last =>
    if s.registry.has_pending_through poll.scope last.cursor then s.returns (.error (.Realtime .PendingWork))
    else { s with phase := .Acking poll claim last.cursor }

def System.advance (s : System) : System :=
  match s.phase with
  | .Executing poll tickets stage => s.execute poll tickets stage
  | .Marking poll claim events tickets => s.mark poll claim events tickets
  | .Checking poll claim => s.check poll claim
  | _ => s

def System.rerun (sha256 : List UInt8 → Sha256Digest) (s : System) (poll : Poll) (ticket : RerunTicket)
    (tickets : List RerunTicket) (stage : Stage) : Except SubscriptionRunFailure QueryOutcome → System
  | .error failure => s.fail_ticket poll ticket failure
  | .ok outcome =>
    match s.registry.complete_success sha256 ticket outcome with
    | (.error error, registry) => { s with registry }.returns (.error (.Realtime error))
    | (.ok next, registry) =>
      { s with
        registry
        phase := .Executing { poll with reruns := poll.reruns + 1 } (next.toList ++ tickets) stage }

def System.claim (s : System) (poll : Poll) : Except StoreError ClaimedOutboxBatch → System
  | .error .Busy => s.returns (.ok ⟨true, 0, poll.reruns, none⟩)
  | .error error => s.returns (.error (.Storage error))
  | .ok claim =>
    if claim.events.isEmpty then s.returns (.ok ⟨false, 0, poll.reruns, none⟩)
    else { s with phase := .Marking poll claim claim.events [] }

def System.ack (s : System) (poll : Poll) (claim : ClaimedOutboxBatch) (through : OutboxCursor) :
    Except StoreError Unit → System
  | .error error => s.returns (.error (.Storage error))
  | .ok _ => s.returns (.ok ⟨false, min claim.events.length U32_MAX, poll.reruns, some through⟩)

def System.poll (s : System) (scope : EnvironmentScope) (now : TimestampMicros) : System :=
  let (tickets, registry) := s.registry.ready_retries now
  { s with registry, phase := .Executing ⟨scope, now, 0⟩ tickets .Retries }

/-- One step of the system. An action that does not fit the phase is not taken. -/
def System.step (sha256 : List UInt8 → Sha256Digest) (s : System) : Action → System
  | .Register spec outcome => { s with registry := (s.registry.register sha256 spec outcome).2 }
  | .Remove id => { s with registry := (s.registry.remove id).2 }
  | .Resume id => { s with registry := (s.registry.resume id).2 }
  | .Advance => s.advance
  | .Poll scope now => match s.phase with
    | .Idle _ => s.poll scope now
    | _ => s
  | .Rerun result => match s.phase with
    | .Rerunning poll ticket tickets stage => s.rerun sha256 poll ticket tickets stage result
    | _ => s
  | .Claim result => match s.phase with
    | .Claiming poll _ => s.claim poll result
    | _ => s
  | .Ack result => match s.phase with
    | .Acking poll claim through => s.ack poll claim through result
    | _ => s

def System.new (config : DispatcherConfig) (registry : SubscriptionRegistry) : System :=
  ⟨config, registry, .Idle none⟩

def System.run (sha256 : List UInt8 → Sha256Digest) (s : System) (actions : List Action) : System :=
  actions.foldl (System.step sha256) s

end runku.realtime
