import Runku.ExecutionQueue.Control
import Runku.Lib.Machine
import Runku.Protocol.Value
import Runku.Runtime.Data

/-!
`runku-execution-queue/src/agent.rs` over `runku-node-runtime/src/remote.rs`: the queue may deliver the job any number of
times, every delivery is a slot, and any slot may take the next step, which is one call that leaves the agent.
-/

namespace runku.node_runtime

open runku.core runku.value runku.runtime runku.protocol runku.execution_queue

/-- What becomes of a call to the control plane: it is answered, or it fails although its transition may have been
applied. A call that loses every optimistic update ends in a conflict. -/
inductive Call
  | Answered
  | Unavailable (applied : Bool)
  | Contended (applied : Bool)
  deriving DecidableEq

def Call.applied : Call → Bool
  | .Answered => true
  | .Unavailable applied | .Contended applied => applied

def Call.failure : Call → Option ExecutionControlError
  | .Answered => none
  | .Unavailable _ => some .Unavailable
  | .Contended _ => some .Conflict

/-- Where a delivery of the job stands. -/
inductive Phase
  /-- Taken from the queue. -/
  | Delivered
  /-- Not expired; admission of the Project comes next. -/
  | Unexpired
  /-- `prepare` calls `begin_preparing`. -/
  | Preparing
  /-- An outcome is published before admission: expired, rejected or cancelled. -/
  | Deciding (completion : ExecutionCompletion)
  /-- `prepare` loads the Release and its artifact. -/
  | Materializing (control_revision : Nat)
  /-- `prepare` returned; the deadline is checked again. -/
  | Prepared (control_revision : Nat)
  /-- The delivery is acknowledged next. -/
  | Admitted (control_revision : Nat)
  /-- `execute` calls `begin_running`. -/
  | Acknowledged (control_revision : Nat)
  /-- User code runs. -/
  | Executing (revision : Nat)
  /-- `execute` publishes its outcome. -/
  | Completing (completion : ExecutionCompletion)
  /-- Terminated, retried or abandoned before `execute`. -/
  | Released
  /-- `execute` returned. -/
  | Returned
  /-- The process is gone. -/
  | Lost
  deriving DecidableEq

/-- How `prepare` ends after `begin_preparing`. A failing heartbeat abandons it as unavailable. -/
inductive Materialization
  | Ready
  | Rejected (error : RuntimeError)
  | Unavailable
  | Invalid
  deriving DecidableEq

/-- What happens to a slot. -/
inductive SlotEvent
  | Deadline (expired : Bool)
  | Admission (permitted : Bool)
  | Control (call : Call)
  | Materialize (outcome : Materialization)
  | Ack (acknowledged : Bool)
  | Return (outcome : Except RuntimeError CanonicalValue)
  | Crash

/-- One step of the Gateway, of its callers, of the queue or of a slot. -/
inductive Action
  | Register (deadline_unix_ms : UInt64) (call : Call)
  | RequestCancel (call : Call)
  | Deliver
  | Slot (index : Nat) (event : SlotEvent)

/-- One invocation: its control record, its deliveries in order, and for every start of user code the state in
which `begin_running` found the record. -/
structure Execution where
  invocation_id : InvocationId
  entry : Option VersionedExecutionRecord
  deliveries : List Phase
  started : List ExecutionState

def Execution.new (invocation_id : InvocationId) : Execution := ⟨invocation_id, none, [], []⟩

/-- The state of the record. -/
def Execution.state (exec : Execution) : Option ExecutionState := exec.entry.map fun entry => entry.record.state

def Execution.goto (exec : Execution) (index : Nat) (phase : Phase) : Execution :=
  { exec with deliveries := exec.deliveries.set index phase }

/-- A call to the control plane and its answer; `attempt` is what it does to the record. -/
def Execution.call (exec : Execution) (call : Call)
    (attempt : Option VersionedExecutionRecord → Except ExecutionControlError VersionedExecutionRecord) :
    Execution × Except ExecutionControlError VersionedExecutionRecord :=
  (match call.applied, attempt exec.entry with
    | true, .ok entry => { exec with entry := some entry }
    | _, _ => exec,
   match call.failure with
    | some error => .error error
    | none => attempt exec.entry)

def Execution.transition (exec : Execution) (call : Call) (next : Transition) :
    Execution × Except ExecutionControlError VersionedExecutionRecord :=
  exec.call call fun entry => apply entry next

/-- The completion of a runtime outcome. A value that has no wire form leaves none. -/
def completion_of : Except RuntimeError CanonicalValue → Option ExecutionCompletion
  | .ok value =>
    match WireValueV1.from_canonical value with
    | .ok wire => some (.Succeeded wire.to_vec)
    | .error _ => none
  | .error .Cancelled => some .Cancelled
  | .error error => some (.Failed error.code)

/-- `prepare` after the answer of `begin_preparing`. -/
def after_begin_preparing : Except ExecutionControlError VersionedExecutionRecord → Phase
  | .error _ => .Released
  | .ok state => if state.record.state = .CancelRequested then .Deciding .Cancelled else .Materializing state.revision

/-- `execute` after the answer of `begin_running`. -/
def after_begin_running (control_revision : Nat) : Except ExecutionControlError VersionedExecutionRecord → Phase
  | .error _ => .Completing .Uncertain
  | .ok running =>
    if running.record.state = .CancelRequested then .Completing .Cancelled
    else .Executing (max running.revision control_revision)

/-- Whether user code starts. -/
def Phase.starts : Phase → Bool
  | .Executing _ => true
  | _ => false

/-- Notes a start of user code, with the state in which `begin_running` found the record. -/
def Execution.note_start (exec : Execution) (phase : Phase) (found : Option ExecutionState) : Execution :=
  if phase.starts then { exec with started := exec.started ++ found.toList } else exec

def DEADLINE_EXCEEDED : ExecutionCompletion := .Failed RuntimeError.DeadlineExceeded.code

/-- One step of a slot. -/
def Execution.advance (exec : Execution) (index : Nat) : Phase → SlotEvent → Execution
  | .Released, _ | .Returned, _ | .Lost, _ => exec
  | _, .Crash => exec.goto index .Lost
  | .Delivered, .Deadline expired => exec.goto index (if expired then .Deciding DEADLINE_EXCEEDED else .Unexpired)
  | .Unexpired, .Admission permitted => exec.goto index (if permitted then .Preparing else .Released)
  | .Preparing, .Control call =>
    let (exec, answer) := exec.transition call .Preparing
    exec.goto index (after_begin_preparing answer)
  | .Deciding completion, .Control call =>
    let (exec, _) := exec.transition call (.Complete completion)
    exec.goto index .Released
  | .Materializing revision, .Materialize outcome =>
    exec.goto index (match outcome with
      | .Ready => .Prepared revision
      | .Rejected error => .Deciding (.Failed error.code)
      | .Unavailable | .Invalid => .Released)
  | .Prepared revision, .Deadline expired =>
    exec.goto index (if expired then .Deciding DEADLINE_EXCEEDED else .Admitted revision)
  | .Admitted revision, .Ack acknowledged => exec.goto index (if acknowledged then .Acknowledged revision else .Released)
  | .Acknowledged revision, .Control call =>
    let found := exec.state
    let (exec, answer) := exec.transition call .Running
    (exec.goto index (after_begin_running revision answer)).note_start (after_begin_running revision answer) found
  | .Executing _, .Return outcome =>
    exec.goto index (match completion_of outcome with
      | some completion => .Completing completion
      | none => .Returned)
  | .Completing completion, .Control call =>
    let (exec, _) := exec.transition call (.Complete completion)
    exec.goto index .Returned
  | _, _ => exec

def Execution.step (exec : Execution) : Action → Execution
  | .Register deadline call => (exec.call call fun entry => register entry exec.invocation_id deadline).1
  | .RequestCancel call => (exec.transition call .Cancel).1
  | .Deliver => { exec with deliveries := exec.deliveries ++ [.Delivered] }
  | .Slot index event =>
    match exec.deliveries[index]? with
    | some phase => exec.advance index phase event
    | none => exec

def Execution.run (exec : Execution) (actions : List Action) : Execution := machine.run Execution.step exec actions

/-- A delivery is prepared and acknowledged, and calls `begin_running`. -/
def start_delivery (index : Nat) : List Action :=
  [.Slot index (.Deadline false), .Slot index (.Admission true), .Slot index (.Control .Answered),
    .Slot index (.Materialize .Ready), .Slot index (.Deadline false), .Slot index (.Ack true),
    .Slot index (.Control .Answered)]

/-- The record after a call: as before, or moved by the transition. -/
def Moved (before : Option ExecutionState) (next : Transition) (after : Option ExecutionState) : Prop :=
  after = before ∨ ∃ s s', before = some s ∧ after = some s' ∧ Moves s next s'

section
variable {exec : Execution} {call : Call} {next : Transition}

section
variable {attempt : Option VersionedExecutionRecord → Except ExecutionControlError VersionedExecutionRecord}

@[simp]
theorem Execution.call_deliveries : (exec.call call attempt).1.deliveries = exec.deliveries := by
  unfold Execution.call
  dsimp only
  split <;> rfl

@[simp]
theorem Execution.call_started : (exec.call call attempt).1.started = exec.started := by
  unfold Execution.call
  dsimp only
  split <;> rfl

/-- A call that is not applied leaves everything as it is. -/
theorem Execution.call_of_not_applied (h : call.applied = false) : (exec.call call attempt).1 = exec := by
  unfold Execution.call
  rw [h]

/-- What a call leaves behind: the entry it found, or the one the attempt returned. -/
theorem Execution.call_entry : (exec.call call attempt).1.entry = exec.entry ∨
    ∃ entry, attempt exec.entry = .ok entry ∧ (exec.call call attempt).1.entry = some entry := by
  unfold Execution.call
  dsimp only
  split
  · exact .inr ⟨_, ‹_›, rfl⟩
  · exact .inl rfl

/-- An answered call returns the record it left behind. -/
theorem Execution.call_answer {entry : VersionedExecutionRecord} (h : (exec.call call attempt).2 = .ok entry) :
    attempt exec.entry = .ok entry ∧ (exec.call call attempt).1.entry = some entry := by
  have hanswered : call = .Answered := by
    cases call with
    | Answered => rfl
    | Unavailable | Contended => cases h
  subst hanswered
  have hattempt : attempt exec.entry = .ok entry := h
  refine ⟨hattempt, ?_⟩
  simp only [Execution.call, Call.applied, hattempt]

end

theorem Execution.transition_moved : Moved exec.state next (exec.transition call next).1.state := by
  rcases @Execution.call_entry exec call fun entry => apply entry next with h | ⟨entry, hentry, h⟩
  · left
    rw [Execution.state, Execution.transition, h]
    rfl
  · obtain ⟨before, hbefore, hmoved⟩ := apply_eq_ok hentry
    refine .inr ⟨before.record.state, entry.record.state, ?_, ?_, transition_moves hmoved⟩
    · rw [Execution.state, hbefore]
      rfl
    · rw [Execution.state, Execution.transition, h]
      rfl

theorem Execution.register_state {deadline : UInt64} : (exec.step (.Register deadline call)).state = exec.state ∨
      exec.state = none ∧ (exec.step (.Register deadline call)).state = some .Queued := by
  rcases @Execution.call_entry exec call fun entry => register entry exec.invocation_id deadline with
    hentry | ⟨entry, hregister, hentry⟩
  · left
    simp only [Execution.state, Execution.step, hentry]
  · rcases register_eq_ok hregister with hsame | ⟨hnone, hqueued⟩
    · left
      simp only [Execution.state, Execution.step, hentry, hsame]
    · right
      simp only [Execution.state, Execution.step, hentry, hnone, Option.map_none, Option.map_some, hqueued, true_and]

theorem Execution.transition_answer {entry : VersionedExecutionRecord} (h : (exec.transition call next).2 = .ok entry) :
    ∃ s, exec.state = some s ∧ (exec.transition call next).1.state = some entry.record.state ∧
      Moves s next entry.record.state := by
  obtain ⟨hattempt, hentry⟩ := Execution.call_answer h
  obtain ⟨before, hbefore, hmoved⟩ := apply_eq_ok hattempt
  refine ⟨before.record.state, ?_, ?_, transition_moves hmoved⟩
  · rw [Execution.state, hbefore]
    rfl
  · rw [Execution.state, Execution.transition, hentry]
    rfl

end

/-- What a slot holds after one of them moved. -/
theorem getElem?_set_cases {phases : List Phase} {index i : Nat} {phase p : Phase}
    (h : (phases.set index phase)[i]? = some p) : i = index ∧ p = phase ∨ phases[i]? = some p ∧ i ≠ index := by
  rw [List.getElem?_set] at h
  split at h
  · rename_i hindex
    split at h
    · exact .inl ⟨hindex.symm, (Option.some.inj h).symm⟩
    · cases h
  · rename_i hindex
    exact .inr ⟨h, fun heq => hindex heq.symm⟩

/-- Whether the delivery is about to call `begin_running`. -/
def Phase.starting : Phase → Bool
  | .Acknowledged _ => true
  | _ => false

/-- Whether the delivery is acknowledged and its agent still works on it. -/
def Phase.acknowledged : Phase → Bool
  | .Acknowledged _ | .Executing _ | .Completing _ => true
  | _ => false

/-- Whether `begin_preparing` found the record. -/
def Phase.known : Phase → Bool
  | .Materializing _ | .Prepared _ | .Admitted _ | .Acknowledged _ | .Executing _ | .Completing _ => true
  | _ => false

/-- A move of a slot that calls nothing. -/
structure LocalMove (event : SlotEvent) (phase phase' : Phase) : Prop where
  acknowledged : phase'.acknowledged = true →
    phase.acknowledged = true ∧ phase'.starting = false ∨ (∃ revision, phase = .Admitted revision) ∧ event = .Ack true
  known : phase'.known = true → phase.known = true
  starts : phase'.starts = false
  completing : ∀ completion, phase' = .Completing completion →
    ∃ outcome, event = .Return outcome ∧ completion_of outcome = some completion
  returned : phase' = .Returned → ∃ outcome, event = .Return outcome ∧ completion_of outcome = none

/-- Everything a slot can do in one step. -/
inductive SlotStep (exec : Execution) (index : Nat) (event : SlotEvent) : Phase → Execution → Prop
  | idle (phase : Phase) : SlotStep exec index event phase exec
  | move {phase phase' : Phase} (h : LocalMove event phase phase') :
      SlotStep exec index event phase (exec.goto index phase')
  | prepare (call : Call) (hevent : event = .Control call) : SlotStep exec index event .Preparing
      ((exec.transition call .Preparing).1.goto index (after_begin_preparing (exec.transition call .Preparing).2))
  | decide (completion : ExecutionCompletion) (call : Call) (hevent : event = .Control call) :
      SlotStep exec index event (.Deciding completion)
        ((exec.transition call (.Complete completion)).1.goto index .Released)
  | run (revision : Nat) (call : Call) (hevent : event = .Control call) :
      SlotStep exec index event (.Acknowledged revision)
        (((exec.transition call .Running).1.goto index
          (after_begin_running revision (exec.transition call .Running).2)).note_start
            (after_begin_running revision (exec.transition call .Running).2) exec.state)
  | complete (completion : ExecutionCompletion) (call : Call) (hevent : event = .Control call) :
      SlotStep exec index event (.Completing completion)
        ((exec.transition call (.Complete completion)).1.goto index .Returned)

theorem advance_slotStep (exec : Execution) (index : Nat) (phase : Phase) (event : SlotEvent) :
    SlotStep exec index event phase (exec.advance index phase event) := by
  unfold Execution.advance
  split
  · exact .idle _
  · exact .idle _
  · exact .idle _
  · exact .move ⟨nofun, nofun, rfl, nofun, nofun⟩
  · rename_i expired
    cases expired with
    | false => exact .move ⟨nofun, nofun, rfl, nofun, nofun⟩
    | true => exact .move ⟨nofun, nofun, rfl, nofun, nofun⟩
  · rename_i permitted
    cases permitted with
    | false => exact .move ⟨nofun, nofun, rfl, nofun, nofun⟩
    | true => exact .move ⟨nofun, nofun, rfl, nofun, nofun⟩
  · exact .prepare _ rfl
  · exact .decide _ _ rfl
  · rename_i revision outcome
    cases outcome with
    | Ready => exact .move ⟨nofun, fun _ => rfl, rfl, nofun, nofun⟩
    | _ => exact .move ⟨nofun, nofun, rfl, nofun, nofun⟩
  · rename_i expired
    cases expired with
    | false => exact .move ⟨nofun, fun _ => rfl, rfl, nofun, nofun⟩
    | true => exact .move ⟨nofun, nofun, rfl, nofun, nofun⟩
  · rename_i acknowledged
    cases acknowledged with
    | false => exact .move ⟨nofun, nofun, rfl, nofun, nofun⟩
    | true => exact .move ⟨fun _ => .inr ⟨⟨_, rfl⟩, rfl⟩, fun _ => rfl, rfl, nofun, nofun⟩
  · exact .run _ _ rfl
  · rename_i revision outcome
    cases hcompletion : completion_of outcome with
    | none => exact .move ⟨nofun, nofun, rfl, nofun, fun _ => ⟨outcome, rfl, hcompletion⟩⟩
    | some completion =>
      refine .move ⟨fun _ => .inl ⟨rfl, rfl⟩, fun _ => rfl, rfl, fun completion' h => ⟨outcome, rfl, ?_⟩, nofun⟩
      cases h
      exact hcompletion
  · exact .complete _ _ rfl
  · exact .idle _

end runku.node_runtime
