import Runku.NodeRuntime.Remote

namespace runku.node_runtime

open runku.core runku.value runku.runtime runku.protocol runku.execution_queue fallible machine json

def runtime_error_from_code (code : String) : RuntimeError :=
  match code with
  | "RUNTIME_CONFIGURATION_INVALID" => .InvalidConfiguration
  | "RUNTIME_INVOCATION_INVALID" => .InvalidInvocation
  | "RUNTIME_ARGUMENTS_INVALID" => .InvalidArguments
  | "RUNTIME_VERSION_UNSUPPORTED" => .UnsupportedRuntime
  | "RUNTIME_ARTIFACT_INVALID" => .InvalidArtifact
  | "RUNTIME_FUNCTION_NOT_FOUND" => .FunctionNotFound
  | "RUNTIME_BUSY" => .Busy
  | "RUNTIME_UNAVAILABLE" => .Unavailable
  | "RUNTIME_DEADLINE_EXCEEDED" => .DeadlineExceeded
  | "RUNTIME_CANCELLED" => .Cancelled
  | "RUNTIME_HEAP_LIMIT_EXCEEDED" => .HeapLimitExceeded
  | "RUNTIME_JAVASCRIPT_ERROR" => .JavaScript
  | "RUNTIME_RESULT_INVALID" => .InvalidResult
  | _ => .Internal

/-- What the caller of a remote execution reads off its record; `parse` reads a wire value. -/
def terminal_outcome (parse : List UInt8 → Except RuntimeError CanonicalValue) (record : ExecutionRecordV1) :
    Except RuntimeError (Option (Except RuntimeError CanonicalValue)) :=
  match record.state with
  | .Succeeded =>
    match record.result with
    | none => .error .Internal
    | some bytes => do
      let value ← parse bytes
      return some (.ok value)
  | .Failed =>
    match record.error_code with
    | none => .error .Internal
    | some code => .ok (some (.error (runtime_error_from_code code)))
  | .Cancelled => .ok (some (.error .Cancelled))
  | .Uncertain => .ok (some (.error .Unavailable))
  | _ => .ok none

/-- The wait loop of the caller ends with a terminal record, and with no other. -/
theorem terminal_outcome_eq_ok_none_iff (parse : List UInt8 → Except RuntimeError CanonicalValue)
    (record : ExecutionRecordV1) : terminal_outcome parse record = .ok none ↔ record.state.is_terminal = false := by
  unfold terminal_outcome ExecutionState.is_terminal
  cases record.state with
  | Succeeded =>
    cases record.result with
    | none => simp
    | some bytes => cases hparse : parse bytes <;> simp [hparse]
  | Failed => cases record.error_code <;> simp
  | _ => simp

/-- What a call of the control plane in a step fails with. -/
def Execution.failure (exec : Execution) : Action → Option ExecutionControlError
  | .Register deadline call => failure_of (exec.call call fun entry => register entry exec.invocation_id deadline).2
  | .RequestCancel call => failure_of (exec.transition call .Cancel).2
  | .Slot index (.Control call) =>
    match exec.deliveries[index]? with
    | some .Preparing => failure_of (exec.transition call .Preparing).2
    | some (.Deciding completion) | some (.Completing completion) =>
      failure_of (exec.transition call (.Complete completion)).2
    | some (.Acknowledged _) => failure_of (exec.transition call .Running).2
    | _ => none
  | _ => none
where
  /-- The failure of an answer. -/
  failure_of : Except ExecutionControlError VersionedExecutionRecord → Option ExecutionControlError
    | .ok _ => none
    | .error error => some error

/-- No call fails for a control plane that is unavailable or in conflict. -/
def Execution.Reliable (exec : Execution) (action : Action) : Prop :=
  exec.failure action ≠ some .Unavailable ∧ exec.failure action ≠ some .Conflict

/-- User code returns only values among `results`. -/
def Returns (results : CanonicalValue → Prop) : Action → Prop
  | .Slot _ (.Return (.ok value)) => results value
  | _ => True

/-- The wire form of the value is short enough for a record. -/
def FitsRecord (value : CanonicalValue) : Prop :=
  ∃ wire, WireValueV1.from_canonical value = .ok wire ∧ wire.to_vec.length ≤ EXECUTION_RESULT_PAYLOAD_MAX_BYTES

/-- The delivery's record is terminal, and its caller observes an outcome. -/
def Execution.Observable (exec : Execution) : Prop :=
  ∃ entry, exec.entry = some entry ∧ entry.record.state.is_terminal = true ∧
    ∀ parse, terminal_outcome parse entry.record ≠ .ok none

/-- A completion that a record can hold. -/
def Acceptable : ExecutionCompletion → Prop
  | .Succeeded payload => valid_payload payload = true
  | .Failed code => valid_error_code code = true
  | .Cancelled | .Uncertain => True

theorem valid_error_code_code (error : RuntimeError) : valid_error_code error.code = true := by
  cases error <;> decide +kernel

/-- Every record can be completed by what it can hold, and by nothing else. -/
theorem validate_with_outcome {record : ExecutionRecordV1} (hvalid : record.validate = .ok ())
    (completion : ExecutionCompletion) :
    (record.with_outcome completion).validate = .ok () ↔ Acceptable completion := by
  simp only [ExecutionRecordV1.validate, ite_error_eq_ok_iff, not_or] at hvalid
  obtain ⟨⟨hformat, hdeadline, _⟩, _⟩ := hvalid
  cases completion <;>
    simp [ExecutionRecordV1.validate, ExecutionRecordV1.with_outcome, ExecutionCompletion.outcome,
      ExecutionRecordV1.valid_shape, Acceptable, not_not.mp hformat, hdeadline]

theorem to_vec_ne_nil (wire : WireValueV1) : wire.to_vec ≠ [] := by
  cases wire <;> simp [WireValueV1.to_vec, tagged, object]

variable {value : CanonicalValue}

theorem acceptable_of_fits (hfits : FitsRecord value) :
    ∃ completion, completion_of (.ok value) = some completion ∧ Acceptable completion := by
  obtain ⟨wire, hwire, hlength⟩ := hfits
  refine ⟨.Succeeded wire.to_vec, by rw [completion_of, hwire], ?_⟩
  simp [Acceptable, valid_payload, to_vec_ne_nil, hlength]

/-- Every failure of user code has a completion that a record can hold. -/
theorem acceptable_of_error (error : RuntimeError) :
    ∃ completion, completion_of (.error error) = some completion ∧ Acceptable completion := by
  cases error with
  | Cancelled => exact ⟨.Cancelled, rfl, trivial⟩
  | _ => exact ⟨_, rfl, valid_error_code_code _⟩

/-- What every step of a reliable run keeps. -/
structure Execution.Settling (exec : Execution) : Prop where
  /-- A prepared delivery has a record. -/
  known : ∀ (i : Nat) (p : Phase), exec.deliveries[i]? = some p → p.known = true → exec.entry ≠ none
  /-- What is about to be published can be held by a record. -/
  acceptable : ∀ (i : Nat) (completion : ExecutionCompletion),
    exec.deliveries[i]? = some (.Completing completion) → Acceptable completion
  /-- A delivery that returned left a terminal record. -/
  returned : ∀ i : Nat, exec.deliveries[i]? = some .Returned →
    ∃ state, exec.state = some state ∧ state.is_terminal = true

theorem Execution.Settling.observable {exec : Execution} (h : exec.Settling) {index : Nat}
    (hreturned : exec.deliveries[index]? = some .Returned) : exec.Observable := by
  obtain ⟨state, hstate, hterminal⟩ := h.returned index hreturned
  obtain ⟨entry, hentry, rfl⟩ := Option.map_eq_some_iff.mp hstate
  refine ⟨entry, hentry, hterminal, fun parse hnone => ?_⟩
  rw [terminal_outcome_eq_ok_none_iff, hterminal] at hnone
  cases hnone

/-- Terminal records stay terminal. -/
theorem Moved.terminal {before after : Option ExecutionState} {next : Transition} (h : Moved before next after)
    (hbefore : ∃ state, before = some state ∧ state.is_terminal = true) :
    ∃ state, after = some state ∧ state.is_terminal = true := by
  obtain ⟨state, hstate, hterminal⟩ := hbefore
  rcases h with h | ⟨s, s', hs, hs', hmoves⟩
  · exact ⟨state, h.trans hstate, hterminal⟩
  · cases hs.symm.trans hstate
    cases hmoves with
    | terminal => exact ⟨_, hs', hterminal⟩
    | prepare hopen | run hopen => rcases hopen with rfl | rfl <;> cases hterminal
    | cancelled => cases hterminal
    | cancel hactive | complete _ hactive => rw [hactive] at hterminal; cases hterminal

section
variable {exec exec' : Execution} {index : Nat} {phase phase' : Phase} {call : Call} {next : Transition}

/-- A call never removes the record. -/
theorem Execution.transition_entry_ne_none (h : exec.entry ≠ none) : (exec.transition call next).1.entry ≠ none := by
  rcases @Execution.call_entry exec call fun entry => apply entry next with hentry | ⟨entry, _, hentry⟩
  · rw [Execution.transition, hentry]
    exact h
  · rw [Execution.transition, hentry]
    exact Option.some_ne_none _

theorem Execution.Settling.of_record (h : exec.Settling) (hdeliveries : exec'.deliveries = exec.deliveries)
    (hentry : exec.entry ≠ none → exec'.entry ≠ none)
    (hterminal : (∃ state, exec.state = some state ∧ state.is_terminal = true) →
      ∃ state, exec'.state = some state ∧ state.is_terminal = true) : exec'.Settling := by
  refine ⟨?_, ?_, ?_⟩ <;> rw [hdeliveries]
  · exact fun i p hp hknown => hentry (h.known i p hp hknown)
  · exact h.acceptable
  · exact fun i hi => hterminal (h.returned i hi)

/-- A slot of a settling execution moves. -/
theorem Execution.Settling.goto (h : exec.Settling) (hknown : phase'.known = true → exec.entry ≠ none)
    (hacceptable : ∀ completion, phase' = .Completing completion → Acceptable completion)
    (hreturned : phase' = .Returned → ∃ state, exec.state = some state ∧ state.is_terminal = true) :
    (exec.goto index phase').Settling := by
  refine ⟨fun i p hp hpknown => ?_, fun i completion hp => ?_, fun i hp => ?_⟩
  · rcases getElem?_set_cases hp with ⟨rfl, rfl⟩ | ⟨hp, _⟩
    · exact hknown hpknown
    · exact h.known i p hp hpknown
  · rcases getElem?_set_cases hp with ⟨rfl, heq⟩ | ⟨hp, _⟩
    · exact hacceptable completion heq.symm
    · exact h.acceptable i completion hp
  · rcases getElem?_set_cases hp with ⟨rfl, heq⟩ | ⟨hp, _⟩
    · exact hreturned heq.symm
    · exact h.returned i hp

theorem Execution.Settling.transition (h : exec.Settling) : (exec.transition call next).1.Settling :=
  h.of_record Execution.call_deliveries Execution.transition_entry_ne_none Execution.transition_moved.terminal

/-- A call of a reliable step is answered, and not by a conflict. -/
theorem answer_of_reliable {attempt : Option VersionedExecutionRecord → Except ExecutionControlError VersionedExecutionRecord}
    (hunavailable : Execution.failure.failure_of (exec.call call attempt).2 ≠ some .Unavailable)
    (hconflict : Execution.failure.failure_of (exec.call call attempt).2 ≠ some .Conflict) :
    (exec.call call attempt).2 = attempt exec.entry ∧ attempt exec.entry ≠ .error .Conflict := by
  cases call with
  | Answered =>
    refine ⟨rfl, fun herror => hconflict ?_⟩
    simp only [Execution.call, Call.failure, herror]
    rfl
  | Unavailable => exact absurd rfl hunavailable
  | Contended => exact absurd rfl hconflict

/-- `complete` of an outcome that a record can hold leaves a terminal record. -/
theorem Execution.complete_terminal {completion : ExecutionCompletion} (hentry : exec.entry ≠ none)
    (hacceptable : Acceptable completion)
    (hanswer : (exec.transition call (.Complete completion)).2 = apply exec.entry (.Complete completion))
    (hconflict : apply exec.entry (.Complete completion) ≠ .error .Conflict) :
    ∃ state, (exec.transition call (.Complete completion)).1.state = some state ∧ state.is_terminal = true := by
  obtain ⟨before, hbefore⟩ := Option.ne_none_iff_exists'.mp hentry
  rw [hbefore] at hanswer hconflict
  cases happly : apply (some before) (.Complete completion) with
  | error error =>
    have hvalid := (validate_with_outcome before.valid completion).mpr hacceptable
    obtain rfl := transition_complete_eq_error before.valid hvalid (apply_eq_error happly)
    exact absurd happly hconflict
  | ok after =>
    obtain ⟨state, _, hafter, hmoves⟩ := Execution.transition_answer (hanswer.trans happly)
    exact ⟨after.record.state, hafter, hmoves.terminal_of_complete⟩

theorem known_after_begin_preparing {answer : Except ExecutionControlError VersionedExecutionRecord}
    (h : (after_begin_preparing answer).known = true) : ∃ entry, answer = .ok entry := by
  unfold after_begin_preparing at h
  split at h
  · cases h
  · exact ⟨_, rfl⟩

theorem acceptable_after_begin_running {revision : Nat} {answer : Except ExecutionControlError VersionedExecutionRecord}
    {completion : ExecutionCompletion} (h : after_begin_running revision answer = .Completing completion) :
    Acceptable completion := by
  unfold after_begin_running at h
  split at h
  · cases h
    trivial
  · split at h <;> cases h
    trivial

theorem not_returned_after_begin_preparing (answer : Except ExecutionControlError VersionedExecutionRecord) :
    after_begin_preparing answer ≠ .Returned ∧ ∀ completion, after_begin_preparing answer ≠ .Completing completion := by
  unfold after_begin_preparing
  split
  · exact ⟨nofun, nofun⟩
  · split <;> exact ⟨nofun, nofun⟩

theorem not_returned_after_begin_running (revision : Nat)
    (answer : Except ExecutionControlError VersionedExecutionRecord) :
    after_begin_running revision answer ≠ .Returned := by
  unfold after_begin_running
  split
  · exact nofun
  · split <;> exact nofun

/-- A step of a slot in a reliable run, where user code returns what records can hold. -/
theorem Execution.Settling.slotStep {event : SlotEvent} (h : exec.Settling)
    (hphase : exec.deliveries[index]? = some phase) (hreliable : exec.Reliable (.Slot index event))
    (hreturn : ∀ outcome, event = .Return outcome →
      ∃ completion, completion_of outcome = some completion ∧ Acceptable completion)
    (hstep : SlotStep exec index event phase exec') : exec'.Settling := by
  cases hstep with
  | idle => exact h
  | move hmove =>
    refine h.goto (fun hknown => h.known index phase hphase (hmove.known hknown)) (fun completion hcompleting => ?_)
      fun hreturned => ?_
    · obtain ⟨outcome, hevent, houtcome⟩ := hmove.completing completion hcompleting
      obtain ⟨completion', hcompletion', hacceptable⟩ := hreturn outcome hevent
      rw [houtcome] at hcompletion'
      rw [Option.some.inj hcompletion']
      exact hacceptable
    · obtain ⟨outcome, hevent, houtcome⟩ := hmove.returned hreturned
      obtain ⟨completion, hcompletion, _⟩ := hreturn outcome hevent
      rw [houtcome] at hcompletion
      cases hcompletion
  | prepare call =>
    obtain ⟨hnotReturned, hnotCompleting⟩ :=
      not_returned_after_begin_preparing (exec.transition call .Preparing).2
    refine h.transition.goto (fun hknown => ?_) (fun completion hcompleting => absurd hcompleting (hnotCompleting completion))
      fun hreturned => absurd hreturned hnotReturned
    obtain ⟨entry, hentry⟩ := known_after_begin_preparing hknown
    rw [Execution.transition, (Execution.call_answer hentry).2]
    exact Option.some_ne_none _
  | decide completion call =>
    exact h.transition.goto (fun h => by cases h) (fun _ h => by cases h) fun h => by cases h
  | run revision call =>
    have hentry := h.known index _ hphase rfl
    have hgoto : ((exec.transition call .Running).1.goto index
        (after_begin_running revision (exec.transition call .Running).2)).Settling :=
      h.transition.goto (fun _ => Execution.transition_entry_ne_none hentry)
        (fun completion hcompleting => acceptable_after_begin_running hcompleting)
        fun hreturned => absurd hreturned (not_returned_after_begin_running revision _)
    unfold Execution.note_start
    split
    · exact ⟨hgoto.known, hgoto.acceptable, hgoto.returned⟩
    · exact hgoto
  | complete completion call hevent =>
    refine h.transition.goto (fun h => by cases h) (fun _ h => by cases h) fun _ => ?_
    subst hevent
    simp only [Execution.Reliable, Execution.failure, hphase] at hreliable
    obtain ⟨hanswer, hconflict⟩ := answer_of_reliable hreliable.1 hreliable.2
    exact Execution.complete_terminal (h.known index _ hphase rfl) (h.acceptable index completion hphase) hanswer hconflict

/-- A reliable step keeps the record settling. -/
theorem Execution.Settling.step {results : CanonicalValue → Prop} {action : Action} (h : exec.Settling)
    (hfits : ∀ value, results value → FitsRecord value) (hreliable : exec.Reliable action)
    (hreturns : Returns results action) : (exec.step action).Settling := by
  cases action with
  | Register deadline call =>
    have hentry : exec.entry ≠ none → (exec.step (.Register deadline call)).entry ≠ none := by
      intro hentry
      rcases @Execution.call_entry exec call fun entry => register entry exec.invocation_id deadline with
        hsame | ⟨entry, _, hsome⟩
      · exact fun hnone => hentry (hsame.symm.trans hnone)
      · exact fun hnone => Option.some_ne_none entry (hsome.symm.trans hnone)
    refine h.of_record Execution.call_deliveries hentry fun hterminal => ?_
    rcases @Execution.register_state exec call deadline with hstate | ⟨hnone, _⟩
    · rw [hstate]
      exact hterminal
    · rw [hnone] at hterminal
      obtain ⟨_, ⟨⟩, _⟩ := hterminal
  | RequestCancel call => exact h.transition
  | Deliver =>
    -- the new slot has nothing to settle yet
    have hlookup : ∀ (i : Nat) (p : Phase), (exec.deliveries ++ [.Delivered])[i]? = some p →
        exec.deliveries[i]? = some p ∨ p = .Delivered := by
      intro i p hp
      rw [List.getElem?_append] at hp
      split at hp
      · exact .inl hp
      · exact .inr (List.mem_singleton.mp (List.mem_of_getElem? hp))
    refine ⟨fun i p hp hknown => ?_, fun i completion hp => ?_, fun i hp => ?_⟩
    · rcases hlookup i p hp with hp | rfl
      · exact h.known i p hp hknown
      · cases hknown
    · rcases hlookup i _ hp with hp | hp
      · exact h.acceptable i completion hp
      · cases hp
    · rcases hlookup i _ hp with hp | hp
      · exact h.returned i hp
      · cases hp
  | Slot index event =>
    have hreturn : ∀ outcome, event = .Return outcome →
        ∃ completion, completion_of outcome = some completion ∧ Acceptable completion := by
      rintro outcome rfl
      cases outcome with
      | error error => exact acceptable_of_error error
      | ok value => exact acceptable_of_fits (hfits value hreturns)
    simp only [Execution.step]
    split
    · rename_i phase hphase
      exact h.slotStep hphase hreliable hreturn (advance_slotStep exec index phase event)
    · exact h

end

/-- A delivery that reached user code. -/
def started_execution : Execution :=
  (Execution.new ⟨.from_nat 1⟩).run ([.Register 1 .Answered, .Deliver] ++ start_delivery 0)

theorem started_execution_state : started_execution.deliveries = [.Executing 3] ∧
    started_execution.state = some .Running := by
  decide +kernel

instance (exec : Execution) (action : Action) : Decidable (exec.Reliable action) :=
  inferInstanceAs (Decidable (_ ∧ _))

theorem started_execution_meets (results : CanonicalValue → Prop) :
    Meets Execution.step (fun exec action => exec.Reliable action ∧ Returns results action)
      (.new ⟨.from_nat 1⟩) ([.Register 1 .Answered, .Deliver] ++ start_delivery 0) := by
  refine Meets.and (by decide +kernel) ?_
  repeat' constructor

/-- User code returns `value`, and `execute` publishes it. -/
def return_value (value : CanonicalValue) : List Action :=
  [.Slot 0 (.Return (.ok value)), .Slot 0 (.Control .Answered)]

variable {wire : WireValueV1}

/-- What `execute` does with a value whose wire form it has. -/
theorem run_return_value (hwire : WireValueV1.from_canonical value = .ok wire) :
    (started_execution.run (return_value value)) =
      ((started_execution.goto 0 (.Completing (.Succeeded wire.to_vec))).transition .Answered
        (.Complete (.Succeeded wire.to_vec))).1.goto 0 .Returned := by
  have hcompletion : completion_of (.ok value) = some (.Succeeded wire.to_vec) := by rw [completion_of, hwire]
  have hreturn : started_execution.step (.Slot 0 (.Return (.ok value))) =
      started_execution.goto 0 (.Completing (.Succeeded wire.to_vec)) := by
    simp only [Execution.step, started_execution_state.1, List.getElem?_cons_zero, Execution.advance, hcompletion]
  have hphase : (started_execution.goto 0 (.Completing (.Succeeded wire.to_vec))).deliveries[0]? =
      some (.Completing (.Succeeded wire.to_vec)) := by
    rw [Execution.goto, started_execution_state.1]
    rfl
  have hcomplete : (started_execution.goto 0 (.Completing (.Succeeded wire.to_vec))).step (.Slot 0 (.Control .Answered)) =
      ((started_execution.goto 0 (.Completing (.Succeeded wire.to_vec))).transition .Answered
        (.Complete (.Succeeded wire.to_vec))).1.goto 0 .Returned := by
    simp only [Execution.step, hphase, Execution.advance]
  exact (congrArg (fun exec => Execution.step exec (.Slot 0 (.Control .Answered))) hreturn).trans hcomplete

theorem run_return_value_returned (hwire : WireValueV1.from_canonical value = .ok wire) :
    (started_execution.run (return_value value)).deliveries[0]? = some .Returned := by
  have hdeliveries : (started_execution.goto 0 (.Completing (.Succeeded wire.to_vec))).deliveries =
      [.Completing (.Succeeded wire.to_vec)] := by
    rw [Execution.goto, started_execution_state.1]
    rfl
  rw [run_return_value hwire, Execution.goto, Execution.transition, Execution.call_deliveries, hdeliveries]
  rfl

/-- Publishing a result fails, if at all, because the record cannot hold it. -/
theorem return_value_meets {results : CanonicalValue → Prop}
    (hresult : results value) (hwire : WireValueV1.from_canonical value = .ok wire) :
    Meets Execution.step (fun exec action => exec.Reliable action ∧ Returns results action)
      started_execution (return_value value) := by
  have hcompletion : completion_of (.ok value) = some (.Succeeded wire.to_vec) := by rw [completion_of, hwire]
  obtain ⟨entry, hentry, hrunning⟩ := Option.map_eq_some_iff.mp started_execution_state.2
  refine ⟨⟨⟨fun h => (by cases h), fun h => (by cases h)⟩, hresult⟩, ⟨?_, trivial⟩, trivial⟩
  have hactive : entry.record.state.is_terminal = false := by rw [hrunning]; rfl
  have hfailure : (started_execution.step (.Slot 0 (.Return (.ok value)))).failure (.Slot 0 (.Control .Answered)) =
      Execution.failure.failure_of (apply (some entry) (.Complete (.Succeeded wire.to_vec))) := by
    rw [← hentry]
    simp only [Execution.step, started_execution_state.1, List.getElem?_cons_zero, Execution.advance, hcompletion,
      Execution.failure, Execution.goto, List.set_cons_zero]
    rfl
  rw [Execution.Reliable, hfailure]
  cases happly : apply (some entry) (.Complete (.Succeeded wire.to_vec)) with
  | ok after => exact ⟨fun h => (by cases h), fun h => (by cases h)⟩
  | error error =>
    have herror := apply_eq_error happly
    rw [transition_complete_of_active entry.valid hactive] at herror
    obtain rfl := completed_record_eq_error herror
    exact ⟨fun h => (by cases h), fun h => (by cases h)⟩

/-- A record that held the result of user code could hold it. -/
theorem fits_of_terminal (hwire : WireValueV1.from_canonical value = .ok wire)
    (hobservable : (started_execution.run (return_value value)).Observable) : FitsRecord value := by
  obtain ⟨after, hafter, hterminal, _⟩ := hobservable
  obtain ⟨entry, hentry, hrunning⟩ := Option.map_eq_some_iff.mp started_execution_state.2
  rw [run_return_value hwire] at hafter
  have hactive : entry.record.state.is_terminal = false := by rw [hrunning]; rfl
  have hbefore : (started_execution.goto 0 (.Completing (.Succeeded wire.to_vec))).entry = some entry := hentry
  rcases @Execution.call_entry (started_execution.goto 0 (.Completing (.Succeeded wire.to_vec))) .Answered
    fun entry => apply entry (.Complete (.Succeeded wire.to_vec)) with hsame | ⟨after', happly, hsome⟩
  · -- a refused completion leaves the record running
    have heq : some after = some entry := hafter.symm.trans (hsame.trans hbefore)
    rw [Option.some.inj heq, hactive] at hterminal
    cases hterminal
  · rw [hbefore] at happly
    obtain ⟨_, hentry', htransition⟩ := apply_eq_ok happly
    cases hentry'
    rw [transition_complete_of_active entry.valid hactive] at htransition
    obtain ⟨hrecord, hvalid⟩ := completed_record_eq_ok_iff.mp htransition
    rw [hrecord, validate_with_outcome entry.valid] at hvalid
    rw [Acceptable, valid_payload, Bool.and_eq_true, decide_eq_true_eq] at hvalid
    exact ⟨wire, hwire, hvalid.2⟩

/-- Every run in which no call fails, and user code returns values among `results`, leaves a terminal record behind
each `execute` that returned. -/
def ReturnsObservably (results : CanonicalValue → Prop) : Prop :=
  ∀ (invocation_id : InvocationId) (actions : List Action),
    Meets Execution.step (fun exec action => exec.Reliable action ∧ Returns results action)
      (.new invocation_id) actions →
    ∀ index : Nat, ((Execution.new invocation_id).run actions).deliveries[index]? = some .Returned →
      ((Execution.new invocation_id).run actions).Observable

/-- Each value that user code may return is published by some run. -/
theorem fits_of_returnsObservably {results : CanonicalValue → Prop} (hruns : ReturnsObservably results)
    (hresult : results value) (hlimits : value.WithinLimits) : FitsRecord value := by
  obtain ⟨wire, hwire⟩ := from_canonical_isOk hlimits
  have hmeets := meets_append.mpr
    ⟨started_execution_meets results, return_value_meets hresult hwire⟩
  have hobservable := hruns _ _ hmeets 0
  rw [Execution.run, run_append] at hobservable
  exact fits_of_terminal hwire (hobservable (run_return_value_returned hwire))

/-- In every reliable run whose user code returns values among `results`, a delivery whose `execute` returned has a
terminal record, exactly when each of these values fits a record. -/
theorem returned_observable_iff (results : CanonicalValue → Prop)
    (hlimits : ∀ value, results value → value.WithinLimits) :
    (∀ value, results value → FitsRecord value) ↔ ReturnsObservably results := by
  constructor
  · intro hfits invocation_id actions hrun index hreturned
    have hnew : (Execution.new invocation_id).Settling := ⟨nofun, nofun, nofun⟩
    have hsettling := run_induction
      (fun _ _ hmeets hsettling => Execution.Settling.step hsettling hfits hmeets.1 hmeets.2) hrun hnew
    exact Execution.Settling.observable hsettling hreturned
  · intro hruns value hresult
    exact fits_of_returnsObservably hruns hresult (hlimits value hresult)

/-- A list with a note inside. -/
def listed_note : CanonicalValue := .Array [.Object [("note", .String "hello")], .Null]

/-- User code that returns nothing, or the list, is observed. -/
theorem listed_note_observable : ReturnsObservably (· ∈ [.Null, listed_note]) := by
  refine (returned_observable_iff (· ∈ [.Null, listed_note]) fun value hvalue => ?_).mp fun value hvalue => ?_
  · have hencoded : encode_stored_value value = .ok value.encoding := by
      rcases List.mem_pair.mp hvalue with rfl | rfl <;> decide +kernel
    exact (encode_stored_value_eq_ok_iff.mp hencoded).1
  · rcases List.mem_pair.mp hvalue with rfl | rfl
    · exact ⟨.Null, rfl, by decide +kernel⟩
    · exact ⟨.Array [.Object [("note", .String "hello")], .Null], rfl, by decide +kernel⟩

section
variable {text : String} (hlength : (bytes.as_bytes text).length = EXECUTION_RESULT_PAYLOAD_MAX_BYTES)
include hlength

/-- Half a mebibyte of text is within the limits of values. -/
theorem long_text_within_limits : (CanonicalValue.String text).WithinLimits := by
  refine ⟨nested_small_of_items_eq_nil rfl rfl, ?_⟩
  simp only [CanonicalValue.encoding, CanonicalValue.body, CanonicalValue.payload, List.length_append,
    List.length_cons, bytes.length_to_be_bytes, hlength]
  decide

/-- The quotes alone make its wire form too long for a record. -/
theorem long_text_not_fits : ¬FitsRecord (.String text) := by
  rintro ⟨wire, hwire, hfits⟩
  rw [WireValueV1.from_canonical, encode_stored_value_eq_ok_iff.mpr ⟨long_text_within_limits hlength, rfl⟩] at hwire
  simp only [WireValueV1.from_canonical_inner, Nat.not_lt_zero, if_false, gt_iff_lt, Except.ok.injEq] at hwire
  subst hwire
  have hstring := length_lt_length_string text
  have hobject := @json.length_le_length_object [("type", string "string"), ("value", string text)]
    ("value", string text) (List.mem_cons_of_mem _ (List.mem_singleton.mpr rfl))
  rw [WireValueV1.to_vec, tagged] at hfits
  dsimp only at hobject
  omega

end

/-- User code returns half a mebibyte of text: its record is not terminal when `execute` returns. -/
theorem long_text_not_observable : ¬ReturnsObservably CanonicalValue.WithinLimits := by
  intro hruns
  obtain ⟨text, htext⟩ := bytes.exists_text_of_length EXECUTION_RESULT_PAYLOAD_MAX_BYTES
  have hlimits := long_text_within_limits htext
  exact long_text_not_fits htext (fits_of_returnsObservably hruns hlimits hlimits)

end runku.node_runtime
