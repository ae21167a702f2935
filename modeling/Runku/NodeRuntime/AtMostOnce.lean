import Runku.NodeRuntime.Remote

namespace runku.node_runtime

open runku.core runku.execution_queue

/-- User code started at most once, on a record that was neither cancelled nor decided. -/
def Execution.Safe (exec : Execution) : Prop :=
  (∀ found ∈ exec.started, found ≠ .CancelRequested ∧ found.is_terminal = false) ∧ exec.started.length ≤ 1

/-- A delivery is acknowledged only when no other one is, on a record that is open; and no delivery publishes an outcome
while another one is about to start. -/
def Execution.exclusive (exec : Execution) : Action → Bool
  | .Slot index (.Ack true) =>
    match exec.deliveries[index]? with
    | some (.Admitted _) => exec.deliveries.all (!·.acknowledged) && exec.state.all ExecutionState.is_open
    | _ => true
  | .Slot index (.Control call) =>
    match exec.deliveries[index]? with
    | some (.Deciding _) => !call.applied || exec.deliveries.all (!·.starting)
    | _ => true
  | _ => true

instance (exec : Execution) : Decidable exec.Safe := inferInstanceAs (Decidable (_ ∧ _))

/-- What every step of an exclusive run keeps. -/
structure Execution.Guarded (exec : Execution) : Prop where
  /-- At most one delivery is acknowledged. -/
  alone : ∀ (i j : Nat) (p q : Phase), exec.deliveries[i]? = some p → exec.deliveries[j]? = some q →
    p.acknowledged = true → q.acknowledged = true → i = j
  /-- While a delivery is about to start user code, the record is open. -/
  starting : ∀ (i : Nat) (p : Phase), exec.deliveries[i]? = some p → p.starting = true →
    ∀ state, exec.state = some state → state.is_open = true
  /-- User code has not started, or it started once from `Preparing` and the record has left that state. -/
  started : exec.started = [] ∨ exec.started = [.Preparing] ∧
    ∃ state, exec.state = some state ∧ state ≠ .Queued ∧ state ≠ .Preparing

theorem Execution.Guarded.safe {exec : Execution} (h : exec.Guarded) : exec.Safe := by
  rcases h.started with hstarted | ⟨hstarted, _⟩ <;> rw [Execution.Safe, hstarted]
  · exact ⟨nofun, Nat.zero_le 1⟩
  · exact ⟨List.forall_mem_singleton.mpr ⟨nofun, rfl⟩, Nat.le_refl 1⟩

theorem Phase.acknowledged_of_starting {phase : Phase} (h : phase.starting = true) : phase.acknowledged = true := by
  cases phase <;> first | rfl | cases h

theorem Moved.past {before after : Option ExecutionState} {next : Transition} (h : Moved before next after)
    (hbefore : ∃ state, before = some state ∧ state ≠ .Queued ∧ state ≠ .Preparing) :
    ∃ state, after = some state ∧ state ≠ .Queued ∧ state ≠ .Preparing := by
  obtain ⟨state, hstate, hqueued, hpreparing⟩ := hbefore
  rcases h with h | ⟨s, s', hs, hs', hmoves⟩
  · exact ⟨state, h.trans hstate, hqueued, hpreparing⟩
  · cases hs.symm.trans hstate
    exact ⟨s', hs', hmoves.past hqueued hpreparing⟩

section
variable {exec exec' : Execution} {index : Nat} {phase phase' : Phase}

/-- A slot moves to a phase, acknowledged only if it was before or if no slot was. -/
theorem Execution.Guarded.goto (h : exec.Guarded) (hphase : exec.deliveries[index]? = some phase)
    (hdeliveries : exec'.deliveries = exec.deliveries.set index phase') (hacknowledged : phase'.acknowledged = true →
      phase.acknowledged = true ∨ ∀ p ∈ exec.deliveries, p.acknowledged = false)
    (hstarting : phase'.starting = true → ∀ state, exec'.state = some state → state.is_open = true)
    (hothers : ∀ (i : Nat) (p : Phase), exec.deliveries[i]? = some p → i ≠ index → p.starting = true →
      ∀ state, exec'.state = some state → state.is_open = true)
    (hstarted : exec'.started = [] ∨ exec'.started = [.Preparing] ∧
      ∃ state, exec'.state = some state ∧ state ≠ .Queued ∧ state ≠ .Preparing) : exec'.Guarded := by
  have hlookup : ∀ (i : Nat) (p : Phase), exec'.deliveries[i]? = some p →
      i = index ∧ p = phase' ∨ exec.deliveries[i]? = some p ∧ i ≠ index := by
    intro i p hp
    rw [hdeliveries] at hp
    exact getElem?_set_cases hp
  -- no other slot is acknowledged once this one is
  have hother : ∀ (i : Nat) (p : Phase), exec.deliveries[i]? = some p → i ≠ index → p.acknowledged = true →
      phase'.acknowledged = true → False := by
    intro i p hp hi hpack hack
    rcases hacknowledged hack with hold | hnone
    · exact hi (h.alone _ _ _ _ hp hphase hpack hold)
    · rw [hnone p (List.mem_of_getElem? hp)] at hpack
      cases hpack
  refine ⟨fun i j p q hp hq hpack hqack => ?_, fun i p hp hpstarting => ?_, hstarted⟩
  · rcases hlookup i p hp with ⟨rfl, rfl⟩ | ⟨hp, hi⟩ <;> rcases hlookup j q hq with ⟨rfl, rfl⟩ | ⟨hq, hj⟩
    · rfl
    · exact (hother j q hq hj hqack hpack).elim
    · exact (hother i p hp hi hpack hqack).elim
    · exact h.alone _ _ _ _ hp hq hpack hqack
  · rcases hlookup i p hp with ⟨rfl, rfl⟩ | ⟨hp, hi⟩
    · exact hstarting hpstarting
    · exact hothers i p hp hi hpstarting

/-- The record changes and the slots do not. -/
theorem Execution.Guarded.of_record (h : exec.Guarded) (hdeliveries : exec'.deliveries = exec.deliveries)
    (hstarted : exec'.started = exec.started) (hopen : (∀ state, exec.state = some state → state.is_open = true) →
      ∀ state, exec'.state = some state → state.is_open = true)
    (hpast : (∃ state, exec.state = some state ∧ state ≠ .Queued ∧ state ≠ .Preparing) →
      ∃ state, exec'.state = some state ∧ state ≠ .Queued ∧ state ≠ .Preparing) : exec'.Guarded := by
  refine ⟨?_, ?_, ?_⟩
  · rw [hdeliveries]
    exact h.alone
  · rw [hdeliveries]
    exact fun i p hp hstarting => hopen (h.starting i p hp hstarting)
  · rw [hstarted]
    exact h.started.imp_right fun hpreparing => ⟨hpreparing.1, hpast hpreparing.2⟩

theorem Moved.is_open {before after : Option ExecutionState} {next : Transition} (h : Moved before next after)
    (hnext : next = .Preparing ∨ next = .Cancel) (hopen : ∀ state, before = some state → state.is_open = true) :
    ∀ state, after = some state → state.is_open = true := by
  rcases h with rfl | ⟨s, s', hs, rfl, hmoves⟩
  · exact hopen
  · rintro state ⟨⟩
    exact hmoves.is_open hnext (hopen s hs)

/-- Registering the execution keeps the guard. -/
theorem Execution.Guarded.register (h : exec.Guarded) (deadline : UInt64) (call : Call) :
    (exec.step (.Register deadline call)).Guarded := by
  refine h.of_record Execution.call_deliveries Execution.call_started ?_ ?_
  all_goals rcases @Execution.register_state exec call deadline with hstate | ⟨hnone, hqueued⟩
  · rw [hstate]
    exact id
  · rw [hqueued]
    rintro _ state ⟨⟩
    rfl
  · rw [hstate]
    exact id
  · rw [hnone]
    rintro ⟨_, ⟨⟩, _⟩

theorem Execution.Guarded.request_cancel (h : exec.Guarded) (call : Call) :
    (exec.step (.RequestCancel call)).Guarded :=
  h.of_record Execution.call_deliveries Execution.call_started (Execution.transition_moved.is_open (.inr rfl))
    Execution.transition_moved.past

/-- Another delivery keeps the guard. -/
theorem Execution.Guarded.deliver (h : exec.Guarded) : (exec.step .Deliver).Guarded := by
  -- the new slot is not acknowledged
  have hlookup : ∀ (i : Nat) (p : Phase), (exec.deliveries ++ [.Delivered])[i]? = some p → p.acknowledged = true →
      exec.deliveries[i]? = some p := by
    intro i p hp hack
    rw [List.getElem?_append] at hp
    split at hp
    · exact hp
    · obtain rfl := List.mem_singleton.mp (List.mem_of_getElem? hp)
      cases hack
  refine ⟨fun i j p q hp hq hpack hqack => ?_, fun i p hp hstarting => ?_, h.started⟩
  · exact h.alone i j p q (hlookup i p hp hpack) (hlookup j q hq hqack) hpack hqack
  · exact h.starting i p (hlookup i p hp (Phase.acknowledged_of_starting hstarting)) hstarting

/-- A slot that starts nothing calls the control plane and moves on. -/
theorem Execution.Guarded.transition (h : exec.Guarded) (hphase : exec.deliveries[index]? = some phase) (call : Call)
    (next : Transition) (hacknowledged : phase'.acknowledged = true → phase.acknowledged = true)
    (hstarting : phase'.starting = false)
    (hothers : ∀ (i : Nat) (p : Phase), exec.deliveries[i]? = some p → i ≠ index → p.starting = true →
      ∀ state, (exec.transition call next).1.state = some state → state.is_open = true) :
    ((exec.transition call next).1.goto index phase').Guarded := by
  have hdeliveries : (exec.transition call next).1.deliveries = exec.deliveries := Execution.call_deliveries
  have hstarted : (exec.transition call next).1.started = exec.started := Execution.call_started
  refine h.goto hphase (by rw [Execution.goto, hdeliveries]) (fun hack => .inl (hacknowledged hack)) (fun hfalse => ?_)
    hothers ?_
  · rw [hstarting] at hfalse
    cases hfalse
  · change (exec.transition call next).1.started = [] ∨ (exec.transition call next).1.started = [.Preparing] ∧ _
    rw [hstarted]
    exact h.started.imp_right fun hpreparing => ⟨hpreparing.1, Execution.transition_moved.past hpreparing.2⟩

/-- Beside an acknowledged slot no other one is about to start. -/
theorem Execution.Guarded.not_starting (h : exec.Guarded) (hphase : exec.deliveries[index]? = some phase)
    (hacknowledged : phase.acknowledged = true) {i : Nat} {p : Phase} (hp : exec.deliveries[i]? = some p)
    (hi : i ≠ index) : p.starting = false := by
  by_contra hstarting
  rw [Bool.not_eq_false] at hstarting
  exact hi (h.alone _ _ _ _ hp hphase (Phase.acknowledged_of_starting hstarting) hacknowledged)

theorem Phase.starting_after_begin_running (revision : Nat)
    (answer : Except ExecutionControlError VersionedExecutionRecord) :
    (after_begin_running revision answer).starting = false := by
  unfold after_begin_running
  split
  · rfl
  · split <;> rfl

theorem Phase.acknowledged_after_begin_preparing (answer : Except ExecutionControlError VersionedExecutionRecord) :
    (after_begin_preparing answer).acknowledged = false := by
  unfold after_begin_preparing
  split
  · rfl
  · split <;> rfl

/-- What it takes to start: an answer that does not ask for a cancellation. -/
theorem starts_after_begin_running {revision : Nat} {answer : Except ExecutionControlError VersionedExecutionRecord}
    (h : (after_begin_running revision answer).starts = true) :
    ∃ running, answer = .ok running ∧ running.record.state ≠ .CancelRequested := by
  unfold after_begin_running at h
  split at h
  · cases h
  · rename_i running
    split at h
    · cases h
    · exact ⟨running, rfl, ‹_›⟩

/-- `execute` calls `begin_running` for the only acknowledged delivery, on an open record. -/
theorem Execution.Guarded.run {revision : Nat} (h : exec.Guarded)
    (hphase : exec.deliveries[index]? = some (.Acknowledged revision)) (call : Call) :
    (((exec.transition call .Running).1.goto index
      (after_begin_running revision (exec.transition call .Running).2)).note_start
        (after_begin_running revision (exec.transition call .Running).2) exec.state).Guarded := by
  have hopen := h.starting index (.Acknowledged revision) hphase rfl
  have hguarded : ((exec.transition call .Running).1.goto index
      (after_begin_running revision (exec.transition call .Running).2)).Guarded := by
    refine h.transition hphase call .Running (fun _ => rfl) (Phase.starting_after_begin_running _ _) ?_
    intro i p hp hi hstarting
    rw [h.not_starting hphase rfl hp hi] at hstarting
    cases hstarting
  unfold Execution.note_start
  split
  · rename_i hstarts
    obtain ⟨running, hanswer, hcancel⟩ := starts_after_begin_running hstarts
    obtain ⟨found, hfound, hafter, hmoves⟩ := Execution.transition_answer hanswer
    obtain ⟨rfl, hrunning⟩ := hmoves.started (hopen found hfound) hcancel
    -- a record found in `Preparing` has not been started before
    have hfirst : exec.started = [] := by
      rcases h.started with hstarted | ⟨_, state, hstate, _, hpreparing⟩
      · exact hstarted
      · exact absurd (Option.some.inj (hstate.symm.trans hfound)) hpreparing
    have hstarted : (exec.transition call .Running).1.started = exec.started := Execution.call_started
    refine ⟨hguarded.alone, hguarded.starting, .inr ⟨?_, .Running, ?_, nofun, nofun⟩⟩
    · change (exec.transition call .Running).1.started ++ exec.state.toList = _
      rw [hstarted, hfirst, hfound]
      rfl
    · rw [hrunning] at hafter
      exact hafter
  · exact hguarded

/-- An exclusive step of a delivery keeps the guard. -/
theorem Execution.Guarded.slotStep {event : SlotEvent} (h : exec.Guarded)
    (hphase : exec.deliveries[index]? = some phase) (hstep : SlotStep exec index event phase exec')
    (hexclusive : exec.exclusive (.Slot index event) = true) : exec'.Guarded := by
  cases hstep with
  | idle => exact h
  | move hmove =>
    refine h.goto hphase rfl (fun hack => ?_) (fun hstarting => ?_) (fun i p hp _ => h.starting i p hp) h.started
    · rcases hmove.acknowledged hack with hold | ⟨⟨revision, rfl⟩, rfl⟩
      · exact .inl hold.1
      · simp only [exclusive, hphase, Bool.and_eq_true, List.all_eq_true, Bool.not_eq_true'] at hexclusive
        exact .inr hexclusive.1
    · rcases hmove.acknowledged (Phase.acknowledged_of_starting hstarting) with hold | ⟨⟨revision, rfl⟩, rfl⟩
      · rw [hold.2] at hstarting
        cases hstarting
      · simp only [exclusive, hphase, Bool.and_eq_true, Option.all_eq_true] at hexclusive
        exact hexclusive.2
  | prepare call =>
    refine h.transition hphase call .Preparing (fun hack => ?_) ?_ fun i p hp _ hstarting => ?_
    · rw [Phase.acknowledged_after_begin_preparing] at hack
      cases hack
    · by_contra hstarting
      rw [Bool.not_eq_false] at hstarting
      have hack := Phase.acknowledged_of_starting hstarting
      rw [Phase.acknowledged_after_begin_preparing] at hack
      cases hack
    · exact Execution.transition_moved.is_open (.inl rfl) (h.starting i p hp hstarting)
  | decide completion call hevent =>
    subst hevent
    refine h.transition hphase call _ (fun hack => by cases hack) rfl fun i p hp _ hstarting => ?_
    simp only [exclusive, hphase, Bool.or_eq_true, List.all_eq_true, Bool.not_eq_true'] at hexclusive
    -- the outcome is not published, or no other slot is about to start
    rcases hexclusive with happlied | hnone
    · rw [Execution.transition, Execution.call_of_not_applied happlied]
      exact h.starting i p hp hstarting
    · rw [hnone p (List.mem_of_getElem? hp)] at hstarting
      cases hstarting
  | complete completion call =>
    refine h.transition hphase call _ (fun hack => by cases hack) rfl fun i p hp hi hstarting => ?_
    rw [h.not_starting hphase rfl hp hi] at hstarting
    cases hstarting
  | run revision call => exact h.run hphase call

end

/-- Every exclusive step keeps the guard. -/
theorem Execution.Guarded.step {exec : Execution} {action : Action} (h : exec.Guarded)
    (hexclusive : exec.exclusive action = true) : (exec.step action).Guarded := by
  cases action with
  | Register deadline call => exact h.register deadline call
  | RequestCancel call => exact h.request_cancel call
  | Deliver => exact h.deliver
  | Slot index event =>
    simp only [Execution.step]
    split
    · rename_i phase hphase
      exact h.slotStep hphase (advance_slotStep exec index phase event) hexclusive
    · exact h

theorem Execution.Guarded.new (invocation_id : InvocationId) : (Execution.new invocation_id).Guarded :=
  ⟨nofun, nofun, .inl rfl⟩

/-- In a run whose acknowledgements and decisions are exclusive, user code starts at most once, on a record that is
neither cancelled nor decided. -/
theorem run_starts_at_most_once (invocation_id : InvocationId) (actions : List Action)
    (hrun : machine.Meets Execution.step (fun exec action => exec.exclusive action = true) (.new invocation_id) actions) :
    ((Execution.new invocation_id).run actions).Safe :=
  (machine.run_induction (fun _ _ hexclusive hguarded => Execution.Guarded.step hguarded hexclusive) hrun
    (Execution.Guarded.new invocation_id)).safe

/-- The job is delivered twice. The first delivery is prepared and not acknowledged; the second one runs user code and
publishes its result, and then the job is delivered once more. -/
theorem run_starts_at_most_once_redelivered : ((Execution.new ⟨.from_nat 1⟩).run
    ([.Register 1 .Answered, .Deliver, .Deliver] ++ (start_delivery 0).take 5 ++ [.Slot 0 (.Ack false)] ++
      start_delivery 1 ++ [.Slot 1 (.Return (.ok .Null)), .Slot 1 (.Control .Answered), .Deliver])).Safe :=
  run_starts_at_most_once ⟨.from_nat 1⟩ _ (by decide +kernel)

/-- The queue delivers the job twice, and both deliveries are acknowledged. The first one runs user code and publishes
its result; the second one then starts user code again, on the record that has succeeded. -/
theorem delivered_twice_not_safe : ¬((Execution.new ⟨.from_nat 1⟩).run
    ([.Register 1 .Answered, .Deliver, .Deliver] ++ (start_delivery 1).take 6 ++ start_delivery 0 ++
      [.Slot 0 (.Return (.ok .Null)), .Slot 0 (.Control .Answered), .Slot 1 (.Control .Answered)])).Safe := by
  decide +kernel

end runku.node_runtime
