import Runku.ExecutionQueue.Control
import Runku.Lib.Machine

/-!
`runku-execution-queue/src/memory_control.rs`: one call of `wait_changed` among all calls that change its record. Other
executions have entries, and a `Notify`, of their own.
-/

namespace runku.execution_queue

open runku.core machine

/-- Where the call is. -/
inductive Waiter
  | Called
  /-- The revision was not greater and the lock is released. -/
  | Checked
  /-- The future exists, and was notified or not; the wait has begun. -/
  | Subscribed (notified : Bool)
  | Woken
  | Returned (result : Except ExecutionControlError (Option VersionedExecutionRecord))
  deriving DecidableEq

def Waiter.notify_waiters : Waiter → Waiter
  | .Subscribed _ => .Subscribed true
  | waiter => waiter

structure ControlPlane where
  entry : Option VersionedExecutionRecord
  waiter : Waiter

inductive ControlAction
  | Register (deadline_unix_ms : UInt64)
  | Apply (next : Transition)
  /-- The call goes on as far as its next lock or future. -/
  | Poll
  | Expire

section
variable (invocation_id : InvocationId) (after wait : Nat)

/-- The steps of `wait_changed`. -/
def ControlPlane.wait_changed (plane : ControlPlane) : Waiter :=
  match plane.waiter with
  | .Called =>
    if wait = 0 then .Returned (.ok none)
    else
      match plane.entry with
      | none => .Returned (.error .NotFound)
      | some entry => if entry.revision > after then .Returned (.ok (some entry)) else .Checked
  | .Checked => .Subscribed false
  | .Subscribed true => .Woken
  | .Woken =>
    match plane.entry with
    | none => .Returned (.error .NotFound)
    | some entry => .Returned (.ok (some entry))
  | waiter => waiter

def ControlPlane.step (plane : ControlPlane) : ControlAction → ControlPlane
  | .Register deadline_unix_ms =>
    match register plane.entry invocation_id deadline_unix_ms with
    | .error _ => plane
    | .ok entry => { plane with entry := some entry }
  | .Apply next =>
    match apply plane.entry next with
    | .error _ => plane
    | .ok entry =>
      -- A record that did not change notifies nobody.
      { entry := some entry
        waiter := if plane.entry ≠ some entry then plane.waiter.notify_waiters else plane.waiter }
  | .Poll => { plane with waiter := plane.wait_changed after wait }
  -- The timeout looks at its future first.
  | .Expire => { plane with waiter := if plane.waiter = .Subscribed false then .Returned (.ok none) else plane.waiter }

/-- Between the comparison and the subscription the record does not come to a greater revision than was asked about. -/
def QuietGap (plane : ControlPlane) (action : ControlAction) : Prop :=
  plane.waiter = .Checked → ∀ entry, (plane.step invocation_id after wait action).entry = some entry →
    entry.revision ≤ after

end

section
variable {invocation_id : InvocationId} {after wait : Nat} {plane : ControlPlane} {action : ControlAction}

theorem apply_revision {entry : Option VersionedExecutionRecord} {entry' : VersionedExecutionRecord} {next : Transition}
    (h : apply entry next = .ok entry') :
    ∃ before, entry = some before ∧ (entry' = before ∨ entry'.revision = before.revision + 1) := by
  unfold apply at h
  grind

/-- A record stays, and its revision never falls. -/
theorem step_revision {entry : VersionedExecutionRecord} (h : plane.entry = some entry) :
    ∃ entry', (plane.step invocation_id after wait action).entry = some entry' ∧ entry.revision ≤ entry'.revision := by
  cases action with
  | Register => grind [ControlPlane.step, register_eq_ok]
  | Apply => grind [ControlPlane.step, apply_revision]
  | Poll | Expire => exact ⟨entry, h, le_rfl⟩

theorem run_revision {entry : VersionedExecutionRecord} (h : plane.entry = some entry) (actions : List ControlAction) :
    ∃ entry', (run (ControlPlane.step invocation_id after wait) plane actions).entry = some entry' ∧
      entry.revision ≤ entry'.revision := by
  induction actions generalizing plane entry with
  | nil => exact ⟨entry, h, le_rfl⟩
  | cons action actions ih =>
    obtain ⟨next, hnext, hle⟩ := step_revision h
    obtain ⟨last, hlast, hle'⟩ := ih hnext
    exact ⟨last, hlast, hle.trans hle'⟩

/-- Until the future is notified, no revision is greater than the one that was asked about. -/
def Unmissed (after : Nat) (plane : ControlPlane) : Prop :=
  plane.waiter = .Checked ∨ plane.waiter = .Subscribed false →
    ∃ entry, plane.entry = some entry ∧ entry.revision ≤ after

theorem Unmissed.step (hquiet : QuietGap invocation_id after wait plane action) (h : Unmissed after plane) :
    Unmissed after (plane.step invocation_id after wait action) := by
  cases action with
  | Register => grind [ControlPlane.step, Unmissed, register_eq_ok]
  | Apply =>
    -- In the gap no greater revision comes; after it a change notifies the future.
    obtain ⟨entry, waiter⟩ := plane
    cases waiter <;> grind [ControlPlane.step, Unmissed, QuietGap, apply_revision, Waiter.notify_waiters]
  | Poll => grind [ControlPlane.step, ControlPlane.wait_changed, Unmissed]
  | Expire => grind [ControlPlane.step, Unmissed]

/-- A notified future, and what the call returns, has seen a greater revision. -/
def Advanced (after : Nat) (plane : ControlPlane) : Prop :=
  ∃ entry, plane.entry = some entry ∧ after ≤ entry.revision ∧
    (plane.waiter = .Subscribed true ∨ plane.waiter = .Woken → after < entry.revision) ∧
    ∀ record, plane.waiter = .Returned (.ok (some record)) → after < record.revision

theorem Advanced.step (h : Advanced after plane) : Advanced after (plane.step invocation_id after wait action) := by
  cases action with
  | Register => grind [ControlPlane.step, Advanced, register_eq_ok]
  | Apply =>
    obtain ⟨entry, waiter⟩ := plane
    cases waiter <;> grind [ControlPlane.step, Advanced, apply_revision, Waiter.notify_waiters]
  | Poll => grind [ControlPlane.step, ControlPlane.wait_changed, Advanced]
  | Expire => grind [ControlPlane.step, Advanced]

/-- A call that waits gives up only at the end of its wait. -/
theorem subscribed_of_gives_up (hwait : wait ≠ 0) (hbefore : plane.waiter ≠ .Returned (.ok none))
    (h : (plane.step invocation_id after wait action).waiter = .Returned (.ok none)) : plane.waiter = .Subscribed false := by
  obtain ⟨entry, waiter⟩ := plane
  cases action with
  | Poll => grind [ControlPlane.step, ControlPlane.wait_changed]
  | _ => cases waiter <;> grind [ControlPlane.step, Waiter.notify_waiters]

end

/-- A call that waits, and whose record comes to no greater revision between its comparison and its subscription, gives
up only if no revision was greater until then. What a call returns is greater than a revision that the record had when it began. -/
theorem wait_changed_misses_nothing (invocation_id : InvocationId) (after wait : Nat)
    (entry : Option VersionedExecutionRecord) (actions : List ControlAction) :
    let step := ControlPlane.step invocation_id after wait
    let plane := run step ⟨entry, .Called⟩
    (wait ≠ 0 → Meets step (QuietGap invocation_id after wait) ⟨entry, .Called⟩ actions →
      ∀ action, (plane actions).waiter ≠ .Returned (.ok none) →
        (plane (actions ++ [action])).waiter = .Returned (.ok none) →
        ∀ earlier, earlier <+: actions → ∀ seen, (plane earlier).entry = some seen → seen.revision ≤ after) ∧
    ((∃ first, entry = some first ∧ after ≤ first.revision) →
      ∀ record, (plane actions).waiter = .Returned (.ok (some record)) → after < record.revision) := by
  intro step plane
  constructor
  · intro hwait hquiet action hbefore hreturned earlier ⟨later, hactions⟩ seen hseen
    have hunmissed : Unmissed after (plane actions) :=
      run_induction (fun _ _ hquiet h => h.step hquiet) hquiet (by simp [Unmissed])
    obtain ⟨last, hlast, hle⟩ := run_revision hseen later
    rw [← run_append, hactions] at hlast
    have happend : plane (actions ++ [action]) = step (plane actions) action := run_append _ _ _
    rw [happend] at hreturned
    obtain ⟨compared, hcompared, hrevision⟩ := hunmissed (.inr (subscribed_of_gives_up hwait hbefore hreturned))
    cases hcompared.symm.trans hlast
    exact hle.trans hrevision
  · rintro ⟨first, hfirst, hle⟩ record hrecord
    have hadvanced : Advanced after (plane actions) :=
      run_induction (fun _ _ _ h => h.step) (meets_of_forall fun _ _ => trivial) ⟨first, hfirst, hle, by simp, by simp⟩
    obtain ⟨_, _, _, _, hreturned⟩ := hadvanced
    exact hreturned record hrecord

/-- A queued execution, at its first revision. -/
def queued : VersionedExecutionRecord := ⟨1, ⟨1, ⟨.from_nat 7⟩, 9, .Queued, none, none⟩, by decide⟩

/-- The execution is cancelled in the gap: the call waits for another change and gives up. -/
theorem change_in_gap_is_missed :
    let plane := run (ControlPlane.step ⟨.from_nat 7⟩ 1 5) ⟨some queued, .Called⟩
    (plane [.Poll, .Apply .Cancel, .Poll, .Expire]).waiter = .Returned (.ok none) ∧
      (plane [.Poll, .Apply .Cancel]).entry.map VersionedExecutionRecord.revision = some 2 := by
  decide

/-- Cancelled after the subscription, the execution is returned at its second revision; left alone, it had no other
than the first until the call gave up. -/
theorem change_after_gap_is_returned :
    let plane := run (ControlPlane.step ⟨.from_nat 7⟩ 1 5) ⟨some queued, .Called⟩
    (∃ record, (plane [.Poll, .Poll, .Apply .Cancel, .Poll, .Poll]).waiter = .Returned (.ok (some record)) ∧
      1 < record.revision) ∧
    ∀ seen, (plane [.Poll]).entry = some seen → seen.revision ≤ 1 :=
  ⟨⟨_, rfl, (wait_changed_misses_nothing ⟨.from_nat 7⟩ 1 5 (some queued) [.Poll, .Poll, .Apply .Cancel, .Poll, .Poll]).2
      ⟨_, rfl, le_rfl⟩ _ rfl⟩,
    (wait_changed_misses_nothing ⟨.from_nat 7⟩ 1 5 (some queued) [.Poll, .Poll]).1 (by decide)
      ⟨nofun, fun _ _ h => by cases h; exact le_rfl, trivial⟩ .Expire (by decide) (by decide) [.Poll] ⟨[.Poll], rfl⟩⟩

end runku.execution_queue
