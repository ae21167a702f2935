import Mathlib.Tactic.Common

namespace metered

abbrev Metered (ε : Type) := StateT Nat (Except ε)

variable {ε α β : Type} {exceeded : ε}

/-- Counts one step. -/
def tick (limit : Nat) (exceeded : ε) : Metered ε Unit := fun steps =>
  if steps + 1 > limit then .error exceeded else .ok ((), steps + 1)

/-- The computation exceeds its limit or answers this. -/
def Answers (exceeded : ε) (computation : Metered ε α) (answer : α) : Prop :=
  ∀ steps, computation steps = .error exceeded ∨ ∃ after, computation steps = .ok (answer, after)

theorem Answers.pure (a : α) : Answers exceeded (pure a : Metered ε α) a := fun steps => .inr ⟨steps, rfl⟩

theorem Answers.bind {computation : Metered ε α} {next : α → Metered ε β} {a : α} {b : β}
    (h : Answers exceeded computation a) (hnext : Answers exceeded (next a) b) :
    Answers exceeded (computation >>= next) b := by
  intro steps
  change (computation steps >>= fun mid => next mid.1 mid.2) = _ ∨
    ∃ after, (computation steps >>= fun mid => next mid.1 mid.2) = _
  rcases h steps with hfail | ⟨mid, hmid⟩
  · rw [hfail]
    exact .inl rfl
  · rw [hmid]
    exact hnext mid

theorem Answers.tick {limit : Nat} {next : Metered ε β} {b : β} (h : Answers exceeded next b) :
    Answers exceeded (do metered.tick limit exceeded; next) b := by
  refine Answers.bind (a := ()) (fun steps => ?_) h
  unfold metered.tick
  split
  · exact .inl rfl
  · exact .inr ⟨_, rfl⟩

/-- A computation with a count of its own. -/
theorem Answers.lift {computation : Except ε α} {a : α} (h : computation = .error exceeded ∨ computation = .ok a) :
    Answers exceeded (liftM computation : Metered ε α) a := by
  intro steps
  rcases h with rfl | rfl
  · exact .inl rfl
  · exact .inr ⟨steps, rfl⟩

/-- A conjunction that computes its second part only when the first holds. -/
theorem Answers.and {computation : Metered ε Bool} {condition answer : Bool} (h : Answers exceeded computation answer) :
    Answers exceeded (if condition then computation else Pure.pure false) (condition && answer) := by
  cases condition with
  | false => exact Answers.pure false
  | true => exact h

/-- A conjunction written as an early return. -/
theorem Answers.guard {computation : Metered ε Bool} {condition answer : Bool} (h : Answers exceeded computation answer) :
    Answers exceeded (if !condition then Pure.pure false else computation) (condition && answer) := by
  cases condition with
  | false => exact Answers.pure false
  | true => exact h

/-- A loop that stops at the first item that fails. -/
theorem Answers.allM {check : α → Metered ε Bool} {answer : α → Bool} {items : List α}
    (h : ∀ item ∈ items, Answers exceeded (check item) (answer item)) :
    Answers exceeded (items.allM check) (items.all answer) := by
  induction items with
  | nil => exact Answers.pure true
  | cons item items ih =>
    rw [List.allM, List.all_cons]
    refine Answers.bind (h item List.mem_cons_self) ?_
    cases answer item with
    | false => exact Answers.pure false
    | true => exact ih fun item hmem => h item (List.mem_cons_of_mem _ hmem)

/-- A loop that stops at the first item that passes. -/
theorem Answers.anyM {check : α → Metered ε Bool} {answer : α → Bool} {items : List α}
    (h : ∀ item ∈ items, Answers exceeded (check item) (answer item)) :
    Answers exceeded (items.anyM check) (items.any answer) := by
  induction items with
  | nil => exact Answers.pure false
  | cons item items ih =>
    rw [List.anyM, List.any_cons]
    refine Answers.bind (h item List.mem_cons_self) ?_
    cases answer item with
    | true => exact Answers.pure true
    | false => exact ih fun item hmem => h item (List.mem_cons_of_mem _ hmem)

end metered
