import Mathlib.Data.List.Nodup

namespace leased_job

/-- What happened to a job. -/
inductive Entry (ω : Type)
  | Claimed (owner : ω) (generation : Nat)
  | Completed (owner : ω) (generation : Nat)
  deriving DecidableEq

inductive Status (ω : Type)
  | Pending
  | Running (owner : ω)
  | Done

structure Job (ω : Type) where
  status : Status ω
  generation : Nat

/-- A job that may not exist yet, with its history, newest entry first. -/
structure State (ω : Type) where
  job : Option (Job ω)
  log : List (Entry ω)

variable {ω : Type}

/-- The generations of all claims. -/
def claims (log : List (Entry ω)) : List Nat :=
  log.filterMap fun
    | .Claimed _ generation => some generation
    | .Completed _ _ => none

/-- The generations of all completions. -/
def completions (log : List (Entry ω)) : List Nat :=
  log.filterMap fun
    | .Claimed _ _ => none
    | .Completed _ generation => some generation

inductive Step : State ω → State ω → Prop
  | create {log : List (Entry ω)} : Step ⟨none, log⟩ ⟨some ⟨.Pending, 0⟩, log⟩
  | claim {job : Job ω} {log : List (Entry ω)} (owner : ω) (hopen : job.status ≠ .Done) :
      Step ⟨some job, log⟩ ⟨some ⟨.Running owner, job.generation + 1⟩, .Claimed owner (job.generation + 1) :: log⟩
  | complete {owner : ω} {generation : Nat} {log : List (Entry ω)} (status : Status ω)
      (hstatus : ∀ owner, status ≠ .Running owner) :
      Step ⟨some ⟨.Running owner, generation⟩, log⟩ ⟨some ⟨status, generation⟩, .Completed owner generation :: log⟩
  | cancel {generation : Nat} {log : List (Entry ω)} :
      Step ⟨some ⟨.Pending, generation⟩, log⟩ ⟨some ⟨.Done, generation⟩, log⟩

/-- What every history of a job satisfies. -/
structure Fenced (s : State ω) : Prop where
  absent : s.job = none → s.log = []
  counted : ∀ job, s.job = some job → (claims s.log).length = job.generation
  claims_le : ∀ job, s.job = some job → ∀ generation ∈ claims s.log, generation ≤ job.generation
  claims_nodup : (claims s.log).Nodup
  running : ∀ owner generation, s.job = some ⟨.Running owner, generation⟩ →
    .Claimed owner generation ∈ s.log ∧ generation ∉ completions s.log
  completed : ∀ owner generation, .Completed owner generation ∈ s.log → .Claimed owner generation ∈ s.log
  completions_nodup : (completions s.log).Nodup

section
variable {s s' : State ω} {log : List (Entry ω)} {owner : ω} {generation : Nat}

theorem mem_claims : generation ∈ claims log ↔ ∃ owner, .Claimed owner generation ∈ log := by
  simp only [claims, List.mem_filterMap]
  constructor
  · rintro ⟨⟨owner, _⟩ | _, hmem, heq⟩
    · cases heq
      exact ⟨owner, hmem⟩
    · cases heq
  · rintro ⟨owner, hmem⟩
    exact ⟨_, hmem, rfl⟩

theorem mem_completions : generation ∈ completions log ↔ ∃ owner, .Completed owner generation ∈ log := by
  simp only [completions, List.mem_filterMap]
  constructor
  · rintro ⟨_ | ⟨owner, _⟩, hmem, heq⟩
    · cases heq
    · cases heq
      exact ⟨owner, hmem⟩
  · rintro ⟨owner, hmem⟩
    exact ⟨_, hmem, rfl⟩

@[simp] theorem claims_claimed (owner : ω) (generation : Nat) (log : List (Entry ω)) :
    claims (.Claimed owner generation :: log) = generation :: claims log := rfl

/-- Under distinct generations, a generation has one claimant. -/
theorem claimant_unique (hnodup : (claims log).Nodup) {owner' : ω} (h : .Claimed owner generation ∈ log)
    (h' : .Claimed owner' generation ∈ log) : owner = owner' := by
  induction log with
  | nil => cases h
  | cons entry log ih =>
    cases entry with
    | Completed => exact ih hnodup (by simpa using h) (by simpa using h')
    | Claimed first g =>
      rw [claims_claimed, List.nodup_cons] at hnodup
      rcases List.mem_cons.mp h with heq | hmem <;> rcases List.mem_cons.mp h' with heq' | hmem'
      · cases heq
        exact (Entry.Claimed.inj heq').1.symm
      · cases heq
        exact absurd (mem_claims.mpr ⟨_, hmem'⟩) hnodup.1
      · cases heq'
        exact absurd (mem_claims.mpr ⟨_, hmem⟩) hnodup.1
      · exact ih hnodup.2 hmem hmem'

theorem Fenced.completions_le (h : Fenced s) {job : Job ω} (hjob : s.job = some job)
    (hmem : generation ∈ completions s.log) : generation ≤ job.generation := by
  obtain ⟨owner, howner⟩ := mem_completions.mp hmem
  exact h.claims_le job hjob generation (mem_claims.mpr ⟨owner, h.completed owner generation howner⟩)

theorem new_fenced : Fenced (⟨none, []⟩ : State ω) :=
  ⟨fun _ => rfl, nofun, nofun, List.nodup_nil, nofun, nofun, List.nodup_nil⟩

/-- Every step keeps the fence. -/
theorem Fenced.step (h : Fenced s) (hstep : Step s s') : Fenced s' := by
  cases hstep with
  | create =>
    obtain rfl := h.absent rfl
    refine ⟨nofun, fun job hjob => ?_, nofun, List.nodup_nil, nofun, nofun, List.nodup_nil⟩
    rw [← Option.some.inj hjob]
    rfl
  | @claim job log owner hopen =>
    -- The new generation is beyond all others.
    have hfresh : job.generation + 1 ∉ claims log := fun hmem =>
      absurd (h.claims_le job rfl _ hmem) (Nat.not_succ_le_self _)
    refine ⟨nofun, fun job' hjob' => ?_, fun job' hjob' generation hmem => ?_,
      List.nodup_cons.mpr ⟨hfresh, h.claims_nodup⟩, fun owner' generation hjob' => ?_, fun owner' generation hmem => ?_,
      h.completions_nodup⟩
    · rw [← Option.some.inj hjob', claims_claimed, List.length_cons, h.counted job rfl]
    · rw [← Option.some.inj hjob']
      rcases List.mem_cons.mp hmem with rfl | hold
      · exact Nat.le_refl _
      · exact Nat.le_succ_of_le (h.claims_le job rfl generation hold)
    · obtain ⟨hstatus, rfl⟩ := Job.mk.inj (Option.some.inj hjob')
      obtain rfl := Status.Running.inj hstatus
      refine ⟨List.mem_cons_self, fun hmem => absurd (h.completions_le rfl hmem) (Nat.not_succ_le_self _)⟩
    · exact List.mem_cons_of_mem _ (h.completed owner' generation (by simpa using hmem))
  | @complete owner generation log status hstatus =>
    have hcounted := h.counted _ rfl
    have hle := h.claims_le _ rfl
    obtain ⟨hclaimed, hopen⟩ := h.running owner generation rfl
    refine ⟨nofun, fun job hjob => ?_, fun job hjob => ?_, h.claims_nodup, fun owner' generation' hjob => ?_,
      fun owner' generation' hmem => ?_, List.nodup_cons.mpr ⟨hopen, h.completions_nodup⟩⟩
    · rw [← Option.some.inj hjob]
      exact hcounted
    · rw [← Option.some.inj hjob]
      exact hle
    · exact absurd (Job.mk.inj (Option.some.inj hjob)).1 (hstatus owner')
    · rcases List.mem_cons.mp hmem with heq | hold
      · cases heq
        exact List.mem_cons_of_mem _ hclaimed
      · exact List.mem_cons_of_mem _ (h.completed owner' generation' hold)
  | cancel =>
    have hcounted := h.counted _ rfl
    have hle := h.claims_le _ rfl
    refine ⟨nofun, fun job hjob => ?_, fun job hjob => ?_, h.claims_nodup, fun owner' generation' hjob => ?_,
      h.completed, h.completions_nodup⟩
    · rw [← Option.some.inj hjob]
      exact hcounted
    · rw [← Option.some.inj hjob]
      exact hle
    · cases (Job.mk.inj (Option.some.inj hjob)).1

end

end leased_job
