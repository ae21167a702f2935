import Mathlib.Data.Set.Basic
import Mathlib.Order.WithBot

namespace leased_cursor

/-- What happened to a consumer. -/
inductive Entry (α κ ω : Type)
  | Claimed (owner : ω) (generation : Nat) (events : List α)
  | Acked (owner : ω) (generation : Nat) (through : κ)

/-- The most recent claim that returned events, in a log that starts with the newest entry. -/
def last_claim {α κ ω : Type} : List (Entry α κ ω) → Option (ω × Nat × List α)
  | [] => none
  | .Claimed _ _ [] :: log => last_claim log
  | .Claimed owner generation (e :: es) :: _ => some (owner, generation, e :: es)
  | .Acked _ _ _ :: log => last_claim log

theorem last_claim_cons_of_getLast {α κ ω : Type} {owner : ω} {generation : Nat} {events : List α}
    {last : α} {log : List (Entry α κ ω)} (h : events.getLast? = some last) :
    last_claim (.Claimed owner generation events :: log) = some (owner, generation, events) := by
  cases events with
  | nil => cases h
  | cons e es => rfl

/-- The generations of all claims, newest first. -/
def generations {α κ ω : Type} (log : List (Entry α κ ω)) : List Nat :=
  log.filterMap fun
    | .Claimed _ generation _ => some generation
    | .Acked _ _ _ => none

structure State (α κ ω : Type) where
  published : Set α
  cursor : WithBot κ
  /-- Who may move the cursor, under which generation, and where to. -/
  lease : Option (ω × Nat × κ)
  generation : Nat
  log : List (Entry α κ ω)

section
variable {α κ ω : Type} [LinearOrder κ] (pos : α → κ)

/-- The events a claim may return: some of the next ones after the cursor, in order, without a gap. -/
structure Next (s : State α κ ω) (events : List α) : Prop where
  published : ∀ e ∈ events, e ∈ s.published ∧ s.cursor < pos e
  sorted : events.Pairwise fun a b => pos a < pos b
  gapless : ∀ x ∈ s.published, s.cursor < pos x → x ∈ events ∨ ∀ e ∈ events, pos e < pos x

inductive Step (s : State α κ ω) : State α κ ω → Prop
  | publish (published : Set α) (hold : s.published ⊆ published)
      (hnew : ∀ x ∈ published, x ∈ s.published ∨ ∀ y ∈ s.published, pos y < pos x) :
      Step s { s with published }
  | claim (owner : ω) (events : List α) (hnext : Next pos s events) :
      Step s { s with
        lease := events.getLast?.map fun last => (owner, s.generation + 1, pos last)
        generation := s.generation + 1
        log := .Claimed owner (s.generation + 1) events :: s.log }
  | ack (owner : ω) (generation : Nat) (through : κ) (hlease : s.lease = some (owner, generation, through)) :
      Step s { s with
        cursor := through
        lease := none
        log := .Acked owner generation through :: s.log }

/-- The event was in the claim whose acknowledgement moved the cursor to it or past it. -/
def DeliveredIn (log : List (Entry α κ ω)) (x : α) : Prop :=
  ∃ newer older owner generation events last,
    log = newer ++ .Acked owner generation (pos last) :: older ∧
    last_claim older = some (owner, generation, events) ∧ events.getLast? = some last ∧
    x ∈ events ∧ pos x ≤ pos last

/-- What the holder of a lease is entitled to. -/
structure Granted (s : State α κ ω) (owner : ω) (generation : Nat) (through : κ) (events : List α)
    (last : α) : Prop where
  claim : last_claim s.log = some (owner, generation, events)
  getLast : events.getLast? = some last
  through : pos last = through
  published : last ∈ s.published
  cursor_lt : s.cursor < pos last
  covers : ∀ x ∈ s.published, s.cursor < pos x → pos x ≤ pos last → x ∈ events

/-- What every reachable state satisfies. -/
structure Gapless (s : State α κ ω) : Prop where
  granted : ∀ owner generation through, s.lease = some (owner, generation, through) →
    ∃ events last, Granted pos s owner generation through events last
  cursor : ∀ c : κ, s.cursor = c → ∃ e ∈ s.published, pos e = c
  delivered : ∀ x ∈ s.published, (pos x : WithBot κ) ≤ s.cursor → DeliveredIn pos s.log x
  fenced : (generations s.log).Pairwise (· > ·) ∧ ∀ g ∈ generations s.log, g ≤ s.generation

end

section
variable {α κ ω : Type} [LinearOrder κ] {pos : α → κ} {s s' : State α κ ω}

/-- A consumer that nothing was published to and that claimed nothing. -/
theorem gapless_of_empty (hpublished : s.published = ∅) (hcursor : s.cursor = ⊥) (hlease : s.lease = none)
    (hlog : s.log = []) : Gapless pos s where
  granted _ _ _ h := by cases hlease.symm.trans h
  cursor c h := absurd (hcursor.symm.trans h) WithBot.bot_ne_coe
  delivered x hx := by
    rw [hpublished] at hx
    exact hx.elim
  fenced := by simp [hlog, generations]

theorem DeliveredIn.cons {log : List (Entry α κ ω)} {x : α} (h : DeliveredIn pos log x)
    (entry : Entry α κ ω) : DeliveredIn pos (entry :: log) x := by
  obtain ⟨newer, older, owner, generation, events, last, rfl, h⟩ := h
  exact ⟨entry :: newer, older, owner, generation, events, last, rfl, h⟩

/-- Nobody publishes below a published position. -/
theorem mem_of_le_published {published : Set α}
    (hnew : ∀ x ∈ published, x ∈ s.published ∨ ∀ y ∈ s.published, pos y < pos x) {x y : α}
    (hx : x ∈ published) (hy : y ∈ s.published) (hle : pos x ≤ pos y) : x ∈ s.published :=
  (hnew x hx).resolve_right fun h => absurd hle (h y hy).not_ge

/-- Publishing keeps the cursor gapless. -/
theorem Gapless.publish (h : Gapless pos s) {published : Set α} (hold : s.published ⊆ published)
    (hnew : ∀ x ∈ published, x ∈ s.published ∨ ∀ y ∈ s.published, pos y < pos x) :
    Gapless pos { s with published } where
  granted owner generation through hlease := by
    obtain ⟨events, last, hgrant⟩ := h.granted owner generation through hlease
    exact ⟨events, last, { hgrant with
      published := hold hgrant.published
      covers := fun x hx hlt hle =>
        hgrant.covers x (mem_of_le_published hnew hx hgrant.published hle) hlt hle }⟩
  cursor c hc := (h.cursor c hc).imp fun _ he => ⟨hold he.1, he.2⟩
  delivered x hx hle := by
    refine h.delivered x ?_ hle
    obtain ⟨c, hc⟩ := WithBot.ne_bot_iff_exists.mp (ne_bot_of_le_ne_bot WithBot.coe_ne_bot hle)
    obtain ⟨e, he, hpos⟩ := h.cursor c hc.symm
    rw [← hc, WithBot.coe_le_coe, ← hpos] at hle
    exact mem_of_le_published hnew hx he hle
  fenced := h.fenced

/-- Claiming keeps the cursor gapless. -/
theorem Gapless.claim (h : Gapless pos s) (owner : ω) {events : List α} (hnext : Next pos s events) :
    Gapless pos { s with
      lease := events.getLast?.map fun last => (owner, s.generation + 1, pos last)
      generation := s.generation + 1
      log := .Claimed owner (s.generation + 1) events :: s.log } where
  granted owner' generation through hlease := by
    obtain ⟨last, hlast, heq⟩ := Option.map_eq_some_iff.mp hlease
    obtain ⟨rfl, rfl, rfl⟩ := by simpa using heq
    have hmem := List.mem_of_getLast? hlast
    refine ⟨events, last, last_claim_cons_of_getLast hlast, hlast, rfl, (hnext.published last hmem).1,
      (hnext.published last hmem).2, fun x hx hlt hle => ?_⟩
    exact (hnext.gapless x hx hlt).resolve_right fun hbeyond => absurd hle (hbeyond last hmem).not_ge
  cursor := h.cursor
  delivered x hx hle := (h.delivered x hx hle).cons _
  fenced := by
    refine ⟨List.pairwise_cons.mpr ⟨fun g hg => Nat.lt_succ_of_le (h.fenced.2 g hg), h.fenced.1⟩, ?_⟩
    intro g hg
    rcases List.mem_cons.mp hg with rfl | hg
    · exact le_rfl
    · exact Nat.le_succ_of_le (h.fenced.2 g hg)

/-- Acknowledging keeps the cursor gapless. -/
theorem Gapless.ack (h : Gapless pos s) {owner : ω} {generation : Nat} {through : κ}
    (hlease : s.lease = some (owner, generation, through)) :
    Gapless pos { s with
      cursor := through
      lease := none
      log := .Acked owner generation through :: s.log } := by
  obtain ⟨events, last, hgrant⟩ := h.granted owner generation through hlease
  refine ⟨fun _ _ _ hnone => (nomatch hnone), fun c hc => ?_, fun x hx hle => ?_, h.fenced⟩
  · exact ⟨last, hgrant.published, hgrant.through.trans (WithBot.coe_inj.mp hc)⟩
  · -- Below the old cursor it was delivered before; between the two it is in the claim just acknowledged.
    rcases le_or_gt (pos x : WithBot κ) s.cursor with hbelow | habove
    · exact (h.delivered x hx hbelow).cons _
    · rw [WithBot.coe_le_coe, ← hgrant.through] at hle
      refine ⟨[], s.log, owner, generation, events, last, ?_, hgrant.claim, hgrant.getLast,
        hgrant.covers x hx habove hle, hle⟩
      rw [hgrant.through]
      rfl

theorem Step.gapless (h : Gapless pos s) (hstep : Step pos s s') : Gapless pos s' := by
  cases hstep with
  | publish published hold hnew => exact h.publish hold hnew
  | claim owner events hnext => exact h.claim owner hnext
  | ack owner generation through hlease => exact h.ack hlease

theorem Step.published_subset (hstep : Step pos s s') : s.published ⊆ s'.published := by
  cases hstep with
  | publish published hold hnew => exact hold
  | claim owner events hnext => exact subset_rfl
  | ack owner generation through hlease => exact subset_rfl

/-- The cursor only moves forward. -/
theorem Step.cursor_le (h : Gapless pos s) (hstep : Step pos s s') : s.cursor ≤ s'.cursor := by
  cases hstep with
  | publish published hold hnew => exact le_rfl
  | claim owner events hnext => exact le_rfl
  | ack owner generation through hlease =>
    obtain ⟨events, last, hgrant⟩ := h.granted owner generation through hlease
    exact hgrant.through ▸ hgrant.cursor_lt.le

end

end leased_cursor
