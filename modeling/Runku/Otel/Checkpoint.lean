import Runku.Otel.Exporter

namespace runku.otel

section
variable {Event LogRecord : Type} {mapping : Mapping Event LogRecord} {configs : Nat → OtlpExporterConfig}

variable {payload : List UInt8}

/-- A shortened page is the beginning of the page. -/
theorem fit_beginning {records batch : List (SequencedOperationalEvent Event)} {maximum_bytes : Nat}
    (h : fit mapping records maximum_bytes = some (batch, payload)) : batch <+: records := by
  induction hlength : records.length using Nat.strongRecOn generalizing records with
  | ind n ih =>
    rw [fit] at h
    split at h
    · cases h
      exact List.prefix_rfl
    · split at h
      · refine (ih records.dropLast.length ?_ h rfl).trans <| List.dropLast_prefix records
        rw [List.length_dropLast]
        omega
      · cases h
    · cases h

/-- The batch holds every record of the journal after `after` and up to `next`, and all later records come after it. -/
structure Spans (s : System Event) (after : Nat) (batch : List (SequencedOperationalEvent Event)) (next : Nat) : Prop where
  below : next < s.next_sequence
  complete : ∀ record ∈ s.journal, after < record.cursor → record.cursor ≤ next → record ∈ batch

/-- A record was in a request that the collector of the destination accepted. -/
def Collected (s : System Event) (destination : OtlpDestinationDigest) (record : SequencedOperationalEvent Event) : Prop :=
  ∃ batch, (destination, batch) ∈ s.accepted ∧ record ∈ batch

/-- What an exporter of the given destination holds in its phase. -/
def Holds (s : System Event) (destination : OtlpDestinationDigest) : Phase Event → Prop
  | .Idle => True
  | .Loaded checkpoint => checkpoint.destination = destination
  | .Sending checkpoint batch _ next _ => checkpoint.destination = destination ∧ Spans s checkpoint.cursor batch next
  | .Accepted checkpoint batch next | .Refused checkpoint batch next =>
    checkpoint.destination = destination ∧ Spans s checkpoint.cursor batch next ∧ (destination, batch) ∈ s.accepted

variable (configs) in
/-- What every step keeps. -/
structure Safe (s : System Event) : Prop where
  ascending : s.journal.Pairwise (·.cursor < ·.cursor)
  positive : 0 < s.next_sequence ∧ ∀ record ∈ s.journal, 0 < record.cursor
  below : ∀ record ∈ s.journal, record.cursor < s.next_sequence
  covered : ∀ row, s.row = some row → row.cursor < s.next_sequence ∧
    ∀ record ∈ s.journal, record.cursor ≤ row.cursor → Collected s row.destination record
  holds : ∀ exporter, Holds s (configs exporter).destination (s.exporters exporter)

variable {s : System Event} {batch : List (SequencedOperationalEvent Event)}

/-- The batch of a query spans the records that it read. -/
theorem Safe.spans (h : Safe configs s) {after limit maximum_bytes : Nat} {last : SequencedOperationalEvent Event}
    (hfit : fit mapping (query s.journal after limit) maximum_bytes = some (batch, payload))
    (hlast : batch.getLast? = some last) : Spans s after batch last.cursor := by
  have hbatch : batch <+: s.journal.filter (after < ·.cursor) := (fit_beginning hfit).trans <| List.take_prefix _ _
  have hmem : last ∈ s.journal := (List.mem_filter.mp (hbatch.subset (List.mem_of_getLast? hlast))).1
  refine ⟨h.below last hmem, fun record hrecord hafter hle => ?_⟩
  have hfiltered : record ∈ s.journal.filter (after < ·.cursor) :=
    List.mem_filter.mpr ⟨hrecord, decide_eq_true hafter⟩
  obtain ⟨rest, hrest⟩ := hbatch
  rw [← hrest, List.mem_append] at hfiltered
  refine hfiltered.resolve_right fun hlater => ?_
  -- the rest of the page comes after the end of the batch
  have hsorted := h.ascending.filter (after < ·.cursor)
  rw [← hrest, List.pairwise_append] at hsorted
  have hlt := hsorted.2.2 last (List.mem_of_getLast? hlast) record hlater
  omega

theorem load_or_create_some (row : CheckpointRow) (destination : OtlpDestinationDigest) :
    (load_or_create (some row) destination).2 = some row := by
  rw [load_or_create]
  split <;> rfl

theorem load_or_create_none (destination : OtlpDestinationDigest) :
    (load_or_create none destination).2 = some ⟨destination, 0, 0⟩ := by
  simp [load_or_create]

variable {checkpoint : ExportCheckpoint} {row : Option CheckpointRow} {destination : OtlpDestinationDigest}

theorem load_or_create_destination (h : (load_or_create row destination).1 = .ok checkpoint) :
    checkpoint.destination = destination := by
  rw [load_or_create] at h
  split at h
  · cases h
  · rw [← Except.ok.inj h]

/-- How a step may change the row: not at all, by creating it at the start of the journal, or by moving its cursor
    forward and its revision by one. -/
inductive RowStep : Option CheckpointRow → Option CheckpointRow → Prop
  | same (row : Option CheckpointRow) : RowStep row row
  | created (destination : OtlpDestinationDigest) : RowStep none (some ⟨destination, 0, 0⟩)
  | advanced {row : CheckpointRow} {next : Nat} (h : row.cursor < next) :
      RowStep (some row) (some { row with cursor := next, revision := row.revision + 1 })

theorem load_or_create_rowStep (row : Option CheckpointRow) (destination : OtlpDestinationDigest) :
    RowStep row (load_or_create row destination).2 := by
  cases row with
  | none =>
    rw [load_or_create_none]
    exact .created destination
  | some row =>
    rw [load_or_create_some]
    exact .same _

theorem update_checkpoint_rowStep {next : Nat}
    (h : invalid_advance checkpoint next = false) : RowStep row (update_checkpoint row checkpoint next).2 := by
  cases row with
  | none => exact .same _
  | some row =>
    rw [update_checkpoint]
    split
    · rename_i hexpected
      simp only [CheckpointRow.expected, Bool.and_eq_true, decide_eq_true_eq] at hexpected
      simp only [invalid_advance, Bool.or_eq_false_iff, decide_eq_false_iff_not] at h
      exact .advanced (by omega)
    · exact .same _

/-- One step moves the row by a compare-and-set at most. -/
theorem step_rowStep (s : System Event) (action : Action Event) :
    RowStep s.row (s.step mapping configs action).row := by
  cases action with
  | Admit => exact .same _
  | Stop => exact .same _
  | Load exporter | Reload exporter =>
    rw [System.step]
    split
    · exact load_or_create_rowStep _ _
    · exact .same _
  | Query exporter | Attempt exporter =>
    rw [System.step]
    split <;> exact .same _
  | Advance exporter =>
    rw [System.step]
    split
    · split
      · exact .same _
      · rename_i hvalid
        exact update_checkpoint_rowStep (by simpa using hvalid)
    · exact .same _

/-- Admission and acceptance keep what is held. -/
theorem Holds.mono {s s' : System Event} {phase : Phase Event}
    (h : Holds s destination phase) (hnext : s.next_sequence ≤ s'.next_sequence)
    (hjournal : ∀ record ∈ s'.journal, record ∈ s.journal ∨ s.next_sequence ≤ record.cursor)
    (haccepted : ∀ one ∈ s.accepted, one ∈ s'.accepted) : Holds s' destination phase := by
  have hspans : ∀ {after batch next}, Spans s after batch next → Spans s' after batch next := by
    intro after batch next hspans
    refine ⟨lt_of_lt_of_le hspans.below hnext, fun record hrecord hafter hle => ?_⟩
    obtain hold | hnew := hjournal record hrecord
    · exact hspans.complete record hold hafter hle
    · exact absurd hspans.below (by omega)
  cases phase with
  | Idle => trivial
  | Loaded => exact h
  | Sending => exact ⟨h.1, hspans h.2⟩
  | Accepted | Refused => exact ⟨h.1, hspans h.2.1, haccepted _ h.2.2⟩

/-- An exporter that enters a phase it may hold, over a row that stays covered. -/
theorem Safe.enter (h : Safe configs s)
    {accepted : List (OtlpDestinationDigest × List (SequencedOperationalEvent Event))} {exporter : Nat}
    {progress : Progress Event} (haccepted : ∀ one ∈ s.accepted, one ∈ accepted)
    (hrow : ∀ stored, row = some stored → stored.cursor < s.next_sequence ∧
      ∀ record ∈ s.journal, record.cursor ≤ stored.cursor → Collected s stored.destination record)
    (hphase : Holds { s with accepted := accepted } (configs exporter).destination progress.phase) :
    Safe configs ({ s with row := row, accepted := accepted }.enter exporter progress) where
  ascending := h.ascending
  positive := h.positive
  below := h.below
  covered stored hstored := by
    obtain ⟨hbehind, hcollected⟩ := hrow stored hstored
    refine ⟨hbehind, fun record hrecord hle => ?_⟩
    obtain ⟨batch, hbatch, hmem⟩ := hcollected record hrecord hle
    exact ⟨batch, haccepted _ hbatch, hmem⟩
  holds other := by
    change Holds _ _ (Function.update s.exporters exporter progress.phase other)
    by_cases hother : other = exporter
    · subst hother
      rw [Function.update_self]
      exact hphase.mono le_rfl (fun _ h => .inl h) fun _ h => h
    · rw [Function.update_of_ne hother]
      exact (h.holds other).mono le_rfl (fun _ h => .inl h) haccepted

theorem Safe.covered_load (h : Safe configs s) (destination : OtlpDestinationDigest) :
    ∀ stored, (load_or_create s.row destination).2 = some stored → stored.cursor < s.next_sequence ∧
      ∀ record ∈ s.journal, record.cursor ≤ stored.cursor → Collected s stored.destination record := by
  intro stored hstored
  cases hrow : s.row with
  | none =>
    rw [hrow, load_or_create_none] at hstored
    cases hstored
    refine ⟨h.positive.1, fun record hrecord hle => ?_⟩
    exact absurd (h.positive.2 record hrecord) (Nat.not_lt.mpr hle)
  | some row =>
    rw [hrow, load_or_create_some] at hstored
    obtain rfl := Option.some.inj hstored
    exact h.covered row hrow

/-- An accepted batch covers the records up to its end once the row stands at the checkpoint before it. -/
theorem Safe.covered_update (h : Safe configs s) {next : Nat} (hspans : Spans s checkpoint.cursor batch next)
    (haccepted : (checkpoint.destination, batch) ∈ s.accepted) :
    ∀ stored, (update_checkpoint s.row checkpoint next).2 = some stored → stored.cursor < s.next_sequence ∧
      ∀ record ∈ s.journal, record.cursor ≤ stored.cursor → Collected s stored.destination record := by
  intro stored hstored
  cases hrow : s.row with
  | none =>
    rw [hrow] at hstored
    cases hstored
  | some row =>
    rw [hrow, update_checkpoint] at hstored
    split at hstored
    · rename_i hexpected
      cases hstored
      simp only [CheckpointRow.expected, Bool.and_eq_true, decide_eq_true_eq] at hexpected
      refine ⟨hspans.below, fun record hrecord hle => ?_⟩
      by_cases hold : record.cursor ≤ row.cursor
      · exact (h.covered row hrow).2 record hrecord hold
      · refine ⟨batch, hexpected.1.1 ▸ haccepted, hspans.complete record hrecord ?_ hle⟩
        omega
    · obtain rfl := Option.some.inj hstored
      exact h.covered row hrow

/-- A new record keeps the exporters safe. -/
theorem Safe.admitted (h : Safe configs s) (event : Event) :
    Safe configs (s.step mapping configs (.Admit event)) where
  ascending := by
    rw [System.step, List.pairwise_append]
    refine ⟨h.ascending, List.pairwise_singleton _ _, fun record hrecord other hother => ?_⟩
    rw [List.mem_singleton.mp hother]
    exact h.below record hrecord
  positive := by
    refine ⟨Nat.succ_pos _, fun record hrecord => ?_⟩
    rw [System.step, List.mem_append, List.mem_singleton] at hrecord
    obtain hold | rfl := hrecord
    · exact h.positive.2 record hold
    · exact h.positive.1
  below record hrecord := by
    rw [System.step, List.mem_append, List.mem_singleton] at hrecord
    change record.cursor < s.next_sequence + 1
    obtain hold | rfl := hrecord
    · exact (h.below record hold).trans (Nat.lt_succ_self _)
    · exact Nat.lt_succ_self _
  covered row hrow := by
    obtain ⟨hbehind, hcollected⟩ := h.covered row hrow
    refine ⟨hbehind.trans (Nat.lt_succ_self _), fun record hrecord hle => ?_⟩
    rw [System.step, List.mem_append, List.mem_singleton] at hrecord
    obtain hold | rfl := hrecord
    · exact hcollected record hold hle
    · exact absurd hbehind (Nat.not_lt.mpr hle)
  holds exporter := by
    refine (h.holds exporter).mono (Nat.le_succ _) (fun record hrecord => ?_) fun _ h => h
    rw [System.step, List.mem_append, List.mem_singleton] at hrecord
    obtain hold | rfl := hrecord
    · exact .inl hold
    · exact .inr le_rfl

/-- An attempt leaves the exporter with its batch, and with an accepted one only if the collector accepted it. -/
theorem holds_after_attempt {config : OtlpExporterConfig}
    {next attempt : Nat} {outcome : Except OtlpTransportError OtlpTransportOutcome}
    (hheld : checkpoint.destination = destination ∧ Spans s checkpoint.cursor batch next)
    (haccepted : outcome = .ok .Accepted → (destination, batch) ∈ s.accepted) :
    Holds s destination (after_attempt config checkpoint batch payload next attempt outcome).phase := by
  have hretry : Holds s destination (if config.maximum_attempts ≤ attempt + 1 then
      Progress.Return (.error .RetryExhausted)
      else .Continue (.Sending checkpoint batch payload next (attempt + 1))).phase := by
    split
    · trivial
    · exact hheld
  cases outcome with
  | ok outcome =>
    cases outcome with
    | Accepted => exact ⟨hheld.1, hheld.2, haccepted rfl⟩
    | Retryable => exact hretry
    | Terminal => trivial
  | error error =>
    cases error with
    | Unavailable => exact hretry
    | _ => trivial

/-- Every step keeps the row behind the collector. -/
theorem Safe.step (h : Safe configs s) (action : Action Event) : Safe configs (s.step mapping configs action) := by
  cases action with
  | Admit event => exact h.admitted event
  | Stop exporter => exact h.enter (fun _ h => h) h.covered trivial
  | Load exporter =>
    rw [System.step]
    split
    · refine h.enter (fun _ h => h) (h.covered_load _) ?_
      cases hload : (load_or_create s.row (configs exporter).destination).1 with
      | error => trivial
      | ok checkpoint => exact load_or_create_destination hload
    · exact h
  | Query exporter =>
    rw [System.step]
    split
    · rename_i checkpoint hphase
      have hheld := h.holds exporter
      rw [hphase] at hheld
      refine h.enter (fun _ h => h) h.covered ?_
      rw [after_query]
      split
      · trivial
      · split
        · trivial
        · rename_i hfit
          split
          · trivial
          · rename_i hlast
            exact ⟨hheld, h.spans hfit hlast⟩
    · exact h
  | Attempt exporter delivered outcome =>
    rw [System.step]
    split
    · rename_i checkpoint batch payload next attempt hphase
      have hheld := h.holds exporter
      rw [hphase] at hheld
      refine h.enter ?_ h.covered ?_
      · intro one hone
        split
        · exact List.mem_append_left _ hone
        · exact hone
      · refine holds_after_attempt ⟨hheld.1, hheld.2.below, hheld.2.complete⟩ fun houtcome => ?_
        rw [if_pos (.inr houtcome)]
        exact List.mem_append_right _ (List.mem_singleton_self _)
    · exact h
  | Advance exporter =>
    rw [System.step]
    split
    · rename_i checkpoint batch next hphase
      have hheld := h.holds exporter
      rw [hphase] at hheld
      obtain ⟨hdestination, hspans, haccepted⟩ := hheld
      split
      · exact h.enter (fun _ h => h) h.covered trivial
      · refine h.enter (fun _ h => h) (h.covered_update hspans (hdestination ▸ haccepted)) ?_
        rw [after_update]
        split
        · trivial
        · exact ⟨hdestination, hspans, haccepted⟩
    · exact h
  | Reload exporter =>
    rw [System.step]
    split
    · refine h.enter (fun _ h => h) (h.covered_load _) ?_
      rw [after_reload.eq_def]
      split
      · trivial
      · split <;> trivial
    · exact h

/-- A step of an exporter bound to another destination does not change the row. -/
theorem Safe.step_row_of_other (h : Safe configs s) {action : Action Event} {exporter : Nat}
    (haction : action.exporter = some exporter) {row : CheckpointRow} (hrow : s.row = some row)
    (hother : row.destination ≠ (configs exporter).destination) : (s.step mapping configs action).row = s.row := by
  cases action with
  | Admit => cases haction
  | Stop => rfl
  | Load | Reload =>
    rw [System.step]
    split
    · rw [hrow]
      exact load_or_create_some _ _
    · rfl
  | Query | Attempt =>
    rw [System.step]
    split <;> rfl
  | Advance other =>
    obtain rfl : other = exporter := Option.some.inj haction
    rw [System.step]
    split
    · rename_i checkpoint batch next hphase
      have hheld := h.holds other
      rw [hphase] at hheld
      split
      · rfl
      · have hunexpected : row.expected checkpoint = false := by
          simp [CheckpointRow.expected, hheld.1, hother]
        rw [System.enter]
        simp only [hrow, update_checkpoint, hunexpected, Bool.false_eq_true, if_false]
    · rfl

theorem run_safe (actions : List (Action Event)) : Safe configs (run mapping configs actions) := by
  refine @machine.run_induction _ _ (System.step mapping configs) (fun _ _ => True) (Safe configs)
    (fun s action _ h => h.step action) _ _ (machine.meets_of_forall fun _ _ => trivial) ?_
  exact ⟨List.Pairwise.nil, ⟨Nat.one_pos, nofun⟩, nofun, nofun, fun _ => trivial⟩

theorem run_concat (actions : List (Action Event)) (action : Action Event) :
    run mapping configs (actions ++ [action]) = (run mapping configs actions).step mapping configs action :=
  machine.run_append _ _ _

/-- The row keeps its destination, and its cursor and revision never decrease. -/
theorem run_append_row {actions : List (Action Event)} {row : CheckpointRow}
    (h : (run mapping configs actions).row = some row) (more : List (Action Event)) :
    ∃ later, (run mapping configs (actions ++ more)).row = some later ∧ later.destination = row.destination ∧
      row.cursor ≤ later.cursor ∧ row.revision ≤ later.revision := by
  induction more using List.reverseRecOn with
  | nil =>
    rw [List.append_nil]
    exact ⟨row, h, rfl, le_rfl, le_rfl⟩
  | append_singleton more action ih =>
    obtain ⟨later, hlater, hdestination, hcursor, hrevision⟩ := ih
    have hstep := @step_rowStep _ _ mapping configs (run mapping configs (actions ++ more)) action
    rw [← List.append_assoc, run_concat]
    generalize ((run mapping configs (actions ++ more)).step mapping configs action).row = after at hstep ⊢
    rw [hlater] at hstep
    cases hstep with
    | same => exact ⟨later, rfl, hdestination, hcursor, hrevision⟩
    | advanced hahead =>
      exact ⟨_, rfl, hdestination, hcursor.trans (le_of_lt hahead), hrevision.trans (Nat.le_succ _)⟩

end

/-- Events without content, one byte each. -/
def plain_mapping : Mapping Unit Unit where
  scope _ := ⟨⟨.from_nat 0⟩, ⟨.from_nat 0⟩⟩
  validate _ := true
  map_record _ := .ok ()
  encode_to_vec _ records := records.map fun _ => 0

def two_records (_ : Nat) : OtlpExporterConfig := ⟨Vector.replicate 32 0, 2, 2, 3⟩

/-- Two exporters hold different batches from the start; the shorter one moves the row, the longer one is refused. -/
def overlapping : List (Action Unit) :=
  [.Admit (), .Load 0, .Query 0, .Admit (), .Load 1, .Query 1, .Attempt 1 true (.error .Unavailable),
    .Attempt 0 true (.ok .Accepted), .Advance 0, .Attempt 1 true (.ok .Accepted), .Advance 1, .Reload 1]

end runku.otel
