import Runku.Realtime.Registry

namespace runku.realtime

open runku.core runku.value runku.data runku.execution

/-- The cursor stands at a position or beyond it. -/
def Covers (cursor : Option OutboxCursor) (position : OutboxCursor) : Prop :=
  ∃ c, cursor = some c ∧ position ≤ c

theorem covers_max_cursor {cursor : Option OutboxCursor} {candidate position : OutboxCursor} :
    Covers (some (max_cursor cursor candidate)) position ↔ Covers cursor position ∨ position ≤ candidate := by
  cases cursor <;> simp [max_cursor, Covers]

/-- An entry runs under a generation exactly when it runs up to a cursor. -/
def Entry.Settled (entry : Entry) : Prop :=
  entry.running_generation.isSome = entry.running_through.isSome

/-- A transition of an entry that hands out at most one ticket. -/
structure Entry.Evolves (entry : Entry) (ticket : Option RerunTicket) (entry' : Entry) : Prop where
  spec : entry'.snapshot.spec = entry.snapshot.spec
  settled : entry.Settled → entry'.Settled
  revision_le : entry.snapshot.delivery_revision ≤ entry'.snapshot.delivery_revision
  processed_mono : ∀ position, Covers entry.snapshot.processed_through position →
    Covers entry'.snapshot.processed_through position
  running : ∀ generation, entry'.running_generation = some generation →
    entry.running_generation = some generation ∨ ticket = some ⟨entry.snapshot.spec, generation⟩

section
variable {entry : Entry}

theorem Entry.Evolves.refl (entry : Entry) : entry.Evolves none entry :=
  ⟨rfl, id, le_rfl, fun _ h => h, fun _ h => .inl h⟩

theorem start_rerun_evolves (entry : Entry) (through : OutboxCursor) :
    entry.Evolves (some (start_rerun entry through).1) (start_rerun entry through).2 := by
  refine ⟨rfl, fun _ => rfl, le_rfl, fun _ h => h, fun generation h => .inr ?_⟩
  rw [← Option.some.inj h]
  rfl

theorem Entry.mark_impacted_evolves (scope : EnvironmentScope) (cursor : OutboxCursor) (impact : ChangeImpact)
    (now : TimestampMicros) (entry : Entry) : entry.Evolves (entry.mark_impacted scope cursor impact now).1
      (entry.mark_impacted scope cursor impact now).2 := by
  unfold Entry.mark_impacted
  split
  · exact .refl entry
  · split
    · exact ⟨rfl, id, le_rfl, fun _ h => h, fun _ h => .inl h⟩
    · exact start_rerun_evolves entry cursor

theorem Entry.ready_retry_evolves (now : TimestampMicros) (entry : Entry) :
    entry.Evolves (entry.ready_retry now).1 (entry.ready_retry now).2 := by
  unfold Entry.ready_retry
  split
  · split
    · exact .refl entry
    · have h := start_rerun_evolves { entry with dirty_through := none } (by assumption)
      exact ⟨h.spec, h.settled, h.revision_le, h.processed_mono, h.running⟩
  · exact .refl entry

theorem Entry.follow_up_evolves (entry : Entry) : entry.Evolves entry.follow_up.1 entry.follow_up.2 := by
  unfold Entry.follow_up
  split
  · exact .refl entry
  · dsimp only
    split
    · exact ⟨rfl, id, le_rfl, fun _ h => h, fun _ h => .inl h⟩
    · have h := start_rerun_evolves { entry with dirty_through := none } (by assumption)
      exact ⟨h.spec, h.settled, h.revision_le, h.processed_mono, h.running⟩

variable {ticket : RerunTicket} {through : OutboxCursor}

/-- A success of the active rerun, as its two parts. -/
theorem Entry.complete_success_eq (hrunning : entry.running_generation = some ticket.generation)
    (hthrough : entry.running_through = some through) (outcome : QueryOutcome) (hash : Sha256Digest) :
    entry.complete_success ticket outcome hash =
      (.ok (entry.apply_outcome outcome hash through ticket.spec.id).follow_up.1,
        (entry.apply_outcome outcome hash through ticket.spec.id).follow_up.2) := by
  unfold Entry.complete_success
  rw [require_generation, if_pos hrunning, hthrough]

/-- A ticket of another generation changes nothing. -/
theorem Entry.complete_success_stale
    (hstale : entry.running_generation ≠ some ticket.generation) (outcome : QueryOutcome) (hash : Sha256Digest) :
    entry.complete_success ticket outcome hash = (.error .StaleTicket, entry) := by
  unfold Entry.complete_success
  rw [require_generation, if_neg hstale]

theorem Entry.apply_outcome_evolves (outcome : QueryOutcome) (hash : Sha256Digest) (through : OutboxCursor)
    (id : SubscriptionId) (entry : Entry) : entry.Evolves none (entry.apply_outcome outcome hash through id) := by
  refine ⟨rfl, fun _ => rfl, Nat.le_succ _, fun position h => ?_, fun _ h => nomatch h⟩
  exact covers_max_cursor.mpr (.inl h)

theorem Entry.Evolves.trans {middle entry' : Entry} {ticket : Option RerunTicket}
    (h : entry.Evolves none middle) (h' : middle.Evolves ticket entry') : entry.Evolves ticket entry' where
  spec := h'.spec.trans h.spec
  settled hsettled := h'.settled (h.settled hsettled)
  revision_le := h.revision_le.trans h'.revision_le
  processed_mono position hcovers := h'.processed_mono position (h.processed_mono position hcovers)
  running generation hrunning := by
    rcases h'.running generation hrunning with hmiddle | hticket
    · exact .inl ((h.running generation hmiddle).resolve_right nofun)
    · exact .inr (h.spec ▸ hticket)

/-- A success of the active rerun leaves the entry running only under the ticket it returns. -/
theorem Entry.complete_success_evolves (hrunning : entry.running_generation = some ticket.generation)
    (hthrough : entry.running_through = some through) (outcome : QueryOutcome) (hash : Sha256Digest) :
    ∃ next entry', entry.complete_success ticket outcome hash = (.ok next, entry') ∧ entry.Evolves next entry' ∧
      ∀ generation, entry'.running_generation = some generation → next = some ⟨entry.snapshot.spec, generation⟩ := by
  have hfollow := (entry.apply_outcome outcome hash through ticket.spec.id).follow_up_evolves
  refine ⟨_, _, Entry.complete_success_eq hrunning hthrough outcome hash,
    (entry.apply_outcome_evolves outcome hash through ticket.spec.id).trans hfollow, fun generation h => ?_⟩
  exact (hfollow.running generation h).resolve_left nofun

theorem Entry.complete_failure_stale
    (hstale : entry.running_generation ≠ some ticket.generation) (config : RegistryConfig) (code : String)
    (retryable : Bool) (now : TimestampMicros) :
    entry.complete_failure config ticket code retryable now = (.error .StaleTicket, entry) := by
  unfold Entry.complete_failure
  rw [require_generation, if_neg hstale]

/-- A failure of the active rerun ends it, however it is recorded. -/
theorem Entry.complete_failure_evolves (hrunning : entry.running_generation = some ticket.generation)
    (hthrough : entry.running_through = some through) (config : RegistryConfig) (code : String) (retryable : Bool)
    (now : TimestampMicros) : entry.Evolves none (entry.complete_failure config ticket code retryable now).2 ∧
      (entry.complete_failure config ticket code retryable now).2.running_generation = none := by
  unfold Entry.complete_failure
  rw [require_generation, if_pos hrunning, hthrough]
  dsimp only
  split
  · refine ⟨⟨rfl, fun _ => rfl, Nat.le_succ _, fun position h => ?_, fun _ h => nomatch h⟩, rfl⟩
    exact covers_max_cursor.mpr (.inl h)
  · split
    · exact ⟨⟨rfl, fun _ => rfl, le_rfl, fun _ h => h, fun _ h => nomatch h⟩, rfl⟩
    · exact ⟨⟨rfl, fun _ => rfl, Nat.le_succ _, fun _ h => h, fun _ h => nomatch h⟩, rfl⟩

theorem Entry.resume_evolves (entry : Entry) : entry.Evolves none entry.resume :=
  ⟨rfl, id, le_rfl, fun _ h => h, fun _ h => .inl h⟩

end

section
variable {registry : SubscriptionRegistry}

theorem with_entry_entries {α : Type} (registry : SubscriptionRegistry) (id : SubscriptionId)
    (update : Entry → Except RealtimeError α × Entry) (key : SubscriptionId) :
    (registry.with_entry id update).2.entries[key]? =
      if id = key then (registry.entries[key]?).map fun entry => (update entry).2
      else registry.entries[key]? := by
  unfold SubscriptionRegistry.with_entry
  cases hentry : registry.entries[id]? with
  | none | some entry =>
    by_cases hkey : id = key
    · subst hkey
      simp [hentry]
    · simp [hkey]

theorem visit_entries (registry : SubscriptionRegistry) (turn : Entry → Option RerunTicket × Entry)
    (key : SubscriptionId) :
    (registry.visit turn).2.entries[key]? = (registry.entries[key]?).map fun entry => (turn entry).2 :=
  Std.ExtTreeMap.getElem?_map

theorem mem_visit_tickets {turn : Entry → Option RerunTicket × Entry} {ticket : RerunTicket} :
    ticket ∈ (registry.visit turn).1 ↔
      ∃ (id : SubscriptionId) (entry : Entry), registry.entries[id]? = some entry ∧ (turn entry).1 = some ticket := by
  simp [SubscriptionRegistry.visit, List.mem_filterMap, Std.ExtTreeMap.mem_toList_iff_getElem?_eq_some]

/-- Registering changes nothing, or adds a new entry where none was. -/
theorem register_cases (registry : SubscriptionRegistry) (sha256 : List UInt8 → Sha256Digest)
    (spec : SubscriptionSpec) (outcome : QueryOutcome) :
    (registry.register sha256 spec outcome).2 = registry ∨
      registry.entries[spec.id]? = none ∧ ∃ hash, (registry.register sha256 spec outcome).2 =
        { registry with entries := registry.entries.insert spec.id (Entry.new spec outcome hash) } := by
  unfold SubscriptionRegistry.register
  split
  · exact .inl rfl
  · exact .inl rfl
  · split
    · exact .inl rfl
    · rename_i hfree
      split
      · exact .inl rfl
      · exact .inr ⟨Std.ExtTreeMap.getElem?_eq_none hfree, _, rfl⟩

theorem remove_entries (registry : SubscriptionRegistry) (id key : SubscriptionId) :
    (registry.remove id).2.entries[key]? = if id = key then none else registry.entries[key]? := by
  unfold SubscriptionRegistry.remove
  split
  · simp
  · rename_i hfree
    by_cases hkey : id = key
    · subst hkey
      simpa using hfree
    · simp [hkey]

end

end runku.realtime
