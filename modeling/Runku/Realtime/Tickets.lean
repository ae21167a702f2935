import Runku.Realtime.Dispatcher
import Runku.Realtime.Entries

namespace runku.realtime

open runku.core runku.value runku.data runku.execution

/-- The tickets that a poll holds. -/
def Phase.tickets : Phase → List RerunTicket
  | .Executing _ tickets _ => tickets
  | .Rerunning _ ticket tickets _ => ticket :: tickets
  | .Marking _ _ _ tickets => tickets
  | _ => []

/-- The subscription runs under a generation. -/
def SubscriptionRegistry.Running (registry : SubscriptionRegistry) (id : SubscriptionId) (generation : Nat) : Prop :=
  ∃ entry, registry.entries[id]? = some entry ∧ entry.running_generation = some generation

def SubscriptionRegistry.NoneRunning (registry : SubscriptionRegistry) : Prop :=
  ∀ id generation, ¬registry.Running id generation

def Phase.is_idle : Phase → Bool
  | .Idle _ => true
  | _ => false

/-- No subscription runs while no poll executes. -/
def System.Quiescent (s : System) : Prop := s.phase.is_idle → s.registry.NoneRunning

/-- No subscription runs, except under this ticket. -/
def SubscriptionRegistry.OnlyRunning (registry : SubscriptionRegistry) (ticket : RerunTicket) : Prop :=
  ∀ id generation, registry.Running id generation → id = ticket.spec.id ∧ generation = ticket.generation

/-- The step drops no ticket that a subscription waits for: where the poll returns early, nothing runs
but the subscription whose rerun this step ends. -/
def System.Clean (s : System) (action : Action) : Prop :=
  match s.phase, action with
  | .Executing poll (ticket :: _) _, .Advance =>
    -- An expired authorization ends the poll.
    ticket.spec.authorized_until ≤ poll.now → s.registry.OnlyRunning ticket
  | .Rerunning _ ticket _ _, .Rerun (.error _) => s.registry.OnlyRunning ticket
  | .Rerunning _ ticket _ _, .Rerun (.ok outcome) =>
    -- A rejected outcome, or one for a subscription that was removed, ends the poll.
    validate_outcome outcome s.registry.config = .ok () ∧
        s.registry.Running ticket.spec.id ticket.generation ∨ s.registry.NoneRunning
  | .Marking _ _ (event :: _) _, .Advance =>
    (ChangeImpact.decode event.payload).isOk ∨ s.registry.NoneRunning
  | _, _ => True

/-- Every step of the run is clean. -/
def System.CleanRun (sha256 : List UInt8 → Sha256Digest) : System → List Action → Prop
  | _, [] => True
  | s, action :: actions => s.Clean action ∧ System.CleanRun sha256 (s.step sha256 action) actions

instance (registry : SubscriptionRegistry) (id : SubscriptionId) (generation : Nat) :
    Decidable (registry.Running id generation) :=
  decidable_of_iff ((registry.entries[id]?).bind Entry.running_generation = some generation) <| by
    simp [SubscriptionRegistry.Running, Option.bind_eq_some_iff]

/-- All running subscriptions satisfy a condition if all entries of the table do. -/
theorem forall_running_iff {registry : SubscriptionRegistry} {P : SubscriptionId → Nat → Prop} :
    (∀ row ∈ registry.entries.toList, ∀ generation ∈ row.2.running_generation, P row.1 generation) ↔
      ∀ id generation, registry.Running id generation → P id generation := by
  simp only [Prod.forall, Std.ExtTreeMap.mem_toList_iff_getElem?_eq_some, SubscriptionRegistry.Running,
    Option.mem_def]
  constructor
  · rintro h id generation ⟨entry, hentry, hrunning⟩
    exact h id entry hentry generation hrunning
  · intro h id entry hentry generation hrunning
    exact h id generation ⟨entry, hentry, hrunning⟩

instance (registry : SubscriptionRegistry) : Decidable registry.NoneRunning :=
  decidable_of_iff _ (forall_running_iff (P := fun _ _ => False))

instance (registry : SubscriptionRegistry) (ticket : RerunTicket) : Decidable (registry.OnlyRunning ticket) :=
  decidable_of_iff _ (forall_running_iff
    (P := fun id generation => id = ticket.spec.id ∧ generation = ticket.generation))

instance (s : System) : Decidable s.Quiescent := inferInstanceAs (Decidable (_ → _))

instance (s : System) (action : Action) : Decidable (s.Clean action) := by
  unfold System.Clean
  split <;> infer_instance

instance System.decidableCleanRun (sha256 : List UInt8 → Sha256Digest) :
    (s : System) → (actions : List Action) → Decidable (s.CleanRun sha256 actions)
  | _, [] => inferInstanceAs (Decidable True)
  | s, action :: actions =>
    have := System.decidableCleanRun sha256 (s.step sha256 action) actions
    inferInstanceAs (Decidable (_ ∧ _))

/-- Entries stand under their own identity and run up to a cursor if they run. -/
def SubscriptionRegistry.WellFormed (registry : SubscriptionRegistry) : Prop :=
  ∀ (id : SubscriptionId) (entry : Entry), registry.entries[id]? = some entry →
    entry.snapshot.spec.id = id ∧ entry.Settled

/-- The dispatcher holds a ticket for every subscription that runs. -/
structure System.Held (s : System) : Prop where
  wellFormed : s.registry.WellFormed
  ticket : ∀ id generation, s.registry.Running id generation →
    ∃ ticket ∈ s.phase.tickets, ticket.spec.id = id ∧ ticket.generation = generation

section
variable {registry : SubscriptionRegistry}

theorem WellFormed.insert (h : registry.WellFormed) {id : SubscriptionId} {entry : Entry}
    (hid : entry.snapshot.spec.id = id) (hsettled : entry.Settled) :
    ({ registry with entries := registry.entries.insert id entry } : SubscriptionRegistry).WellFormed := by
  intro key entry' hentry
  simp only [ordered_map.getElem?_insert] at hentry
  split at hentry
  · cases hentry
    exact ⟨hid.trans (by assumption), hsettled⟩
  · exact h key entry' hentry

/-- A visit of all entries: what runs afterwards ran before or got a ticket. -/
theorem visit_running (registry : SubscriptionRegistry) {turn : Entry → Option RerunTicket × Entry}
    (hturn : ∀ entry : Entry, entry.Evolves (turn entry).1 (turn entry).2) (h : registry.WellFormed) :
    (registry.visit turn).2.WellFormed ∧
      ∀ id generation, (registry.visit turn).2.Running id generation → registry.Running id generation ∨
        ∃ ticket ∈ (registry.visit turn).1, ticket.spec.id = id ∧ ticket.generation = generation := by
  constructor
  · intro id entry' hentry'
    rw [visit_entries, Option.map_eq_some_iff] at hentry'
    obtain ⟨entry, hentry, rfl⟩ := hentry'
    obtain ⟨hid, hsettled⟩ := h id entry hentry
    exact ⟨(congrArg SubscriptionSpec.id (hturn entry).spec).trans hid, (hturn entry).settled hsettled⟩
  · rintro id generation ⟨entry', hentry', hrunning⟩
    rw [visit_entries, Option.map_eq_some_iff] at hentry'
    obtain ⟨entry, hentry, rfl⟩ := hentry'
    rcases (hturn entry).running generation hrunning with hbefore | hticket
    · exact .inl ⟨entry, hentry, hbefore⟩
    · exact .inr ⟨_, mem_visit_tickets.mpr ⟨id, entry, hentry, hticket⟩, (h id entry hentry).1, rfl⟩

theorem register_running (sha256 : List UInt8 → Sha256Digest) (spec : SubscriptionSpec) (outcome : QueryOutcome)
    (h : registry.WellFormed) : (registry.register sha256 spec outcome).2.WellFormed ∧
      ∀ id generation, (registry.register sha256 spec outcome).2.Running id generation →
        registry.Running id generation := by
  rcases register_cases registry sha256 spec outcome with hsame | ⟨_, hash, hinsert⟩
  · rw [hsame]
    exact ⟨h, fun _ _ h => h⟩
  · rw [hinsert]
    refine ⟨WellFormed.insert h rfl rfl, ?_⟩
    rintro id generation ⟨entry, hentry, hrunning⟩
    simp only [ordered_map.getElem?_insert] at hentry
    split at hentry
    · cases hentry
      cases hrunning
    · exact ⟨entry, hentry, hrunning⟩

theorem remove_running (id : SubscriptionId) (h : registry.WellFormed) : (registry.remove id).2.WellFormed ∧
      ∀ key generation, (registry.remove id).2.Running key generation → registry.Running key generation := by
  have hentries : ∀ (key : SubscriptionId) (entry : Entry), (registry.remove id).2.entries[key]? = some entry →
      registry.entries[key]? = some entry := by
    intro key entry hentry
    rw [remove_entries] at hentry
    split at hentry
    · cases hentry
    · exact hentry
  refine ⟨fun key entry hentry => h key entry (hentries key entry hentry), ?_⟩
  rintro key generation ⟨entry, hentry, hrunning⟩
  exact ⟨entry, hentries key entry hentry, hrunning⟩

theorem resume_running (id : SubscriptionId) (h : registry.WellFormed) : (registry.resume id).2.WellFormed ∧
      ∀ key generation, (registry.resume id).2.Running key generation → registry.Running key generation := by
  have hentries : ∀ (key : SubscriptionId) (entry' : Entry), (registry.resume id).2.entries[key]? = some entry' →
      ∃ entry, registry.entries[key]? = some entry ∧ entry.Evolves none entry' := by
    intro key entry' hentry'
    rw [SubscriptionRegistry.resume, with_entry_entries] at hentry'
    split at hentry'
    · obtain ⟨entry, hentry, rfl⟩ := Option.map_eq_some_iff.mp hentry'
      exact ⟨entry, hentry, entry.resume_evolves⟩
    · exact ⟨entry', hentry', .refl entry'⟩
  constructor
  · intro key entry' hentry'
    obtain ⟨entry, hentry, hevolves⟩ := hentries key entry' hentry'
    obtain ⟨hid, hsettled⟩ := h key entry hentry
    exact ⟨(congrArg SubscriptionSpec.id hevolves.spec).trans hid, hevolves.settled hsettled⟩
  · rintro key generation ⟨entry', hentry', hrunning⟩
    obtain ⟨entry, hentry, hevolves⟩ := hentries key entry' hentry'
    exact ⟨entry, hentry, (hevolves.running generation hrunning).resolve_right nofun⟩

variable {outcome : QueryOutcome}

theorem result_hash_of_validate_outcome {config : RegistryConfig}
    (h : validate_outcome outcome config = .ok ()) (sha256 : List UInt8 → Sha256Digest) :
    ∃ hash, result_hash sha256 outcome.value = .ok hash := by
  unfold validate_outcome at h
  unfold result_hash
  split at h
  · cases h
  · split at h
    · cases h
    · exact ⟨_, rfl⟩

/-- A running entry of a well-formed registry runs up to some cursor. -/
theorem exists_running_through (h : registry.WellFormed) {id : SubscriptionId} {entry : Entry}
    (hentry : registry.entries[id]? = some entry) {generation : Nat}
    (hrunning : entry.running_generation = some generation) : ∃ through, entry.running_through = some through := by
  have hsettled := (h id entry hentry).2
  rw [Entry.Settled, hrunning] at hsettled
  exact Option.isSome_iff_exists.mp hsettled.symm

/-- The ticket of a running subscription completes it; what runs next got the ticket returned. -/
theorem complete_success_running (sha256 : List UInt8 → Sha256Digest) {ticket : RerunTicket}
    (h : registry.WellFormed) (hvalid : validate_outcome outcome registry.config = .ok ())
    (hrunning : registry.Running ticket.spec.id ticket.generation) :
    ∃ next registry', registry.complete_success sha256 ticket outcome = (.ok next, registry') ∧
      registry'.WellFormed ∧ ∀ id generation, registry'.Running id generation →
        registry.Running id generation ∧ id ≠ ticket.spec.id ∨
        ∃ issued ∈ next.toList, issued.spec.id = id ∧ issued.generation = generation := by
  obtain ⟨hash, hhash⟩ := result_hash_of_validate_outcome hvalid sha256
  obtain ⟨entry, hentry, hgeneration⟩ := hrunning
  obtain ⟨through, hthrough⟩ := exists_running_through h hentry hgeneration
  obtain ⟨next, entry', hcomplete, hevolves, hnext⟩ :=
    Entry.complete_success_evolves hgeneration hthrough outcome hash
  obtain ⟨hid, hsettled⟩ := h _ entry hentry
  have hid' := (congrArg SubscriptionSpec.id hevolves.spec).trans hid
  refine ⟨next, { registry with entries := registry.entries.insert ticket.spec.id entry' }, ?_,
    WellFormed.insert h hid' (hevolves.settled hsettled), ?_⟩
  · simp only [SubscriptionRegistry.complete_success, hvalid, hhash, SubscriptionRegistry.with_entry, hentry,
      hcomplete]
  · rintro id generation ⟨found, hfound, hgen⟩
    simp only [ordered_map.getElem?_insert] at hfound
    split at hfound
    · rename_i hkey
      cases hfound
      refine .inr ⟨⟨entry.snapshot.spec, generation⟩, ?_, hid.trans hkey, rfl⟩
      rw [hnext generation hgen]
      exact List.mem_singleton_self _
    · exact .inl ⟨⟨found, hfound, hgen⟩, Ne.symm (by assumption)⟩

/-- Any other completion is refused and changes nothing. -/
theorem complete_success_refused (sha256 : List UInt8 → Sha256Digest) {ticket : RerunTicket}
    (hrefused : ¬(validate_outcome outcome registry.config = .ok () ∧
      registry.Running ticket.spec.id ticket.generation)) :
    ∃ error, registry.complete_success sha256 ticket outcome = (.error error, registry) := by
  unfold SubscriptionRegistry.complete_success
  split
  · exact ⟨_, rfl⟩
  · exact ⟨_, rfl⟩
  · rename_i hash hvalid hhash
    cases hentry : registry.entries[ticket.spec.id]? with
    | none => exact ⟨.NotFound, by rw [SubscriptionRegistry.with_entry, hentry]⟩
    | some entry =>
      have hstale : entry.running_generation ≠ some ticket.generation :=
        fun hgeneration => hrefused ⟨hvalid, entry, hentry, hgeneration⟩
      refine ⟨.StaleTicket, ?_⟩
      simp only [SubscriptionRegistry.with_entry, hentry, Entry.complete_success_stale hstale,
        ordered_map.insert_eq_self hentry]

/-- A failure ends the rerun of its ticket and no other. -/
theorem complete_failure_running (h : registry.WellFormed) (ticket : RerunTicket) (code : String)
    (retryable : Bool) (now : TimestampMicros) : (registry.complete_failure ticket code retryable now).2.WellFormed ∧
      ∀ id generation, (registry.complete_failure ticket code retryable now).2.Running id generation ↔
        registry.Running id generation ∧ ¬(id = ticket.spec.id ∧ generation = ticket.generation) := by
  by_cases hrunning : registry.Running ticket.spec.id ticket.generation
  · obtain ⟨entry, hentry, hgeneration⟩ := hrunning
    obtain ⟨through, hthrough⟩ := exists_running_through h hentry hgeneration
    obtain ⟨hevolves, hended⟩ :=
      Entry.complete_failure_evolves hgeneration hthrough registry.config code retryable now
    obtain ⟨hid, hsettled⟩ := h _ entry hentry
    simp only [SubscriptionRegistry.complete_failure, SubscriptionRegistry.with_entry, hentry]
    refine ⟨WellFormed.insert h ((congrArg SubscriptionSpec.id hevolves.spec).trans hid)
      (hevolves.settled hsettled), fun id generation => ⟨?_, ?_⟩⟩
    · rintro ⟨found, hfound, hgen⟩
      simp only [ordered_map.getElem?_insert] at hfound
      split at hfound
      · cases hfound
        cases hended.symm.trans hgen
      · exact ⟨⟨found, hfound, hgen⟩, fun hsame => absurd hsame.1.symm (by assumption)⟩
    · rintro ⟨⟨found, hfound, hgen⟩, hother⟩
      refine ⟨found, ?_, hgen⟩
      simp only [ordered_map.getElem?_insert]
      split
      · rename_i hkey
        subst hkey
        cases hentry.symm.trans hfound
        exact absurd ⟨rfl, Option.some.inj (hgen.symm.trans hgeneration)⟩ hother
      · exact hfound
  · have hsame : (registry.complete_failure ticket code retryable now).2 = registry := by
      unfold SubscriptionRegistry.complete_failure SubscriptionRegistry.with_entry
      cases hentry : registry.entries[ticket.spec.id]? with
      | none => rfl
      | some entry =>
        have hstale : entry.running_generation ≠ some ticket.generation :=
          fun hgeneration => hrunning ⟨entry, hentry, hgeneration⟩
        simp only [Entry.complete_failure_stale hstale, ordered_map.insert_eq_self hentry]
    rw [hsame]
    refine ⟨h, fun id generation => ⟨fun hrun => ⟨hrun, ?_⟩, And.left⟩⟩
    rintro ⟨rfl, rfl⟩
    exact hrunning hrun

end

section
variable {s : System}

theorem System.Held.quiescent (h : s.Held) : s.Quiescent := by
  intro hidle id generation hrunning
  obtain ⟨ticket, hticket, _⟩ := h.ticket id generation hrunning
  cases hphase : s.phase <;> simp_all [Phase.is_idle, Phase.tickets]

/-- Where the poll returned, being quiescent is all that is held. -/
theorem System.Quiescent.held (h : s.Quiescent) (hidle : s.phase.is_idle) (hwf : s.registry.WellFormed) : s.Held :=
  ⟨hwf, fun id generation hrunning => absurd hrunning (h hidle id generation)⟩

/-- The registry changed, what runs ran before, and the tickets are still held. -/
theorem System.Held.of_registry (h : s.Held) {registry : SubscriptionRegistry}
    (hregistry : registry.WellFormed ∧
      ∀ id generation, registry.Running id generation → s.registry.Running id generation) :
    ({ s with registry } : System).Held :=
  ⟨hregistry.1, fun id generation hrunning => h.ticket id generation (hregistry.2 id generation hrunning)⟩

/-- A poll without tickets can go anywhere without dropping one. -/
theorem System.Held.of_no_tickets (h : s.Held) (hnone : s.phase.tickets = []) (phase : Phase) :
    ({ s with phase } : System).Held := by
  refine ⟨h.wellFormed, fun id generation hrunning => ?_⟩
  obtain ⟨ticket, hticket, _⟩ := h.ticket id generation hrunning
  rw [hnone] at hticket
  cases hticket

/-- The step leaves the system quiescent exactly under this condition, and then every ticket is held. -/
def System.HeldIff (s : System) (condition : Prop) : Prop :=
  (s.Quiescent ↔ condition) ∧ (s.Quiescent → s.Held)

theorem System.Held.heldIff {condition : Prop} (h : s.Held) (hcondition : condition) : s.HeldIff condition :=
  ⟨⟨fun _ => hcondition, fun _ => h.quiescent⟩, fun _ => h⟩

/-- A failed ticket ends the poll: nothing may run but its own subscription. -/
theorem fail_ticket_heldIff (h : s.Held) (poll : Poll) (ticket : RerunTicket) (failure : SubscriptionRunFailure) :
    (s.fail_ticket poll ticket failure).HeldIff (s.registry.OnlyRunning ticket) := by
  have hregistry : (s.fail_ticket poll ticket failure).registry =
      (s.registry.complete_failure ticket failure.code failure.retryable poll.now).2 := by
    unfold System.fail_ticket
    split <;> rename_i heq <;> rw [heq] <;> rfl
  have hidle : (s.fail_ticket poll ticket failure).phase.is_idle := by
    unfold System.fail_ticket
    split <;> rfl
  obtain ⟨hwf, hrunning⟩ := complete_failure_running h.wellFormed ticket failure.code failure.retryable poll.now
  rw [← hregistry] at hwf hrunning
  refine ⟨⟨fun hquiet id generation hrun => ?_, fun honly _ id generation hrun => ?_⟩,
    fun hquiet => hquiet.held hidle hwf⟩
  · by_contra hother
    exact hquiet hidle id generation ((hrunning id generation).mpr ⟨hrun, hother⟩)
  · obtain ⟨hrun, hother⟩ := (hrunning id generation).mp hrun
    exact hother (honly id generation hrun)

/-- A poll that returns without touching the registry leaves running whatever ran. -/
theorem returns_heldIff (h : s.Held) (result : Except DispatcherError PollOutcome) :
    (s.returns result).HeldIff s.registry.NoneRunning :=
  ⟨⟨fun hquiet => hquiet rfl, fun hnone _ => hnone⟩, fun hquiet => hquiet.held rfl h.wellFormed⟩

variable {poll : Poll} {tickets : List RerunTicket}

/-- Executing keeps every ticket held exactly if it is clean. -/
theorem execute_heldIff (h : s.Held) {stage : Stage} (hphase : s.phase = .Executing poll tickets stage) :
    (s.execute poll tickets stage).HeldIff (s.Clean .Advance) := by
  cases tickets with
  | nil =>
    have hclean : s.Clean .Advance := by simp [System.Clean, hphase]
    have hnone : s.phase.tickets = [] := by rw [hphase]; rfl
    simp only [System.execute, System.finish_stage]
    split
    · split <;> exact (h.of_no_tickets hnone _).heldIff hclean
    · exact (h.of_no_tickets hnone _).heldIff hclean
  | cons ticket tickets =>
    simp only [System.execute, System.Clean, hphase]
    split
    · rename_i hexpired
      simpa only [hexpired, forall_const] using fail_ticket_heldIff h poll ticket .authorization_expired
    · rename_i hvalid
      refine System.Held.heldIff ⟨h.wellFormed, fun id generation hrunning => ?_⟩ fun hexpired => absurd hexpired hvalid
      have hticket := h.ticket id generation hrunning
      rwa [hphase] at hticket

/-- Marking keeps every ticket held exactly if it is clean. -/
theorem mark_heldIff (h : s.Held) {claim : ClaimedOutboxBatch} {events : List OutboxEventRecord}
    (hphase : s.phase = .Marking poll claim events tickets) :
    (s.mark poll claim events tickets).HeldIff (s.Clean .Advance) := by
  have hheld : ∀ id generation, s.registry.Running id generation →
      ∃ ticket ∈ tickets, ticket.spec.id = id ∧ ticket.generation = generation := by
    intro id generation hrunning
    have hticket := h.ticket id generation hrunning
    rwa [hphase] at hticket
  cases events with
  | nil => exact System.Held.heldIff ⟨h.wellFormed, hheld⟩ (by simp [System.Clean, hphase])
  | cons event events =>
    simp only [System.mark, System.Clean, hphase]
    cases hdecode : ChangeImpact.decode event.payload with
    | error error => simpa [Except.isOk, Except.toBool] using returns_heldIff h (.error (.Realtime error))
    | ok impact =>
      obtain ⟨hwf, hrunning⟩ := visit_running s.registry
        (fun entry => entry.mark_impacted_evolves poll.scope event.cursor impact poll.now) h.wellFormed
      refine System.Held.heldIff ⟨hwf, fun id generation hrun => ?_⟩ (.inl rfl)
      rcases hrunning id generation hrun with hbefore | ⟨ticket, hticket, hsame⟩
      · obtain ⟨ticket, hticket, hsame⟩ := hheld id generation hbefore
        exact ⟨ticket, List.mem_append_left _ hticket, hsame⟩
      · exact ⟨ticket, List.mem_append_right _ hticket, hsame⟩

/-- A rerun keeps every ticket held exactly if it is clean. -/
theorem rerun_heldIff (sha256 : List UInt8 → Sha256Digest) (h : s.Held) {ticket : RerunTicket}
    {stage : Stage} (hphase : s.phase = .Rerunning poll ticket tickets stage)
    (result : Except SubscriptionRunFailure QueryOutcome) :
    (s.rerun sha256 poll ticket tickets stage result).HeldIff (s.Clean (.Rerun result)) := by
  cases result with
  | error failure => simpa only [System.rerun, System.Clean, hphase] using fail_ticket_heldIff h poll ticket failure
  | ok outcome =>
    simp only [System.rerun, System.Clean, hphase]
    by_cases haccepted : validate_outcome outcome s.registry.config = .ok () ∧
        s.registry.Running ticket.spec.id ticket.generation
    · obtain ⟨next, registry', hcomplete, hwf, hrunning⟩ :=
        complete_success_running sha256 h.wellFormed haccepted.1 haccepted.2
      simp only [hcomplete]
      refine System.Held.heldIff ⟨hwf, fun id generation hrun => ?_⟩ (.inl haccepted)
      rcases hrunning id generation hrun with ⟨hbefore, hother⟩ | ⟨issued, hissued, hsame⟩
      · -- The completed ticket is not the one that this subscription waits for.
        obtain ⟨held, hmem, hid, hgeneration⟩ := h.ticket id generation hbefore
        rw [hphase] at hmem
        rcases List.mem_cons.mp hmem with rfl | hmem
        · exact absurd hid.symm hother
        · exact ⟨held, List.mem_append_right _ hmem, hid, hgeneration⟩
      · exact ⟨issued, List.mem_append_left _ hissued, hsame⟩
    · obtain ⟨error, hcomplete⟩ := complete_success_refused sha256 haccepted
      simp only [hcomplete, haccepted, false_or]
      exact returns_heldIff h (.error (.Realtime error))

theorem poll_held (h : s.Held) (hnone : s.phase.tickets = []) (scope : EnvironmentScope) (now : TimestampMicros) :
    (s.poll scope now).Held := by
  obtain ⟨hwf, hrunning⟩ := visit_running s.registry (Entry.ready_retry_evolves now) h.wellFormed
  refine ⟨hwf, fun id generation hrun => ?_⟩
  rcases hrunning id generation hrun with hbefore | hissued
  · obtain ⟨ticket, hticket, _⟩ := h.ticket id generation hbefore
    rw [hnone] at hticket
    cases hticket
  · exact hissued

theorem check_held (h : s.Held) (hnone : s.phase.tickets = []) (poll : Poll) (claim : ClaimedOutboxBatch) :
    (s.check poll claim).Held := by
  unfold System.check
  split
  · exact h.of_no_tickets hnone _
  · split <;> exact h.of_no_tickets hnone _

theorem claim_held (h : s.Held) (hnone : s.phase.tickets = []) (poll : Poll)
    (result : Except StoreError ClaimedOutboxBatch) : (s.claim poll result).Held := by
  unfold System.claim
  split
  · exact h.of_no_tickets hnone _
  · exact h.of_no_tickets hnone _
  · split <;> exact h.of_no_tickets hnone _

theorem ack_held (h : s.Held) (hnone : s.phase.tickets = []) (poll : Poll) (claim : ClaimedOutboxBatch)
    (through : OutboxCursor) (result : Except StoreError Unit) : (s.ack poll claim through result).Held := by
  unfold System.ack
  split <;> exact h.of_no_tickets hnone _

/-- A step leaves the system quiescent exactly when it is clean. -/
theorem step_heldIff (sha256 : List UInt8 → Sha256Digest) (h : s.Held) (action : Action) :
    (s.step sha256 action).HeldIff (s.Clean action) := by
  cases action with
  | Register spec outcome =>
    have hheld := h.of_registry (register_running sha256 spec outcome h.wellFormed)
    exact hheld.heldIff (by unfold System.Clean; split <;> trivial)
  | Remove id =>
    have hheld := h.of_registry (remove_running id h.wellFormed)
    exact hheld.heldIff (by unfold System.Clean; split <;> trivial)
  | Resume id =>
    have hheld := h.of_registry (resume_running id h.wellFormed)
    exact hheld.heldIff (by unfold System.Clean; split <;> trivial)
  | Poll scope now =>
    have hheld : (s.step sha256 (.Poll scope now)).Held := by
      cases hphase : s.phase <;> simp only [System.step, hphase]
      case Idle => exact poll_held h (by rw [hphase]; rfl) scope now
      all_goals exact h
    exact hheld.heldIff (by unfold System.Clean; split <;> trivial)
  | Advance =>
    simp only [System.step, System.advance]
    cases hphase : s.phase with
    | Executing poll tickets stage => exact execute_heldIff h hphase
    | Marking poll claim events tickets => exact mark_heldIff h hphase
    | Checking poll claim =>
      exact (check_held h (by rw [hphase]; rfl) poll claim).heldIff (by simp [System.Clean, hphase])
    | Idle | Rerunning | Claiming | Acking => exact h.heldIff (by simp [System.Clean, hphase])
  | Rerun result =>
    cases hphase : s.phase with
    | Rerunning poll ticket tickets stage =>
      simp only [System.step, hphase]
      exact rerun_heldIff sha256 h hphase result
    | Idle | Executing | Claiming | Marking | Checking | Acking =>
      simp only [System.step, hphase]
      exact h.heldIff (by simp [System.Clean, hphase])
  | Claim result =>
    have hheld : (s.step sha256 (.Claim result)).Held := by
      cases hphase : s.phase <;> simp only [System.step, hphase]
      case Claiming poll lease_until => exact claim_held h (by rw [hphase]; rfl) poll result
      all_goals exact h
    exact hheld.heldIff (by unfold System.Clean; split <;> trivial)
  | Ack result =>
    have hheld : (s.step sha256 (.Ack result)).Held := by
      cases hphase : s.phase <;> simp only [System.step, hphase]
      case Acking poll claim through => exact ack_held h (by rw [hphase]; rfl) poll claim through result
      all_goals exact h
    exact hheld.heldIff (by unfold System.Clean; split <;> trivial)

end

theorem cleanRun_iff (sha256 : List UInt8 → Sha256Digest) {s : System} (h : s.Held) (actions : List Action) :
    (∀ executed, executed <+: actions → (s.run sha256 executed).Quiescent) ↔ s.CleanRun sha256 actions := by
  induction actions generalizing s with
  | nil =>
    refine ⟨fun _ => trivial, fun _ executed hinit => ?_⟩
    rw [List.prefix_nil.mp hinit]
    exact h.quiescent
  | cons action actions ih =>
    obtain ⟨hiff, hheld⟩ := step_heldIff sha256 h action
    constructor
    · intro hquiet
      have hstep : (s.step sha256 action).Quiescent :=
        hquiet [action] (List.cons_prefix_cons.mpr ⟨rfl, List.nil_prefix⟩)
      refine ⟨hiff.mp hstep, (ih (hheld hstep)).mp fun executed hinit => ?_⟩
      exact hquiet (action :: executed) (List.cons_prefix_cons.mpr ⟨rfl, hinit⟩)
    · rintro ⟨hclean, hrest⟩ executed hinit
      have hstep := hheld (hiff.mpr hclean)
      cases executed with
      | nil => exact h.quiescent
      | cons first executed =>
        obtain ⟨rfl, hrest'⟩ := List.cons_prefix_cons.mp hinit
        exact (ih hstep).mpr hrest executed hrest'

theorem new_held {config : RegistryConfig} {registry : SubscriptionRegistry}
    (h : SubscriptionRegistry.new config = .ok registry) (dispatcher : DispatcherConfig) :
    (System.new dispatcher registry).Held := by
  obtain ⟨valid, _, hnew⟩ := fallible.bind_eq_ok_iff.mp h
  cases hnew
  constructor
  · intro id entry hentry
    simp [System.new] at hentry
  · rintro id generation ⟨entry, hentry, _⟩
    simp [System.new] at hentry

/-- In a run from an empty registry, no subscription is left running between polls exactly when no poll
returned early with a ticket in hand. -/
theorem quiescent_iff_cleanRun (sha256 : List UInt8 → Sha256Digest) {config : RegistryConfig}
    {registry : SubscriptionRegistry} (hnew : SubscriptionRegistry.new config = .ok registry)
    (dispatcher : DispatcherConfig) (actions : List Action) :
    (∀ executed, executed <+: actions → ((System.new dispatcher registry).run sha256 executed).Quiescent) ↔
      (System.new dispatcher registry).CleanRun sha256 actions :=
  cleanRun_iff sha256 (new_held hnew dispatcher) actions

/-- A subscription of one Environment. -/
def subscription (n : Nat) : SubscriptionSpec where
  id := ⟨.from_nat n⟩
  scope := ⟨⟨.from_nat 1⟩, ⟨.from_nat 2⟩⟩
  release_id := ⟨.from_nat 3⟩
  pinned_code := .Release ⟨.from_nat 3⟩
  function := ⟨"list", by decide⟩
  arguments := .Null
  authorized_until := 100

/-- The result of a Query that looked for a document and did not find it. -/
def missing_document : QueryOutcome :=
  ⟨.Null, some 0, [.Point ⟨.from_nat 4⟩ ⟨.from_nat 5⟩ none 0]⟩

/-- The payload of a commit that writes that document. -/
def document_written (kind : String) : CanonicalValue :=
  .Object [
    ("indexes", .Array []),
    ("type", .String "document_write_set_v2"),
    ("writes", .Array [.Object [
      ("documentId", .String (⟨.from_nat 5⟩ : DocumentId).to_string),
      ("kind", .String kind),
      ("tableId", .String (⟨.from_nat 4⟩ : TableId).to_string)]])]

def empty_registry : SubscriptionRegistry := ⟨.PRODUCTION, ∅⟩

/-- Subscribes, polls the event, and answers the first rerun. -/
def one_poll (subscriptions : List SubscriptionSpec) (result : Except SubscriptionRunFailure QueryOutcome) :
    List Action :=
  subscriptions.map (.Register · missing_document) ++
    [.Poll (subscription 1).scope 10, .Advance,
      .Claim (.ok ⟨1, none, [⟨⟨.from_nat 6⟩, 1, document_written "insert"⟩]⟩), .Advance, .Advance, .Advance,
      .Rerun result]

theorem quiescent_iff_cleanRun_single : ((System.new .PRODUCTION empty_registry).run checksum
      (one_poll [subscription 1] (.error ⟨"RUNTIME_BUSY", true⟩))).Quiescent :=
  (quiescent_iff_cleanRun checksum (show SubscriptionRegistry.new .PRODUCTION = .ok empty_registry by decide +kernel)
    .PRODUCTION _).mpr (by decide +kernel) _ (List.prefix_refl _)

/-- Two subscriptions are impacted by one event and the rerun of the first fails: the poll returns, and
the second subscription runs without anybody holding its ticket. -/
theorem failed_rerun_leaves_running : ¬((System.new .PRODUCTION empty_registry).run checksum
      (one_poll [subscription 1, subscription 2] (.error ⟨"RUNTIME_BUSY", true⟩))).Quiescent := by
  decide +kernel

end runku.realtime
