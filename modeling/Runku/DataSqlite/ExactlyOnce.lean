import Runku.DataSqlite.Journal

namespace runku.data_sqlite

open runku.core runku.value runku.data transaction

/-- One call of a history, with the store before and after it. -/
structure CommitEvent where
  call : CommitCall
  before : SqliteStore
  result : Except StoreError CommitResult
  after : SqliteStore

/-- The calls of a history, made one after another. -/
def SqliteStore.history (sha256 : List UInt8 → Sha256Digest) : SqliteStore → List CommitCall → List CommitEvent
  | _, [] => []
  | store, call :: calls =>
    let (result, after) := store.commit sha256 call.world call.batch
    ⟨call, store, result, after⟩ :: SqliteStore.history sha256 after calls

/-- The Environment a call addresses. -/
abbrev CommitEvent.env (event : CommitEvent) : Environment := event.before event.call.batch.scope

/-- The Environment a call leaves. -/
abbrev CommitEvent.env' (event : CommitEvent) : Environment := event.after event.call.batch.scope

/-- The sequence an event assigned in a scope, if it applied a batch there. -/
def CommitEvent.applied_sequence (scope : EnvironmentScope) (event : CommitEvent) : Option Nat :=
  match event.result with
  | .ok result => if event.call.batch.scope = scope ∧ !result.replayed then some result.commit_sequence else none
  | .error _ => none

/-- The hash tells the hashed bytes of these batches apart. -/
def CollisionFree (sha256 : List UInt8 → Sha256Digest) (batches : List CommitBatch) : Prop :=
  ∀ a ∈ batches, ∀ b ∈ batches, ∀ x y, a.digest_input = .ok x → b.digest_input = .ok y →
    sha256 x = sha256 y → x = y

/-- Atomicity and exactly-once application over a history. -/
structure ExactlyOnce (sha256 : List UInt8 → Sha256Digest) (store : SqliteStore)
    (history : List CommitEvent) : Prop where
  /-- A call that reports an error changed nothing. -/
  failed : ∀ event ∈ history, ∀ error, event.result = .error error → event.after = event.before
  /-- The first success of an operation takes the next sequence and applies the whole batch. -/
  first : ∀ event ∈ history, ∀ result, event.result = .ok result →
    event.call.batch.operation_id ∉ event.env.commit_operations →
      result.replayed = false ∧ result.commit_sequence = event.env.sequence + 1 ∧
      (∃ digest now, event.call.batch.digest sha256 = .ok digest ∧
        Applied event.call.batch digest now event.env event.env') ∧
      ∀ scope, scope ≠ event.call.batch.scope → event.after scope = event.before scope
  /-- A success of a journalled operation is a replay and changes nothing. -/
  again : ∀ event ∈ history, ∀ result, event.result = .ok result →
    event.call.batch.operation_id ∈ event.env.commit_operations →
      result.replayed = true ∧ event.after = event.before
  /-- Every call after the first success of its operation repeats the result or is refused, by its
  digest, and changes nothing. -/
  later : history.Pairwise fun event event' =>
    ∀ result, event.result = .ok result → result.replayed = false →
    event'.call.batch.scope = event.call.batch.scope →
    event'.call.batch.operation_id = event.call.batch.operation_id → event'.call.world.Healthy →
    ∀ digest digest', event.call.batch.digest sha256 = .ok digest →
      event'.call.batch.digest sha256 = .ok digest' →
      event'.after = event'.before ∧ event'.result =
        if digest' = digest then .ok { result with replayed := true } else .error .OperationIdReused
  /-- The sequences assigned in one scope are consecutive, from the one after the scope's first. -/
  consecutive : ∀ scope, ∃ count, history.filterMap (CommitEvent.applied_sequence scope) =
    List.range' ((store scope).sequence + 1) count

section
variable {sha256 : List UInt8 → Sha256Digest} {store : SqliteStore} {calls : List CommitCall}

theorem history_cons (call : CommitCall) : SqliteStore.history sha256 store (call :: calls) =
    ⟨call, store, (store.commit sha256 call.world call.batch).1, (store.commit sha256 call.world call.batch).2⟩ ::
    SqliteStore.history sha256 (store.commit sha256 call.world call.batch).2 calls := rfl

theorem commit_snd (call : CommitCall) : (store.commit sha256 call.world call.batch).2 =
    Function.update store call.batch.scope ((store call.batch.scope).commit sha256 call.world call.batch).2 := rfl

/-- Every event of a history is a commit call on the store before it. -/
theorem event_of_mem_history {event : CommitEvent} (h : event ∈ SqliteStore.history sha256 store calls) :
    event.call ∈ calls ∧ event.result = (event.env.commit sha256 event.call.world event.call.batch).1 ∧
      event.after = Function.update event.before event.call.batch.scope
        (event.env.commit sha256 event.call.world event.call.batch).2 := by
  induction calls generalizing store with
  | nil => cases h
  | cons call calls ih =>
    rw [history_cons] at h
    rcases List.mem_cons.mp h with rfl | h
    · exact ⟨List.mem_cons_self, rfl, rfl⟩
    · exact (ih h).imp_left (List.mem_cons_of_mem _)

/-- A property of stores that every commit preserves holds before every event. -/
theorem before_of_mem_history {P : SqliteStore → Prop}
    (hstep : ∀ store (call : CommitCall), P store → P (store.commit sha256 call.world call.batch).2) (hstore : P store)
    {event : CommitEvent} (h : event ∈ SqliteStore.history sha256 store calls) : P event.before := by
  induction calls generalizing store with
  | nil => cases h
  | cons call calls ih =>
    rw [history_cons] at h
    rcases List.mem_cons.mp h with rfl | h
    · exact hstore
    · exact ih (hstep store call hstore) h

end

/-- A journalled operation with its results. -/
def Environment.Journalled (env : Environment) (operation_id : OperationId) (row : CommitOperationRow)
    (results : List DocumentRevisionResult) : Prop :=
  env.commit_operations[operation_id]? = some row ∧ env.operation_results operation_id = results

variable {digest : Sha256Digest}

theorem Applied.journalled {batch : CommitBatch} {now : Int64}
    {env env' : Environment} (h : Applied batch digest now env env') {operation_id : OperationId}
    {row : CommitOperationRow} {results : List DocumentRevisionResult}
    (hjournal : env.Journalled operation_id row results) : env'.Journalled operation_id row results := by
  have hne : operation_id ≠ batch.operation_id := by
    rintro rfl
    cases h.fresh.symm.trans hjournal.1
  refine ⟨?_, (h.operation_results_other hne).trans hjournal.2⟩
  rw [h.commit_operations, ordered_map.getElem?_insert, if_neg hne.symm, hjournal.1]

/-- An applied batch is journalled with its own results. -/
theorem Applied.journalled_self {batch : CommitBatch} {now : Int64}
    {env env' : Environment} (h : Applied batch digest now env env') (hfk : env.ForeignKey) :
    env'.Journalled batch.operation_id ⟨digest, env.sequence + 1, now⟩ (batch.documents.map document_result) := by
  refine ⟨?_, h.operation_results_self hfk⟩
  rw [h.commit_operations, ordered_map.getElem?_insert, if_pos rfl]

variable {sha256 : List UInt8 → Sha256Digest}

/-- No commit of any scope changes a journalled operation. -/
theorem commit_journalled_stable {scope : EnvironmentScope}
    {operation_id : OperationId} {row : CommitOperationRow} {results : List DocumentRevisionResult}
    (store : SqliteStore) (call : CommitCall) (h : (store scope).Journalled operation_id row results) :
    ((store.commit sha256 call.world call.batch).2 scope).Journalled operation_id row results := by
  rw [commit_snd]
  by_cases hscope : scope = call.batch.scope
  · subst hscope
    rw [Function.update_self]
    rcases commit_state sha256 call.world call.batch (store call.batch.scope) with heq | ⟨_, _, _, _, happlied⟩
    · rwa [heq]
    · exact happlied.journalled h
  · rwa [Function.update_of_ne hscope]

theorem commit_foreignKey (store : SqliteStore) (call : CommitCall)
    (h : ∀ scope, (store scope).ForeignKey) (scope : EnvironmentScope) :
    ((store.commit sha256 call.world call.batch).2 scope).ForeignKey := by
  rw [commit_snd]
  by_cases hscope : scope = call.batch.scope
  · subst hscope
    rw [Function.update_self]
    rcases commit_state sha256 call.world call.batch (store call.batch.scope) with heq | ⟨_, _, _, _, happlied⟩
    · rw [heq]
      exact h _
    · exact happlied.foreignKey (h _)
  · rw [Function.update_of_ne hscope]
    exact h scope

/-- Two batches with one digest have the same number of document mutations. -/
theorem documents_length_eq {batches : List CommitBatch}
    (hcollision : CollisionFree sha256 batches) {a b : CommitBatch} (ha : a ∈ batches) (hb : b ∈ batches)
    (hda : a.digest sha256 = .ok digest) (hdb : b.digest sha256 = .ok digest) :
    a.documents.length = b.documents.length := by
  obtain ⟨_, x, hx, rfl⟩ := digest_eq_ok hda
  obtain ⟨_, y, hy, hxy⟩ := digest_eq_ok hdb
  obtain rfl := hcollision a ha b hb x y hx hy hxy
  exact (CommitBatch.sameIntent_of_digest_input hx hy).documents.length_eq

section
variable {sha256 : List UInt8 → Sha256Digest} {store : SqliteStore} {calls : List CommitCall}

variable {event : CommitEvent}

/-- The case split every success falls under. -/
theorem success_of_mem_history (h : event ∈ SqliteStore.history sha256 store calls) {result : CommitResult}
    (hresult : event.result = .ok result) : ∃ digest, event.call.batch.digest sha256 = .ok digest ∧
      ((event.after = event.before ∧ Replayed event.call.batch digest event.env result) ∨
        ∃ now, Applied event.call.batch digest now event.env event.env' ∧
          (∀ scope, scope ≠ event.call.batch.scope → event.after scope = event.before scope) ∧
          result = ⟨event.env.sequence + 1, event.call.batch.documents.map document_result, false⟩) := by
  obtain ⟨_, hfst, hafter⟩ := event_of_mem_history h
  have hcommit : event.env.commit sha256 event.call.world event.call.batch =
      (.ok result, event.env') := by
    rw [← hresult, hfst, CommitEvent.env', hafter, Function.update_self]
  obtain ⟨digest, hdigest, hcases⟩ := commit_eq_ok hcommit
  refine ⟨digest, hdigest, ?_⟩
  rcases hcases with ⟨heq, hreplayed⟩ | ⟨now, _, happlied, hvalue⟩
  · refine .inl ⟨?_, hreplayed⟩
    rw [hafter, hcommit]
    exact heq ▸ Function.update_eq_self _ _
  · refine .inr ⟨now, happlied, fun scope hscope => ?_, hvalue⟩
    rw [hafter, Function.update_of_ne hscope]

/-- After an operation was applied, every later healthy call for it is answered by its digest. -/
theorem later_of_applied (hcollision : CollisionFree sha256 (calls.map CommitCall.batch))
    {batch : CommitBatch} (hbatch : batch ∈ calls.map CommitCall.batch) {digest : Sha256Digest}
    (hdigest : batch.digest sha256 = .ok digest) {sequence : Nat} {created_at_micros : Int64}
    (hjournal : (store batch.scope).Journalled batch.operation_id ⟨digest, sequence, created_at_micros⟩
      (batch.documents.map document_result)) {rest : List CommitCall} (hrest : ∀ call ∈ rest, call ∈ calls)
    (h : event ∈ SqliteStore.history sha256 store rest) (hscope : event.call.batch.scope = batch.scope)
    (hoperation : event.call.batch.operation_id = batch.operation_id)
    (hworld : event.call.world.Healthy) {digest' : Sha256Digest}
    (hdigest' : event.call.batch.digest sha256 = .ok digest') :
    event.after = event.before ∧ event.result = if digest' = digest then
        .ok ⟨sequence, batch.documents.map document_result, true⟩ else .error .OperationIdReused := by
  obtain ⟨hcall, hfst, hafter⟩ := event_of_mem_history h
  have hjournal' := before_of_mem_history (P := fun store => (store batch.scope).Journalled _ _ _)
    (fun store call hj => commit_journalled_stable store call hj) hjournal h
  rw [← hscope, ← hoperation] at hjournal'
  have hcommit := commit_journalled hworld hdigest' hjournal'.1
  rw [hjournal'.2] at hcommit
  refine ⟨?_, ?_⟩
  · rw [hafter, hcommit]
    exact Function.update_eq_self _ _
  · rw [hfst, hcommit]
    by_cases hmatch : digest' = digest
    · have hlen := documents_length_eq hcollision hbatch (List.mem_map_of_mem (hrest _ hcall)) hdigest
        (hmatch ▸ hdigest')
      simp [hmatch, hlen]
    · simp [hmatch, Ne.symm hmatch]

/-- After its first success an operation is repeated or refused. -/
theorem history_later (hcollision : CollisionFree sha256 (calls.map CommitCall.batch))
    {rest : List CommitCall} (hrest : ∀ call ∈ rest, call ∈ calls) (hfk : ∀ scope, (store scope).ForeignKey) :
    (SqliteStore.history sha256 store rest).Pairwise fun event event' =>
      ∀ result, event.result = .ok result → result.replayed = false →
      event'.call.batch.scope = event.call.batch.scope →
      event'.call.batch.operation_id = event.call.batch.operation_id → event'.call.world.Healthy →
      ∀ digest digest', event.call.batch.digest sha256 = .ok digest →
        event'.call.batch.digest sha256 = .ok digest' →
        event'.after = event'.before ∧ event'.result =
          if digest' = digest then .ok { result with replayed := true } else .error .OperationIdReused := by
  induction rest generalizing store with
  | nil => exact List.Pairwise.nil
  | cons call rest ih =>
    have hhead : (⟨call, store, (store.commit sha256 call.world call.batch).1,
        (store.commit sha256 call.world call.batch).2⟩ : CommitEvent) ∈
        SqliteStore.history sha256 store (call :: rest) := List.mem_cons_self
    rw [List.forall_mem_cons] at hrest
    refine List.Pairwise.cons ?_ (ih hrest.2 (commit_foreignKey store call hfk))
    intro event' hevent' result hresult hfirst hscope hoperation hworld digest digest' hdigest hdigest'
    obtain ⟨digest₀, hdigest₀, hcases⟩ := success_of_mem_history hhead hresult
    cases hdigest₀.symm.trans hdigest
    rcases hcases with ⟨_, _, _, _, _, rfl⟩ | ⟨now, happlied, _, rfl⟩
    · cases hfirst
    · -- The head applied its batch, so from here on its operation is journalled.
      exact later_of_applied hcollision (List.mem_map_of_mem hrest.1) hdigest
        (happlied.journalled_self (hfk _)) hrest.2 hevent' hscope hoperation hworld hdigest'

/-- A call that fails leaves the store as it was. -/
theorem history_failed (hatomic : ∀ call ∈ calls, ∀ error, call.world.outcome ≠ .Failed error true)
    (h : event ∈ SqliteStore.history sha256 store calls) {error : StoreError}
    (hresult : event.result = .error error) : event.after = event.before := by
  obtain ⟨hcall, hfst, hafter⟩ := event_of_mem_history h
  suffices heq : (event.env.commit sha256 event.call.world event.call.batch).2 = event.env by
    rw [hafter, heq]
    exact Function.update_eq_self _ _
  rw [hresult] at hfst
  unfold Environment.commit at hfst ⊢
  split
  · rfl
  · rename_i digest hdigest
    simp only [hdigest] at hfst
    exact transact_eq_error (hatomic _ hcall) (Prod.ext hfst.symm rfl)

/-- One event moves the sequence of a scope by one if it applied a batch there, and not otherwise. -/
theorem sequence_of_mem_history
    (hatomic : ∀ call ∈ calls, ∀ error, call.world.outcome ≠ .Failed error true)
    (h : event ∈ SqliteStore.history sha256 store calls) (scope : EnvironmentScope) :
    match event.applied_sequence scope with
    | some sequence => sequence = (event.before scope).sequence + 1 ∧
        (event.after scope).sequence = (event.before scope).sequence + 1
    | none => (event.after scope).sequence = (event.before scope).sequence := by
  unfold CommitEvent.applied_sequence
  cases hresult : event.result with
  | error error => simp only [history_failed hatomic h hresult]
  | ok result =>
    obtain ⟨digest, _, ⟨heq, _, _, _, _, rfl⟩ | ⟨now, happlied, hother, rfl⟩⟩ := success_of_mem_history h hresult
    · simp [heq]
    · by_cases hscope : event.call.batch.scope = scope
      · subst hscope
        simpa using happlied.sequence_eq
      · simp [hscope, hother scope (Ne.symm hscope)]

/-- New commits take consecutive sequences. -/
theorem history_consecutive
    (hatomic : ∀ call ∈ calls, ∀ error, call.world.outcome ≠ .Failed error true) (scope : EnvironmentScope) :
    ∃ count, (SqliteStore.history sha256 store calls).filterMap (CommitEvent.applied_sequence scope) =
      List.range' ((store scope).sequence + 1) count := by
  induction calls generalizing store with
  | nil => exact ⟨0, rfl⟩
  | cons call calls ih =>
    obtain ⟨count, hcount⟩ := @ih (store.commit sha256 call.world call.batch).2
      fun call hcall => hatomic call (List.mem_cons_of_mem _ hcall)
    have hhead := sequence_of_mem_history hatomic
      (@history_cons sha256 store calls call ▸ List.mem_cons_self) scope
    rw [history_cons, List.filterMap_cons]
    split at hhead
    · rename_i sequence hsequence
      rw [hsequence]
      refine ⟨count + 1, ?_⟩
      rw [hcount, hhead.2, hhead.1]
      rfl
    · rename_i hsequence
      rw [hsequence]
      exact ⟨count, by rw [hcount, hhead]⟩

end

/-- Commits are atomic and take effect exactly once for each operation identity. The store may be in
any state its schema admits; a `COMMIT` that reports an error did not take effect; and the hash tells
the batches of the history apart. -/
theorem history_exactlyOnce {sha256 : List UInt8 → Sha256Digest} {store : SqliteStore}
    {calls : List CommitCall} (hfk : ∀ scope, (store scope).ForeignKey)
    (hatomic : ∀ call ∈ calls, ∀ error, call.world.outcome ≠ .Failed error true)
    (hcollision : CollisionFree sha256 (calls.map CommitCall.batch)) :
    ExactlyOnce sha256 store (SqliteStore.history sha256 store calls) where
  failed event h error hresult := history_failed hatomic h hresult
  first event h result hresult hfresh := by
    obtain ⟨digest, hdigest, hcases⟩ := success_of_mem_history h hresult
    rcases hcases with ⟨_, row, hrow, _⟩ | ⟨now, happlied, hother, rfl⟩
    · rw [Std.ExtTreeMap.mem_iff_isSome_getElem?, hrow] at hfresh
      exact absurd rfl hfresh
    · exact ⟨rfl, rfl, ⟨digest, now, hdigest, happlied⟩, hother⟩
  again event h result hresult hjournalled := by
    obtain ⟨digest, hdigest, hcases⟩ := success_of_mem_history h hresult
    rcases hcases with ⟨heq, _, _, _, _, rfl⟩ | ⟨now, happlied, _⟩
    · exact ⟨rfl, heq⟩
    · rw [Std.ExtTreeMap.mem_iff_isSome_getElem?, happlied.fresh] at hjournalled
      cases hjournalled
  later := history_later hcollision (fun _ h => h) hfk
  consecutive := history_consecutive hatomic

/-- A batch that appends one event. -/
def one_event (payload : CanonicalValue) : CommitBatch where
  scope := ⟨⟨.from_nat 1⟩, ⟨.from_nat 2⟩⟩
  operation_id := ⟨.from_nat 3⟩
  reads := []
  documents := []
  indexes := []
  outbox := [⟨⟨.from_nat 4⟩, payload⟩]
  schedules := []
  intent_context := none

def retry_then_reuse : List CommitCall :=
  [.Int64 1, .Int64 1, .Int64 2].map fun payload => ⟨⟨.ok 0, [], .Committed⟩, one_event payload⟩

theorem history_exactlyOnce_retry_then_reuse : ExactlyOnce checksum (fun _ => .empty)
        (SqliteStore.history checksum (fun _ => .empty) retry_then_reuse) ∧
      (SqliteStore.history checksum (fun _ => .empty) retry_then_reuse).map CommitEvent.result =
        [.ok ⟨1, [], false⟩, .ok ⟨1, [], true⟩, .error .OperationIdReused] := by
  refine ⟨history_exactlyOnce ?_ ?_ ?_, by decide +kernel⟩
  · intro scope key hkey
    exact absurd hkey Std.ExtTreeMap.not_mem_empty
  · intro call hcall error herror
    obtain ⟨payload, _, rfl⟩ := List.mem_map.mp hcall
    cases herror
  · have hinputs : ∀ a ∈ retry_then_reuse.map CommitCall.batch, ∀ b ∈ retry_then_reuse.map CommitCall.batch,
        a.digest_input.map checksum = b.digest_input.map checksum → a.digest_input = b.digest_input := by
      decide +kernel
    intro a ha b hb x y hx hy hxy
    have heq := hinputs a ha b hb (by rw [hx, hy]; exact congrArg Except.ok hxy)
    rw [hx, hy] at heq
    exact Except.ok.inj heq

end runku.data_sqlite
