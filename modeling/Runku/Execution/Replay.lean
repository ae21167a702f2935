import Runku.DataSqlite.ExactlyOnce
import Runku.Execution.Serializable

namespace runku.execution.mutation

open runku.core runku.value runku.data runku.data_sqlite runku.runtime

/-- What every sequence of commits keeps. -/
structure Later (env env' : Environment) : Prop where
  sequence : env.sequence ≤ env'.sequence
  foreignKey : env.ForeignKey → env'.ForeignKey
  journalled : ∀ operation_id row results, env.Journalled operation_id row results →
    env'.Journalled operation_id row results

theorem Later.refl (env : Environment) : Later env env := ⟨le_rfl, id, fun _ _ _ h => h⟩

theorem Later.trans {env env' env'' : Environment} (h : Later env env') (h' : Later env' env'') : Later env env'' :=
  ⟨h.sequence.trans h'.sequence, h'.foreignKey ∘ h.foreignKey,
    fun operation_id row results hj => h'.journalled _ _ _ (h.journalled operation_id row results hj)⟩

section
variable {sha256 : List UInt8 → Sha256Digest}

theorem later_commit (world : CommitWorld) (batch : CommitBatch) (env : Environment) :
    Later env (env.commit sha256 world batch).2 := by
  rcases commit_state sha256 world batch env with heq | ⟨_, _, _, _, happlied⟩
  · rw [heq]
    exact .refl env
  · exact ⟨happlied.sequence_eq ▸ Nat.le_succ _, happlied.foreignKey, fun _ _ _ h => happlied.journalled h⟩

theorem later_commit_others (others : List CommitCall) (env : Environment) :
    Later env (commit_others sha256 others env) := by
  induction others generalizing env with
  | nil => exact .refl env
  | cons call others ih => exact (later_commit call.world call.batch env).trans (ih _)

/-- The calls of a commit, and those among them, only add to the journal. -/
theorem later_commit_exact {batch : CommitBatch} {turns : Nat → CommitTurn} {remaining retry : Nat}
    {env : Environment} : Later env (commit_exact sha256 batch turns remaining retry env).2 := by
  induction remaining generalizing retry env with
  | zero => exact .refl env
  | succ remaining ih =>
    have hcall := (later_commit_others (turns retry).others env).trans
      (@later_commit sha256 (turns retry).world batch (commit_others sha256 (turns retry).others env))
    unfold commit_exact
    split
    · rename_i heq
      rwa [heq] at hcall
    · rename_i heq
      rw [heq] at hcall
      split
      · exact hcall.trans ih
      · exact hcall

/-- A journalled batch: its digest and as many results as it has document mutations. -/
def JournalledBatch (sha256 : List UInt8 → Sha256Digest) (batch : CommitBatch) (sequence : Nat) (env : Environment) :
    Prop :=
  ∃ digest created_at_micros results, batch.digest sha256 = .ok digest ∧
    env.Journalled batch.operation_id ⟨digest, sequence, created_at_micros⟩ results ∧
    results.length = batch.documents.length

/-- After a successful commit call the batch is journalled, whether the call applied it or found it. -/
theorem journalledBatch_of_commit {world : CommitWorld} {batch : CommitBatch} {env env' : Environment}
    {result : CommitResult} (hfk : env.ForeignKey) (h : env.commit sha256 world batch = (.ok result, env')) :
    JournalledBatch sha256 batch result.commit_sequence env' := by
  obtain ⟨digest, hdigest, ⟨rfl, row, hrow, hmatch, hlength, rfl⟩ | ⟨now, _, happlied, rfl⟩⟩ := commit_eq_ok h
  · obtain ⟨_, _, _⟩ := row
    obtain rfl := hmatch
    exact ⟨_, _, _, hdigest, ⟨hrow, rfl⟩, hlength⟩
  · exact ⟨digest, now, _, hdigest, happlied.journalled_self hfk, List.length_map _⟩

/-- A commit that succeeds in the end leaves its batch journalled. -/
theorem journalledBatch_of_commit_exact {batch : CommitBatch} {turns : Nat → CommitTurn} {remaining retry : Nat}
    {env env' : Environment} {result : CommitResult} (hfk : env.ForeignKey)
    (h : commit_exact sha256 batch turns remaining retry env = (.ok result, env')) :
    JournalledBatch sha256 batch result.commit_sequence env' := by
  induction remaining generalizing retry env with
  | zero => cases h
  | succ remaining ih =>
    have hothers := (@later_commit_others sha256 (turns retry).others env).foreignKey hfk
    have hcall := (@later_commit sha256 (turns retry).world batch _).foreignKey hothers
    unfold commit_exact at h
    split at h
    · rename_i heq
      obtain ⟨hresult, rfl⟩ := Prod.mk.inj h
      cases hresult
      exact journalledBatch_of_commit hothers heq
    · rename_i heq
      rw [heq] at hcall
      split at h
      · exact ih hcall h
      · cases h

end

section
variable {executor : MutationExecutor} {request : InvocationRequest} {operation_id : OperationId}
  {schedule_base : TimestampMicros}

theorem batch_operation_id {begin_read : Except StoreError ReadSnapshot} {value : CanonicalValue}
    {batch : CommitBatch} (h : executor.attempt request operation_id schedule_base begin_read = .ok (value, some batch)) :
    batch.operation_id = operation_id := by
  obtain ⟨state, buffered, reads, hattempted⟩ := attempt_eq_ok h
  obtain ⟨indexes, _, hbatch⟩ := buffered_batch_eq_ok hattempted.batch
  rw [(mutation_batch_eq_ok hbatch).2]

/-- Code that succeeds without a snapshot reads nothing, and comes to the same on every snapshot. -/
theorem attempt_of_no_snapshot {error : StoreError} {begin_read : Except StoreError ReadSnapshot}
    {answer : CanonicalValue × Option CommitBatch}
    (h : executor.attempt request operation_id schedule_base (.error error) = .ok answer) :
    executor.attempt request operation_id schedule_base begin_read = .ok answer := by
  obtain ⟨value, batch⟩ := answer
  obtain ⟨state, buffered, reads, hattempted⟩ := attempt_eq_ok h
  refine hattempted.congr fun key observed hread => ?_
  obtain ⟨_, _, hbegin, _⟩ := hattempted.finished.agrees key observed hread
  cases hbegin

variable {worlds : Nat → AttemptWorld}

variable (executor request operation_id) in
/-- Of the remaining attempts the one that committed: its session, on the Environment in which it began, and its
batch. -/
def MutationExecutor.committing (schedule_base : TimestampMicros) (worlds : Nat → AttemptWorld) :
    Nat → Nat → Environment → Option (OpenSession × CommitBatch)
  | 0, _, _ => none
  | remaining + 1, attempt, env =>
    let begin_read := match (worlds attempt).begin_read with
      | some error => .error error
      | none => .ok env.begin_read
    match executor.attempt request operation_id schedule_base begin_read with
    | .ok (_, some batch) =>
      match commit_exact executor.sha256 batch (worlds attempt).commits MAX_ATTEMPTS 0 env with
      | (.ok _, _) => some (⟨request, operation_id, schedule_base, env⟩, batch)
      | (.error .MutationConflict, env) =>
        MutationExecutor.committing schedule_base worlds remaining (attempt + 1) env
      | (.error _, _) => none
    | _ => none

variable (executor request operation_id) in
/-- The session and the batch of the attempt of an execution that committed. -/
def MutationExecutor.committed_attempt (worlds : Nat → AttemptWorld) (env : Environment) :
    Option (OpenSession × CommitBatch) :=
  match executor.prepare request operation_id with
  | .error _ => none
  | .ok schedule_base => executor.committing request operation_id schedule_base worlds MAX_ATTEMPTS 1 env

/-- An execution with a commit sequence has an attempt that committed, and left its batch in the journal. -/
theorem attempts_committing {remaining attempt : Nat} {env env' : Environment}
    {outcome : MutationOutcome} {sequence : Nat} (hfk : env.ForeignKey)
    (h : executor.attempts request operation_id schedule_base worlds remaining attempt env = (.ok outcome, env'))
    (hcommitted : outcome.commit_sequence = some sequence) : ∃ (opened : Environment) (batch : CommitBatch),
      executor.committing request operation_id schedule_base worlds remaining attempt env =
        some (⟨request, operation_id, schedule_base, opened⟩, batch) ∧
      executor.attempt request operation_id schedule_base (.ok opened.begin_read) = .ok (outcome.value, some batch) ∧
      JournalledBatch executor.sha256 batch sequence env' ∧ opened.sequence ≤ env'.sequence := by
  induction remaining generalizing attempt env with
  | zero => cases h
  | succ remaining ih =>
    unfold MutationExecutor.attempts at h
    unfold MutationExecutor.committing
    dsimp only at h ⊢
    split at h
    · cases h
    · obtain ⟨hresult, _⟩ := Prod.mk.inj h
      cases hresult
      cases hcommitted
    · rename_i value batch hattempt
      erw [hattempt]
      dsimp only
      have hlater := @later_commit_exact executor.sha256 batch (worlds attempt).commits MAX_ATTEMPTS 0 env
      split at h
      · rename_i result env'' hcommit
        obtain ⟨hresult, rfl⟩ := Prod.mk.inj h
        cases hresult
        cases hcommitted
        simp only [hcommit] at hlater ⊢
        refine ⟨env, batch, rfl, ?_, journalledBatch_of_commit_exact hfk hcommit, hlater.sequence⟩
        split at hattempt
        · exact attempt_of_no_snapshot hattempt
        · exact hattempt
      · rename_i env'' hcommit
        simp only [hcommit] at hlater ⊢
        exact ih (hlater.foreignKey hfk) h
      · cases h

/-- The first commit call for a journalled operation decides: the batch is the journalled one, or the
operation fails for good. -/
theorem commit_exact_of_journalled {batch : CommitBatch} (hvalid : batch.validate = .ok ())
    {turns : Nat → CommitTurn} (hworld : (turns 0).world.Healthy) {remaining : Nat} {env : Environment}
    {row : CommitOperationRow} {results : List DocumentRevisionResult}
    (hjournalled : env.Journalled batch.operation_id row results) :
    (batch.digest executor.sha256 = .ok row.batch_digest ∧ results.length = batch.documents.length ∧
        (commit_exact executor.sha256 batch turns (remaining + 1) 0 env).1 =
          .ok ⟨row.commit_sequence, results, true⟩) ∨
      ∃ error, (commit_exact executor.sha256 batch turns (remaining + 1) 0 env).1 = .error error ∧
        error ≠ .MutationConflict ∧
        ¬(batch.digest executor.sha256 = .ok row.batch_digest ∧ results.length = batch.documents.length) := by
  have hjournalled' := (@later_commit_others executor.sha256 (turns 0).others env).journalled _ _ _ hjournalled
  cases hdigest : batch.digest executor.sha256 with
  | error error =>
    refine .inr ⟨.LimitExceeded, ?_, by decide, fun h => by cases h.1⟩
    obtain rfl := CommitBatch.digest_failsWith hvalid executor.sha256 error hdigest
    simp [commit_exact, Environment.commit, hdigest, is_transient]
  | ok digest =>
    have hcommit := commit_journalled hworld hdigest hjournalled'.1
    rw [hjournalled'.2] at hcommit
    by_cases hmatch : row.batch_digest = digest
    · by_cases hlength : results.length = batch.documents.length
      · refine .inl ⟨by rw [hmatch], hlength, ?_⟩
        rw [if_neg (not_not.mpr hmatch), if_neg (not_not.mpr hlength)] at hcommit
        simp [commit_exact, hcommit]
      · refine .inr ⟨.Corruption, ?_, by decide, fun h => hlength h.2⟩
        rw [if_neg (not_not.mpr hmatch), if_pos hlength] at hcommit
        simp [commit_exact, hcommit, is_transient]
    · refine .inr ⟨.OperationIdReused, ?_, by decide, fun h => hmatch (Except.ok.inj h.1).symm⟩
      rw [if_pos hmatch] at hcommit
      simp [commit_exact, hcommit, is_transient]

/-- An operation that is journalled is replayed if its code comes to the journalled batch, and has no
commit sequence otherwise. -/
theorem attempts_of_journalled {remaining attempt : Nat} {env : Environment}
    (hbegin : (worlds attempt).begin_read = none) (hworld : ((worlds attempt).commits 0).world.Healthy)
    {row : CommitOperationRow} {results : List DocumentRevisionResult}
    (hjournalled : env.Journalled operation_id row results) (value : CanonicalValue) (sequence : Nat)
    (replayed : Bool) (attempts : Nat) :
    (executor.attempts request operation_id schedule_base worlds (remaining + 1) attempt env).1 =
        .ok ⟨value, some sequence, replayed, attempts⟩ ↔
      (∃ batch, executor.attempt request operation_id schedule_base (.ok env.begin_read) = .ok (value, some batch) ∧
        batch.digest executor.sha256 = .ok row.batch_digest ∧ results.length = batch.documents.length) ∧
      sequence = row.commit_sequence ∧ replayed = true ∧ attempts = attempt := by
  unfold MutationExecutor.attempts
  simp only [hbegin]
  cases hattempt : executor.attempt request operation_id schedule_base (.ok env.begin_read) with
  | error error => simp
  | ok answer =>
    obtain ⟨value', batch⟩ := answer
    cases batch with
    | none => simp
    | some batch =>
      have hvalid : batch.validate = .ok () := by
        obtain ⟨state, buffered, reads, hattempted⟩ := attempt_eq_ok hattempt
        obtain ⟨indexes, _, hbatch⟩ := buffered_batch_eq_ok hattempted.batch
        exact (mutation_batch_eq_ok hbatch).1
      have hoperation := batch_operation_id hattempt
      have hcases := @commit_exact_of_journalled executor batch hvalid (worlds attempt).commits hworld 2 env row results
        (hoperation.symm ▸ hjournalled)
      dsimp only
      cases hexact : commit_exact executor.sha256 batch (worlds attempt).commits MAX_ATTEMPTS 0 env with
      | mk result env' =>
        rw [show 2 + 1 = MAX_ATTEMPTS from rfl, hexact] at hcases
        rcases hcases with ⟨hdigest, hlength, rfl⟩ | ⟨error, rfl, hconflict, hother⟩
        · simp only [outcome, Except.ok.injEq, MutationOutcome.mk.injEq, Option.some.injEq, Prod.mk.injEq]
          constructor
          · rintro ⟨rfl, rfl, rfl, rfl⟩
            exact ⟨⟨batch, ⟨rfl, rfl⟩, hdigest, hlength⟩, rfl, rfl, rfl⟩
          · rintro ⟨⟨_, ⟨rfl, rfl⟩, _⟩, rfl, rfl, rfl⟩
            exact ⟨rfl, rfl, rfl, rfl⟩
        · refine iff_of_false ?_ ?_
          · split
            · rename_i heq
              cases heq
            · rename_i heq
              exact absurd (Except.error.inj (Prod.mk.inj heq).1) hconflict
            · nofun
          · rintro ⟨⟨batch', heq, hmatch⟩, _⟩
            obtain ⟨_, hbatch⟩ := Prod.mk.inj (Except.ok.inj heq)
            cases hbatch
            exact hother hmatch

theorem execute_eq {env : Environment} (hprepare : executor.prepare request operation_id = .ok schedule_base) :
    executor.execute request operation_id worlds env =
      executor.attempts request operation_id schedule_base worlds MAX_ATTEMPTS 1 env := by
  rw [MutationExecutor.execute, hprepare]

theorem execute_eq_ok {env env' : Environment} {outcome : MutationOutcome}
    (h : executor.execute request operation_id worlds env = (.ok outcome, env')) :
    ∃ schedule_base, executor.prepare request operation_id = .ok schedule_base := by
  cases hprepare : executor.prepare request operation_id with
  | ok schedule_base => exact ⟨schedule_base, rfl⟩
  | error error =>
    rw [MutationExecutor.execute, hprepare] at h
    cases h

/-- Two sessions of one operation that came to batches with one digest read the same revisions. -/
theorem OpenSession.reads_eq {session session' : OpenSession} {value value' : CanonicalValue}
    {batch batch' : CommitBatch} (h : session.attempt executor = .ok (value, some batch))
    (h' : session'.attempt executor = .ok (value', some batch')) (hreads : batch.reads = batch'.reads)
    {key : DocumentKey} (hkey : key ∈ session.observed executor) :
    ((session'.opened.documents[key]?).map fun row => row.revision.to_u64) =
      (session.opened.documents[key]?).map fun row => row.revision.to_u64 := by
  obtain ⟨state, buffered, hattempted⟩ := OpenSession.attempted h
  obtain ⟨state', buffered', hattempted'⟩ := OpenSession.attempted h'
  obtain ⟨observed, hobserved⟩ := Option.isSome_iff_exists.mp (Std.ExtTreeMap.mem_iff_isSome_getElem?.mp hkey)
  have hassertion : read_assertion (key, observed) ∈ batch'.reads := by
    rw [← hreads, hattempted.batch_reads]
    exact List.mem_map_of_mem (Std.ExtTreeMap.mem_toList_iff_getElem?_eq_some.mpr hobserved)
  rw [hattempted'.batch_reads] at hassertion
  obtain ⟨⟨key', observed'⟩, hobserved', heq⟩ := List.mem_map.mp hassertion
  rw [Std.ExtTreeMap.mem_toList_iff_getElem?_eq_some] at hobserved'
  obtain ⟨htable, hdocument, hrevision⟩ := DocumentReadAssertion.mk.inj heq
  obtain rfl : key' = key := by
    cases key
    cases key'
    exact congrArg₂ DocumentKey.mk htable hdocument
  rw [((agrees_begin_read_iff rfl).mp hattempted.finished.agrees _ _ hobserved).1,
    ((agrees_begin_read_iff rfl).mp hattempted'.finished.agrees _ _ hobserved').1] at hrevision
  simp only [Environment.data_document, Option.map_map] at hrevision
  exact hrevision

end

/-- The document is absent from both states, or has one revision in both. -/
def SameRevision (opened env : Environment) (key : DocumentKey) : Prop :=
  ((env.documents[key]?).map fun row => row.revision.to_u64) =
    (opened.documents[key]?).map fun row => row.revision.to_u64

/-- Take an operation that committed, and the attempt that did. Executed again, after and among any other commits, the
operation is replayed with its commit sequence only if every document that the attempt read has the revision that it
read. As long as one revision means one document, it is replayed exactly if all these documents are unchanged. -/
theorem replay_iff_unchanged {executor : MutationExecutor} {request : InvocationRequest} {operation_id : OperationId}
    {worlds : Nat → AttemptWorld} {env env₁ : Environment} {outcome : MutationOutcome} {sequence : Nat}
    (hfk : env.ForeignKey) (hfirst : executor.execute request operation_id worlds env = (.ok outcome, env₁))
    (hcommitted : outcome.commit_sequence = some sequence) : ∃ (session : OpenSession) (batch : CommitBatch),
      executor.committed_attempt request operation_id worlds env = some (session, batch) ∧
      session.attempt executor = .ok (outcome.value, some batch) ∧
      JournalledBatch executor.sha256 batch sequence env₁ ∧
      ∀ (others : List CommitCall) (worlds : Nat → AttemptWorld), (worlds 1).begin_read = none →
        ((worlds 1).commits 0).world.Healthy →
        let env₂ := commit_others executor.sha256 others env₁
        (∀ value batch', OpenSession.attempt executor { session with opened := env₂ } = .ok (value, some batch') →
          CollisionFree executor.sha256 [batch, batch']) →
        (∀ value, (executor.execute request operation_id worlds env₂).1 = .ok ⟨value, some sequence, true, 1⟩ →
          ∀ key ∈ session.observed executor, SameRevision session.opened env₂ key) ∧
        ((∀ key ∈ session.observed executor, SameRevision session.opened env₂ key →
            env₂.documents[key]? = session.opened.documents[key]?) →
          ((executor.execute request operation_id worlds env₂).1 = .ok ⟨outcome.value, some sequence, true, 1⟩ ↔
            ∀ key ∈ session.observed executor, env₂.documents[key]? = session.opened.documents[key]?)) := by
  obtain ⟨schedule_base, hprepare⟩ := execute_eq_ok hfirst
  rw [execute_eq hprepare] at hfirst
  obtain ⟨opened, batch, hcommitting, hattempt, hjournalled, hsequence⟩ := attempts_committing hfk hfirst hcommitted
  let session : OpenSession := ⟨request, operation_id, schedule_base, opened⟩
  have hsession : session.attempt executor = .ok (outcome.value, some batch) := hattempt
  refine ⟨session, batch, ?_, hsession, hjournalled, ?_⟩
  · rw [MutationExecutor.committed_attempt, hprepare]
    exact hcommitting
  intro others worlds hbegin hworld env₂ hcollision
  have hlater : Later env₁ env₂ := later_commit_others others env₁
  obtain ⟨digest, created_at_micros, results, hdigest, hjournalled, hlength⟩ := hjournalled
  have hjournalled₂ := hlater.journalled _ _ _ hjournalled
  rw [batch_operation_id hattempt] at hjournalled₂
  have hagain := @attempts_of_journalled executor request operation_id schedule_base worlds 2 1 env₂ hbegin hworld _ _
    hjournalled₂
  rw [execute_eq hprepare, show MAX_ATTEMPTS = 2 + 1 from rfl]
  have hreads (value : CanonicalValue)
      (h : (executor.attempts request operation_id schedule_base worlds (2 + 1) 1 env₂).1 =
        .ok ⟨value, some sequence, true, 1⟩) :
      ∀ key ∈ session.observed executor, SameRevision session.opened env₂ key := by
    obtain ⟨⟨batch', hattempt', hdigest', _⟩, _⟩ := (hagain value sequence true 1).mp h
    obtain ⟨_, x, hx, rfl⟩ := digest_eq_ok hdigest
    obtain ⟨_, y, hy, hxy⟩ := digest_eq_ok hdigest'
    obtain rfl := hcollision _ batch' hattempt' batch (by simp) batch' (by simp) x y hx hy hxy
    have hintent := CommitBatch.sameIntent_of_digest_input hx hy
    have hsession' : OpenSession.attempt executor { session with opened := env₂ } = .ok (value, some batch') := hattempt'
    exact fun key hkey => OpenSession.reads_eq hsession hsession' hintent.reads hkey
  refine ⟨hreads, fun hrows => ⟨fun h key hkey => hrows key hkey (hreads _ h key hkey), fun hunchanged => ?_⟩⟩
  obtain ⟨state, buffered, hattempted⟩ := OpenSession.attempted hsession
  have hagrees : (executor.session request operation_id schedule_base (.ok env₂.begin_read)).Agrees
      (session.observed executor) :=
    Agrees.of_rows hattempted.finished.agrees rfl rfl hunchanged (hsequence.trans hlater.sequence)
  exact (hagain _ sequence true 1).mpr ⟨⟨batch, hattempted.congr hagrees, hdigest, hlength⟩, rfl, rfl, rfl⟩

/-- An execution that no other commit and no failure gets in the way of. -/
def quiet_worlds : Nat → AttemptWorld := fun _ => ⟨none, fun _ => ⟨[], ⟨.ok 0, [], .Committed⟩⟩⟩

/-- The operation that reads document 5 and copies it to document 9, executed on the given Environment. -/
def execute_copy (env : Environment) : Except MutationExecutionError MutationOutcome × Environment :=
  MutationExecutor.execute ⟨checksum, none⟩ (mutation_request copy_code) ⟨.from_nat 20⟩ quiet_worlds env

/-- Another document is written. -/
def write_another (env : Environment) : Environment :=
  commit_others checksum [⟨⟨.ok 0, [], .Committed⟩, write_batch 11 (.Upsert ⟨.from_nat 4⟩ ⟨.from_nat 7⟩ .Absent .Null)⟩] env

/-- What an attempt read is as it was, and its code comes to the same bytes again. -/
def finds_again (executor : MutationExecutor) (env : Environment) (attempt : OpenSession × CommitBatch) : Bool :=
  (attempt.1.observed executor).toList.all (fun entry =>
      env.documents[entry.1]? = attempt.1.opened.documents[entry.1]?) &&
    match OpenSession.attempt executor { attempt.1 with opened := env } with
    | .ok (_, some batch) => batch.digest_input = attempt.2.digest_input
    | _ => true

/-- The copy reads a document and is replayed, with the sequence of its commit, after a write to another document. -/
theorem copy_replayed :
    (MutationExecutor.committed_attempt ⟨checksum, none⟩ (mutation_request copy_code) ⟨.from_nat 20⟩ quiet_worlds
        copy_session.opened).map (fun attempt => (attempt.1.observed ⟨checksum, none⟩).keys) =
          some [⟨⟨.from_nat 4⟩, ⟨.from_nat 5⟩⟩] ∧
      (execute_copy copy_session.opened).1 = .ok ⟨.Null, some 2, false, 1⟩ ∧
      (execute_copy (write_another (execute_copy copy_session.opened).2)).1 = .ok ⟨.Null, some 2, true, 1⟩ := by
  have hfirst : (execute_copy copy_session.opened).1 = .ok ⟨.Null, some 2, false, 1⟩ := by decide +kernel
  have hcopy : (MutationExecutor.committed_attempt ⟨checksum, none⟩ (mutation_request copy_code) ⟨.from_nat 20⟩
      quiet_worlds copy_session.opened).any
        (finds_again ⟨checksum, none⟩ (write_another (execute_copy copy_session.opened).2)) = true := by
    decide +kernel
  have hfk : copy_session.opened.ForeignKey :=
    (later_commit _ _ .empty).foreignKey fun key hkey => absurd hkey Std.ExtTreeMap.not_mem_empty
  refine ⟨by decide +kernel, hfirst, ?_⟩
  generalize copy_session.opened = opened at hfirst hcopy hfk ⊢
  generalize hpair : execute_copy opened = first at hfirst hcopy ⊢
  obtain ⟨result, env₁⟩ := first
  obtain rfl := hfirst
  rw [execute_copy] at hpair
  obtain ⟨session, batch, hattempt, _, _, hreplay⟩ := replay_iff_unchanged hfk hpair rfl
  rw [hattempt] at hcopy
  obtain ⟨hrows, hbytes⟩ := Bool.and_eq_true_iff.mp hcopy
  have hunchanged : ∀ key ∈ session.observed ⟨checksum, none⟩,
      (write_another env₁).documents[key]? = session.opened.documents[key]? := by
    intro key hkey
    obtain ⟨observed, hobserved⟩ := ordered_map.mem_iff_getElem?.mp hkey
    exact of_decide_eq_true
      (List.all_eq_true.mp hrows (key, observed) (Std.ExtTreeMap.mem_toList_iff_getElem?_eq_some.mpr hobserved))
  refine ((hreplay _ quiet_worlds rfl ⟨rfl, rfl⟩ ?_).2 fun key hkey _ => hunchanged key hkey).mpr hunchanged
  intro value batch' hagain a ha b hb x y hx hy _
  have hsame : ∀ c ∈ [batch, batch'], c.digest_input = batch.digest_input := by
    rw [write_another, hagain] at hbytes
    simpa using hbytes
  exact Except.ok.inj (hx.symm.trans ((hsame a ha).trans (hsame b hb).symm |>.trans hy))

/-- Code that reads a document and replaces it. -/
def update_code : Mutation :=
  .call (.Get ⟨⟨.from_nat 4⟩, ⟨.from_nat 5⟩⟩) fun answer =>
    match (answer : Except DataReadError (Option DataDocument)) with
    | .ok (some document) =>
      .call (.Replace ⟨.from_nat 4⟩ ⟨.from_nat 5⟩ document.revision (.Boolean true)) fun _ => .done (.ok .Null)
    | _ => .done (.ok .Null)

/-- The Environment in which the update committed. -/
def updated : Except MutationExecutionError MutationOutcome × Environment :=
  MutationExecutor.execute ⟨checksum, none⟩ (mutation_request update_code) ⟨.from_nat 20⟩ quiet_worlds
    (Sessions.new.run ⟨checksum, none⟩ [insert_source]).env

/-- The update commits, and the same operation executed again right after it is refused. -/
theorem update_not_replayed : updated.1 = .ok ⟨.Null, some 2, false, 1⟩ ∧
      (MutationExecutor.execute ⟨checksum, none⟩ (mutation_request update_code) ⟨.from_nat 20⟩ quiet_worlds
        updated.2).1 = .error (.Storage .OperationIdReused) := by
  decide +kernel

end runku.execution.mutation
