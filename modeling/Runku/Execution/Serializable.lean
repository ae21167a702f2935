import Runku.DataSqlite.Journal
import Runku.Execution.Attempt

namespace runku.execution.mutation

open runku.core runku.value runku.data runku.data_sqlite runku.runtime ordered_map
open Std (ExtTreeMap)

/-- A Mutation in flight, with the state of the Environment that its snapshot shows. -/
structure OpenSession where
  request : InvocationRequest
  operation_id : OperationId
  schedule_base : TimestampMicros
  opened : Environment

structure Sessions where
  env : Environment
  sessions : ExtTreeMap Nat OpenSession

inductive SessionAction
  | Open (id : Nat) (request : InvocationRequest) (operation_id : OperationId)
  | Commit (id : Nat) (world : CommitWorld)
  | Close (id : Nat)
  | Admin (world : CommitWorld) (batch : CommitBatch)

section
variable (executor : MutationExecutor)

/-- What the code of a session came to on its snapshot. -/
def OpenSession.attempt (session : OpenSession) :
    Except MutationExecutionError (CanonicalValue × Option CommitBatch) :=
  executor.attempt session.request session.operation_id session.schedule_base (.ok session.opened.begin_read)

/-- The documents that a session read from its snapshot, the bases of its writes included. -/
def OpenSession.observed (session : OpenSession) : ExtTreeMap DocumentKey (Option DataDocument) :=
  let mutation := executor.session session.request session.operation_id session.schedule_base
    (.ok session.opened.begin_read)
  match mutation.load_write_bases (session.request.code.run mutation.serve .new).2 with
  | .ok reads => reads
  | .error _ => ∅

/-- Commits the batch of a session. After a transient failure the session stays and can commit again. -/
def Sessions.commit (id : Nat) (world : CommitWorld) (system : Sessions) : Sessions :=
  match system.sessions[id]? with
  | none => system
  | some session =>
    match session.attempt executor with
    | .ok (_, some batch) =>
      match system.env.commit executor.sha256 world batch with
      | (.ok _, env) => ⟨env, system.sessions.erase id⟩
      | (.error error, env) => ⟨env, if is_transient error then system.sessions else system.sessions.erase id⟩
    | .ok (_, none) | .error _ => system

def Sessions.step (system : Sessions) : SessionAction → Sessions
  | .Open id request operation_id =>
    match executor.prepare request operation_id with
    | .ok schedule_base =>
      ⟨system.env, system.sessions.insert id ⟨request, operation_id, schedule_base, system.env⟩⟩
    | .error _ => system
  | .Commit id world => system.commit executor id world
  | .Close id => ⟨system.env, system.sessions.erase id⟩
  | .Admin world batch => ⟨(system.env.commit executor.sha256 world batch).2, system.sessions⟩

def Sessions.run (system : Sessions) (actions : List SessionAction) : Sessions :=
  actions.foldl (Sessions.step executor) system

def Sessions.new : Sessions := ⟨.empty, ∅⟩

/-- If the session commits now, as a new operation, then the documents are as it read them, and its code
comes to the same on the current state. -/
def Sessions.ValueSound (system : Sessions) (session : OpenSession) : Prop :=
  ∀ value batch world result env', session.attempt executor = .ok (value, some batch) →
    system.env.commit executor.sha256 world batch = (.ok result, env') → result.replayed = false →
      (∀ (key : DocumentKey) (observed : Option DataDocument), (session.observed executor)[key]? = some observed →
        observed = Environment.data_document system.env key) ∧
      executor.attempt session.request session.operation_id session.schedule_base
        (.ok system.env.begin_read) = .ok (value, some batch)

/-- A session has read a document that was there. -/
def OpenSession.Saw (session : OpenSession) (key : DocumentKey) : Prop :=
  ∃ document, (session.observed executor)[key]? = some (some document)

/-- A commit that takes effect brings a document back that another open session has read before it was deleted. -/
def Sessions.Reinserts (system : Sessions) (committer : Option Nat) (world : CommitWorld) (batch : CommitBatch) :
    Prop :=
  (system.env.commit executor.sha256 world batch).2 ≠ system.env ∧
  ∃ table_id document_id value, .Upsert table_id document_id .Absent value ∈ batch.documents ∧
    system.env.documents[(⟨table_id, document_id⟩ : DocumentKey)]? = none ∧
    ∃ id session, system.sessions[id]? = some session ∧ committer ≠ some id ∧
      session.Saw executor ⟨table_id, document_id⟩

/-- No commit of the step brings such a document back. -/
def Sessions.CleanStep (system : Sessions) : SessionAction → Prop
  | .Open .. | .Close _ => True
  | .Commit id world => ∀ session value batch, system.sessions[id]? = some session →
      session.attempt executor = .ok (value, some batch) → ¬system.Reinserts executor (some id) world batch
  | .Admin world batch => ¬system.Reinserts executor none world batch

/-- Every step of a run is clean. -/
def Sessions.CleanRun (system : Sessions) : List SessionAction → Prop
  | [] => True
  | action :: actions => system.CleanStep executor action ∧
      Sessions.CleanRun (system.step executor action) actions

end

/-- A document of the snapshot is unchanged, gone, or at a later revision. -/
def Since (opened env : Environment) (key : DocumentKey) : Prop :=
  ∀ (row : DocumentRow), opened.documents[key]? = some row → env.documents[key]? = none ∨
    env.documents[key]? = some row ∨
    ∃ later, env.documents[key]? = some later ∧ row.revision.val < later.revision.val

/-- A commit that does not insert the document keeps this. -/
theorem Since.applied {opened env env' : Environment} {batch : CommitBatch} {digest : Sha256Digest} {now : Int64}
    {key : DocumentKey} (h : Since opened env key) (happlied : Applied batch digest now env env')
    (hinsert : ∀ table_id document_id value, .Upsert table_id document_id .Absent value ∈ batch.documents →
      (⟨table_id, document_id⟩ : DocumentKey) ≠ key) : Since opened env' key := by
  intro row hrow
  by_cases hwritten : key ∈ batch.documents.map DocumentMutation.key
  · obtain ⟨mutation, hmutation, rfl⟩ := List.mem_map.mp hwritten
    have happlies := happlied.document mutation hmutation
    cases mutation with
    | Upsert table_id document_id expected value =>
      cases expected with
      | Absent => exact absurd rfl (hinsert table_id document_id value hmutation)
      | Exact expected =>
        obtain ⟨before, next, hbefore, _, hnext, hafter⟩ := happlies
        refine .inr (.inr ⟨_, hafter, ?_⟩)
        change row.revision.val < next.val
        rcases h row hrow with hgone | hsame | ⟨later, hlater, hlt⟩
        · cases hgone.symm.trans hbefore
        · cases hsame.symm.trans hbefore
          rw [hnext]
          exact Nat.lt_succ_self _
        · cases hlater.symm.trans hbefore
          rw [hnext]
          exact Nat.lt_succ_of_lt hlt
    | Delete table_id document_id expected_revision =>
      obtain ⟨_, _, _, hafter⟩ := happlies
      exact .inl hafter
  · rw [happlied.other_document key hwritten]
    exact h row hrow

/-- An unchanged revision is an unchanged document. -/
theorem Since.row_eq {opened env : Environment} {key : DocumentKey} (h : Since opened env key)
    (hrevision : ((env.documents[key]?).map fun row => row.revision.to_u64) =
      (opened.documents[key]?).map fun row => row.revision.to_u64) :
    env.documents[key]? = opened.documents[key]? := by
  cases hopened : opened.documents[key]? with
  | none => simpa [hopened] using hrevision
  | some row =>
    rw [hopened] at hrevision
    obtain ⟨current, hcurrent, heq⟩ := Option.map_eq_some_iff.mp hrevision
    have heq := PositiveI64.to_u64_inj heq
    rcases h row hopened with hgone | hsame | ⟨later, hlater, hlt⟩
    · cases hgone.symm.trans hcurrent
    · exact hsame
    · cases hlater.symm.trans hcurrent
      rw [heq] at hlt
      exact absurd hlt (lt_irrefl _)

section
variable {executor : MutationExecutor} {session : OpenSession} {value : CanonicalValue} {batch : CommitBatch}

theorem OpenSession.attempted (h : session.attempt executor = .ok (value, some batch)) : ∃ state buffered,
    Attempted executor session.request session.operation_id session.schedule_base (.ok session.opened.begin_read)
      value (some batch) state buffered (session.observed executor) := by
  obtain ⟨state, buffered, reads, hattempted⟩ := attempt_eq_ok h
  have hobserved : session.observed executor = reads := by
    simp only [OpenSession.observed, hattempted.run, hattempted.finished.loaded]
  exact ⟨state, buffered, hobserved ▸ hattempted⟩

/-- The revisions of what a session read are those of its snapshot, and a commit that is applied finds
them again. -/
theorem OpenSession.revision_eq (h : session.attempt executor = .ok (value, some batch)) {digest : Sha256Digest}
    {now : Int64} {env env' : Environment} (happlied : Applied batch digest now env env') {key : DocumentKey}
    (hkey : key ∈ session.observed executor) : ((env.documents[key]?).map fun row => row.revision.to_u64) =
      (session.opened.documents[key]?).map fun row => row.revision.to_u64 := by
  obtain ⟨state, buffered, hattempted⟩ := OpenSession.attempted h
  obtain ⟨observed, hobserved⟩ := Option.isSome_iff_exists.mp (Std.ExtTreeMap.mem_iff_isSome_getElem?.mp hkey)
  have hassertion : read_assertion (key, observed) ∈ batch.reads := by
    rw [hattempted.batch_reads]
    exact List.mem_map_of_mem (Std.ExtTreeMap.mem_toList_iff_getElem?_eq_some.mpr hobserved)
  have hread := happlied.reads _ hassertion
  rw [((agrees_begin_read_iff rfl).mp hattempted.finished.agrees key observed hobserved).1] at hread
  refine hread.trans ?_
  rw [read_assertion, Environment.data_document, Option.map_map]
  rfl

/-- What is known about every open session of a clean run. -/
def Sessions.Inv (executor : MutationExecutor) (system : Sessions) : Prop :=
  ∀ (id : Nat) (session : OpenSession), system.sessions[id]? = some session →
    session.opened.sequence ≤ system.env.sequence ∧
    ∀ key, session.Saw executor key → Since session.opened system.env key

/-- A commit call keeps the sessions of others, as long as it does not bring back what they saw. -/
theorem Sessions.Inv.commit {system : Sessions} (hinv : system.Inv executor) {committer : Option Nat}
    {world : CommitWorld} (hclean : ¬system.Reinserts executor committer world batch)
    (hown : ∀ (id : Nat) (session : OpenSession), committer = some id → system.sessions[id]? = some session →
      ∃ value, session.attempt executor = .ok (value, some batch)) {sessions : ExtTreeMap Nat OpenSession}
    (hsub : ∀ (id : Nat) (session : OpenSession), sessions[id]? = some session →
      system.sessions[id]? = some session) :
    Sessions.Inv executor ⟨(system.env.commit executor.sha256 world batch).2, sessions⟩ := by
  intro id session hsession
  have hsession := hsub id session hsession
  obtain ⟨hsequence, hsince⟩ := hinv id session hsession
  rcases commit_state executor.sha256 world batch system.env with heq | ⟨digest, now, _, _, happlied⟩
  · rw [heq]
    exact ⟨hsequence, hsince⟩
  · refine ⟨hsequence.trans (happlied.sequence_eq ▸ Nat.le_succ _), fun key hsaw => ?_⟩
    refine (hsince key hsaw).applied happlied fun table_id document_id value hmem heq => ?_
    have habsent := (happlied.document _ hmem).1
    by_cases hcommitter : committer = some id
    · -- Its own batch asserts the document that it saw.
      obtain ⟨value, hattempt⟩ := hown id session hcommitter hsession
      obtain ⟨document, hobserved⟩ := hsaw
      have hkey : key ∈ session.observed executor := by
        rw [Std.ExtTreeMap.mem_iff_isSome_getElem?, hobserved]
        rfl
      have hrevision := OpenSession.revision_eq hattempt happlied hkey
      obtain ⟨state, buffered, hattempted⟩ := OpenSession.attempted hattempt
      have hdocument := ((agrees_begin_read_iff rfl).mp hattempted.finished.agrees key _ hobserved).1
      rw [← heq, show system.env.documents[(⟨table_id, document_id⟩ : DocumentKey)]? = none from habsent,
        Option.map_none, eq_comm, Option.map_eq_none_iff] at hrevision
      rw [← heq, Environment.data_document, hrevision] at hdocument
      cases hdocument
    · refine hclean ⟨fun hsame => ?_, table_id, document_id, value, hmem, habsent, id, session, hsession, hcommitter,
        heq ▸ hsaw⟩
      exact Nat.succ_ne_self _ (happlied.sequence_eq.symm.trans (congrArg Environment.sequence hsame))

/-- Every clean step keeps the invariant of the sessions. -/
theorem Sessions.Inv.step {system : Sessions} (hinv : system.Inv executor) {action : SessionAction}
    (hclean : system.CleanStep executor action) : (system.step executor action).Inv executor := by
  cases action with
  | Open id request operation_id =>
    unfold Sessions.step
    dsimp only
    split
    · intro id' session hsession
      rw [getElem?_insert] at hsession
      split at hsession
      · cases hsession
        exact ⟨le_rfl, fun key _ row hrow => .inr (.inl hrow)⟩
      · exact hinv id' session hsession
    · exact hinv
  | Commit id world =>
    simp only [Sessions.step, Sessions.commit]
    cases hsession : system.sessions[id]? with
    | none => exact hinv
    | some session =>
      dsimp only
      cases hattempt : session.attempt executor with
      | error error => exact hinv
      | ok answer =>
        obtain ⟨value, batch⟩ := answer
        cases batch with
        | none => exact hinv
        | some batch =>
          have hown (id' : Nat) (session' : OpenSession) (hid : some id = some id')
              (hsession' : system.sessions[id']? = some session') :
              ∃ value, session'.attempt executor = .ok (value, some batch) := by
            cases hid
            cases hsession.symm.trans hsession'
            exact ⟨value, hattempt⟩
          have hcommit (sessions : ExtTreeMap Nat OpenSession) := @hinv.commit _ _ _ (some id) _
            (hclean session value batch hsession hattempt) hown sessions
          dsimp only
          cases hresult : system.env.commit executor.sha256 world batch with
          | mk result env =>
            rw [hresult] at hcommit
            cases result with
            | ok result => exact hcommit _ fun _ _ h => getElem?_of_erase h
            | error error =>
              refine hcommit _ fun id' session' h => ?_
              split at h
              · exact h
              · exact getElem?_of_erase h
  | Close id => exact fun id' session hsession => hinv id' session (getElem?_of_erase hsession)
  | Admin world batch => exact hinv.commit hclean nofun fun _ _ h => h

theorem run_inv {system : Sessions} (hinv : system.Inv executor) {actions : List SessionAction}
    (hclean : system.CleanRun executor actions) : (system.run executor actions).Inv executor := by
  induction actions generalizing system with
  | nil => exact hinv
  | cons action actions ih => exact ih (hinv.step hclean.1) hclean.2

end

/-- In every run without such a reinsertion, every open session that commits as a new operation read the
documents as they are at the commit, and is equivalent to having run there. -/
theorem run_valueSound (executor : MutationExecutor) (actions : List SessionAction)
    (hclean : Sessions.new.CleanRun executor actions) (id : Nat) (session : OpenSession)
    (hsession : (Sessions.new.run executor actions).sessions[id]? = some session) :
    (Sessions.new.run executor actions).ValueSound executor session := by
  have hinv : (Sessions.new.run executor actions).Inv executor := by
    refine run_inv (fun id session h => ?_) hclean
    rw [Sessions.new, Std.ExtTreeMap.getElem?_empty] at h
    cases h
  obtain ⟨hsequence, hsince⟩ := hinv id session hsession
  intro value batch world result env' hattempt hcommit hnew
  obtain ⟨state, buffered, hattempted⟩ := OpenSession.attempted hattempt
  obtain ⟨digest, _, ⟨_, _, _, _, _, hreplayed⟩ | ⟨now, _, happlied, _⟩⟩ := commit_eq_ok hcommit
  · rw [hreplayed] at hnew
    cases hnew
  · have hrows : ∀ key ∈ session.observed executor,
        (Sessions.new.run executor actions).env.documents[key]? = session.opened.documents[key]? := by
      intro key hkey
      have hrevision := OpenSession.revision_eq hattempt happlied hkey
      by_cases hsaw : session.Saw executor key
      · exact (hsince key hsaw).row_eq hrevision
      · -- What was missing in the snapshot is missing at the commit.
        obtain ⟨observed, hobserved⟩ := Option.isSome_iff_exists.mp (Std.ExtTreeMap.mem_iff_isSome_getElem?.mp hkey)
        have hdocument := ((agrees_begin_read_iff rfl).mp hattempted.finished.agrees key observed hobserved).1
        cases observed with
        | some document => exact absurd ⟨document, hobserved⟩ hsaw
        | none =>
          rw [Environment.data_document, eq_comm, Option.map_eq_none_iff] at hdocument
          rw [hdocument, Option.map_none, Option.map_eq_none_iff] at hrevision
          rw [hrevision, hdocument]
    have hagrees : (executor.session session.request session.operation_id session.schedule_base
        (.ok (Sessions.new.run executor actions).env.begin_read)).Agrees (session.observed executor) :=
      Agrees.of_rows hattempted.finished.agrees rfl rfl hrows hsequence
    exact ⟨fun key observed hobserved => ((agrees_begin_read_iff rfl).mp hagrees key observed hobserved).1,
      hattempted.congr hagrees⟩

/-- Code that copies one document to another. -/
def copy_code : Mutation :=
  .call (.Get ⟨⟨.from_nat 4⟩, ⟨.from_nat 5⟩⟩) fun answer =>
    let value := match (answer : Except DataReadError (Option DataDocument)) with
      | .ok (some document) => document.value
      | _ => .Null
    .call (.Insert ⟨.from_nat 4⟩ ⟨.from_nat 9⟩ value) fun _ => .done (.ok .Null)

/-- The batch of one write. -/
def write_batch (n : Nat) (mutation : DocumentMutation) : CommitBatch where
  scope := ⟨⟨.from_nat 1⟩, ⟨.from_nat 2⟩⟩
  operation_id := ⟨.from_nat n⟩
  reads := []
  documents := [mutation]
  indexes := []
  outbox := []
  schedules := []
  intent_context := none

/-- A Data Admin write of one document. -/
def admin_write (n : Nat) (mutation : DocumentMutation) : SessionAction :=
  .Admin ⟨.ok 0, [], .Committed⟩ (write_batch n mutation)

def insert_source : SessionAction :=
  admin_write 10 (.Upsert ⟨.from_nat 4⟩ ⟨.from_nat 5⟩ .Absent (.Boolean false))

def copy_session : OpenSession where
  request := mutation_request copy_code
  operation_id := ⟨.from_nat 20⟩
  schedule_base := 0
  opened := (Sessions.new.run ⟨checksum, none⟩ [insert_source]).env

def open_copy : SessionAction := .Open 1 (mutation_request copy_code) ⟨.from_nat 20⟩

/-- Other writes leave the open session alone. -/
theorem copy_session_open (writes : List (Nat × DocumentMutation)) :
    (Sessions.new.run ⟨checksum, none⟩ (insert_source :: open_copy ::
      writes.map fun write => admin_write write.1 write.2)).sessions = (∅ : ExtTreeMap Nat OpenSession).insert 1
        copy_session := by
  induction writes using List.reverseRecOn with
  | nil => rfl
  | append_singleton writes write ih =>
    rw [List.map_append, ← List.cons_append, ← List.cons_append, Sessions.run, List.foldl_append]
    exact ih

/-- The session reads a document, which is then deleted and inserted again with another value. -/
def reinserted : List SessionAction :=
  insert_source :: open_copy ::
    [(11, DocumentMutation.Delete ⟨.from_nat 4⟩ ⟨.from_nat 5⟩ 1),
      (12, .Upsert ⟨.from_nat 4⟩ ⟨.from_nat 5⟩ .Absent (.Boolean true))].map fun write =>
        admin_write write.1 write.2

/-- The session commits, as a new operation. -/
def copy_commits : Bool :=
  match copy_session.attempt ⟨checksum, none⟩ with
  | .ok (_, some batch) =>
    match (Sessions.new.run ⟨checksum, none⟩ reinserted).env.commit checksum ⟨.ok 0, [], .Committed⟩ batch with
    | (.ok result, _) => !result.replayed
    | _ => false
  | _ => false

/-- The commit of the session succeeds as a new operation, with a value that is no longer there. -/
theorem reinserted_not_valueSound :
    ∃ session, (Sessions.new.run ⟨checksum, none⟩ reinserted).sessions[1]? = some session ∧
      ¬(Sessions.new.run ⟨checksum, none⟩ reinserted).ValueSound ⟨checksum, none⟩ session := by
  refine ⟨copy_session, by rw [reinserted, copy_session_open, getElem?_insert, if_pos rfl], ?_⟩
  intro hsound
  have hcommits : copy_commits = true := by decide +kernel
  have hstale : ((copy_session.observed ⟨checksum, none⟩)[(⟨⟨.from_nat 4⟩, ⟨.from_nat 5⟩⟩ : DocumentKey)]?).any
      fun observed => observed ≠ Environment.data_document (Sessions.new.run ⟨checksum, none⟩ reinserted).env
        ⟨⟨.from_nat 4⟩, ⟨.from_nat 5⟩⟩ := by decide +kernel
  unfold copy_commits at hcommits
  split at hcommits
  · rename_i value batch hattempt
    split at hcommits
    · rename_i result env' hcommit
      obtain ⟨observed, hobserved, hne⟩ := (Option.any_eq_true _ _).mp hstale
      refine of_decide_eq_true hne ?_
      exact (hsound value batch _ result env' hattempt hcommit (by simpa using hcommits)).1 _ observed hobserved
    · cases hcommits
  · cases hcommits

/-- The session and a write to another document. -/
def unrelated : List SessionAction :=
  insert_source :: open_copy ::
    [(11, DocumentMutation.Upsert ⟨.from_nat 4⟩ ⟨.from_nat 7⟩ .Absent .Null)].map fun write =>
      admin_write write.1 write.2

theorem run_valueSound_unrelated :
    (Sessions.new.run ⟨checksum, none⟩ unrelated).ValueSound ⟨checksum, none⟩ copy_session := by
  refine run_valueSound ⟨checksum, none⟩ unrelated ⟨?_, trivial, ?_, trivial⟩ 1 copy_session
    (by rw [unrelated, copy_session_open, getElem?_insert, if_pos rfl])
  · rintro ⟨_, _, _, _, _, _, id, session, hsession, _⟩
    rw [Sessions.new, Std.ExtTreeMap.getElem?_empty] at hsession
    cases hsession
  · rintro ⟨_, table_id, document_id, value, hmem, _, id, session, hsession, _, document, hsaw⟩
    obtain ⟨rfl, rfl, _⟩ := DocumentMutation.Upsert.inj (List.mem_singleton.mp hmem)
    have hopen := copy_session_open []
    simp only [List.map_nil, Sessions.run, List.foldl_cons, List.foldl_nil] at hopen
    rw [hopen, getElem?_insert] at hsession
    split at hsession
    · cases hsession
      have hmissing : ((copy_session.observed ⟨checksum, none⟩)[(⟨⟨.from_nat 4⟩, ⟨.from_nat 7⟩⟩ : DocumentKey)]?) =
          none := by decide +kernel
      cases hmissing.symm.trans hsaw
    · rw [Std.ExtTreeMap.getElem?_empty] at hsession
      cases hsession

end runku.execution.mutation
