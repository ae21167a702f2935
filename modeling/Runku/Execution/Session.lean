import Runku.Execution.Mutation

namespace runku.execution.mutation

open runku.core runku.data runku.runtime
open Std (ExtTreeMap)

/-- The snapshot of the session answers what is remembered. -/
def MutationSession.Agrees (session : MutationSession) (reads : ExtTreeMap DocumentKey (Option DataDocument)) :
    Prop :=
  ∀ (key : DocumentKey) (observed : Option DataDocument), reads[key]? = some observed → ∃ snapshot record,
    session.begin_read = .ok snapshot ∧ snapshot.get_document key.table_id key.document_id = .ok record ∧
    observed = record.map data_document ∧
    ∀ document ∈ record, valid_record key.table_id key.document_id snapshot.commit_sequence document

section
variable {session : MutationSession} {state : MutationState}

variable {snapshot : ReadSnapshot} {key : DocumentKey} {record : Option DocumentRecord}

theorem Agrees.insert {reads : ExtTreeMap DocumentKey (Option DataDocument)} (h : session.Agrees reads)
    (hsnapshot : session.begin_read = .ok snapshot)
    (hrecord : snapshot.get_document key.table_id key.document_id = .ok record)
    (hvalid : ∀ document ∈ record, valid_record key.table_id key.document_id snapshot.commit_sequence document) :
    session.Agrees (reads.insert key (record.map data_document)) := by
  intro other observed hother
  rw [ordered_map.getElem?_insert] at hother
  split at hother
  · rename_i hkey
    subst hkey
    cases hother
    exact ⟨snapshot, record, hsnapshot, hrecord, rfl, hvalid⟩
  · exact h other observed hother

theorem valid_of_not_any {table_id : TableId} {document_id : DocumentId}
    {sequence : Nat} (h : ¬(record.any fun document => !valid_record table_id document_id sequence document) = true) :
    ∀ document ∈ record, valid_record table_id document_id sequence document := by
  intro document hdocument
  obtain rfl := Option.mem_def.mp hdocument
  simpa using h

/-- A read that leaves no failure found a record that it could remember. -/
structure Remembers (snapshot : ReadSnapshot) (request : DataGetRequest) (state : MutationState)
    (record : Option DocumentRecord) : Prop where
  found : snapshot.get_document request.table_id request.document_id = .ok record
  valid : ∀ document ∈ record,
    valid_record request.table_id request.document_id snapshot.commit_sequence document
  room : ¬((⟨request.table_id, request.document_id⟩ : DocumentKey) ∉ state.reads ∧
    state.reads.size ≥ MAX_DOCUMENT_READS)
  prior : state.reads[(⟨request.table_id, request.document_id⟩ : DocumentKey)]? = none ∨
    state.reads[(⟨request.table_id, request.document_id⟩ : DocumentKey)]? = some (record.map data_document)

variable {request : DataGetRequest}

theorem remembers_of_snapshot_read (h : (snapshot_read snapshot request state).2.failure = none) :
    ∃ record, Remembers snapshot request state record := by
  unfold snapshot_read at h
  split at h
  · cases h
  · rename_i record hrecord
    split at h
    · cases h
    · rename_i hvalid
      dsimp only at h
      split at h
      · cases h
      · rename_i hroom
        split at h
        · cases h
        · rename_i hprior
          refine ⟨record, hrecord, valid_of_not_any hvalid, hroom, ?_⟩
          cases hread : state.reads[(⟨request.table_id, request.document_id⟩ : DocumentKey)]? with
          | none => exact .inl rfl
          | some prior =>
            rw [hread, Option.any_some, decide_eq_true_eq, not_not] at hprior
            exact .inr (congrArg some hprior)

theorem Remembers.snapshot_read_eq
    (h : Remembers snapshot request state record) :
    snapshot_read snapshot request state = (.ok (record.map data_document), { state with
      reads := state.reads.insert ⟨request.table_id, request.document_id⟩ (record.map data_document) }) := by
  have hvalid : ¬(record.any fun document =>
      !valid_record request.table_id request.document_id snapshot.commit_sequence document) = true := by
    cases record with
    | none => simp
    | some document => simpa using h.valid document rfl
  have hsame : ¬((state.reads[(⟨request.table_id, request.document_id⟩ : DocumentKey)]?).any fun prior =>
      prior ≠ record.map data_document) = true := by
    rcases h.prior with hnone | hsome
    · simp [hnone]
    · simp [hsome]
  unfold snapshot_read
  rw [h.found]
  dsimp only
  rw [if_neg hvalid, if_neg h.room, if_neg hsame]

/-- No call clears a failure, and no call without one forgets a read. -/
theorem buffer_state (mutation : DocumentMutation) (state : MutationState) :
    (buffer mutation state).2.reads = state.reads ∧
      ((buffer mutation state).2.failure = none → state.failure = none) := by
  unfold buffer
  repeat' split
  all_goals exact ⟨rfl, by simp [MutationState.latch]⟩

theorem create_state (request : ScheduleRequest) (state : MutationState) :
    (session.create request state).2.reads = state.reads ∧
      ((session.create request state).2.failure = none → state.failure = none) := by
  unfold MutationSession.create
  repeat' split
  all_goals exact ⟨rfl, by simp [MutationState.latch]⟩

/-- A read is answered from the buffer and changes nothing, or it goes to the snapshot. -/
theorem get_cases (request : DataGetRequest) (state : MutationState) :
    (∃ answer, ∀ begin_read, ({ session with begin_read } : MutationSession).get request state = (answer, state)) ∨
      state.failure = none ∧ ∀ begin_read, ({ session with begin_read } : MutationSession).get request state =
        match begin_read with
        | .error error => (.error .Storage, state.latch (.Store error))
        | .ok snapshot => snapshot_read snapshot request state := by
  unfold MutationSession.get
  by_cases hopen : (state.closed || state.failure.isSome) = true
  · exact .inl ⟨_, fun _ => if_pos hopen⟩
  · have hbuffered : ∀ begin_read, ({ session with begin_read } : MutationSession).buffered_read state request =
        session.buffered_read state request := fun _ => rfl
    simp only [hopen, hbuffered, Bool.false_eq_true, if_false]
    have hfailure : state.failure = none := by
      cases hfailure : state.failure <;> simp_all
    cases hread : session.buffered_read state request with
    | error error => exact .inl ⟨_, fun _ => rfl⟩
    | ok read =>
      cases read with
      | Missing | Document document => exact .inl ⟨_, fun _ => rfl⟩
      | NotBuffered => exact .inr ⟨hfailure, fun _ => rfl⟩

/-- A read that went to the snapshot and left no failure. -/
theorem get_remembers {answer : Except DataReadError (Option DataDocument) × MutationState}
    (hget : answer = match session.begin_read with
      | .error error => (.error .Storage, state.latch (.Store error))
      | .ok snapshot => snapshot_read snapshot request state)
    (hfailure : answer.2.failure = none) :
    ∃ snapshot record, session.begin_read = .ok snapshot ∧ Remembers snapshot request state record ∧
      answer = (.ok (record.map data_document), { state with
        reads := state.reads.insert ⟨request.table_id, request.document_id⟩ (record.map data_document) }) := by
  cases hbegin : session.begin_read with
  | error error =>
    rw [hbegin] at hget
    rw [hget] at hfailure
    cases hfailure
  | ok snapshot =>
    rw [hbegin] at hget
    rw [hget] at hfailure
    obtain ⟨record, hremembers⟩ := remembers_of_snapshot_read hfailure
    exact ⟨snapshot, record, rfl, hremembers, hget.trans hremembers.snapshot_read_eq⟩

/-- A call that leaves no failure found none, and keeps what was remembered. -/
theorem serve_back (op : MutationOp) (state : MutationState) (h : (session.serve op state).2.failure = none) :
    state.failure = none ∧ ∀ (key : DocumentKey) (observed : Option DataDocument),
      state.reads[key]? = some observed → (session.serve op state).2.reads[key]? = some observed := by
  have hbuffer : ∀ mutation, (buffer mutation state).2.failure = none → state.failure = none ∧
      ∀ (key : DocumentKey) (observed : Option DataDocument), state.reads[key]? = some observed →
        (buffer mutation state).2.reads[key]? = some observed := by
    intro mutation h
    obtain ⟨hreads, hfailure⟩ := buffer_state mutation state
    exact ⟨hfailure h, fun key observed hread => hreads ▸ hread⟩
  cases op with
  | Get request =>
    rcases get_cases request state with ⟨answer, hanswer⟩ | ⟨hfailure, hget⟩
    · rw [show session.serve (.Get request) state = (answer, state) from hanswer session.begin_read] at h ⊢
      exact ⟨h, fun _ _ hread => hread⟩
    · refine ⟨hfailure, fun key observed hread => ?_⟩
      obtain ⟨snapshot, record, _, hremembers, heq⟩ := get_remembers (hget session.begin_read) h
      rw [show session.serve (.Get request) state = _ from heq, ordered_map.getElem?_insert]
      split
      · rename_i hkey
        subst hkey
        rcases hremembers.prior with hnone | hsome
        · cases hnone.symm.trans hread
        · exact hsome.symm.trans hread
      · exact hread
  | Scan request => exact ⟨h, fun _ _ hread => hread⟩
  | Insert table_id document_id value => exact hbuffer _ h
  | Replace table_id document_id expected_revision value =>
    simp only [MutationSession.serve, replace] at h ⊢
    split at h
    · cases h
    · rename_i hexpected
      rw [if_neg hexpected]
      exact hbuffer _ h
  | Delete table_id document_id expected_revision =>
    simp only [MutationSession.serve, delete] at h ⊢
    split at h
    · cases h
    · rename_i hexpected
      rw [if_neg hexpected]
      exact hbuffer _ h
  | Schedule request =>
    obtain ⟨hreads, hfailure⟩ := @create_state session request state
    exact ⟨hfailure h, fun key observed hread => by
      rw [show (session.serve (.Schedule request) state).2.reads = state.reads from hreads]; exact hread⟩

/-- Only a read that goes to the snapshot depends on it. -/
theorem serve_eq_of_not_get {op : MutationOp} (hop : ∀ request, op ≠ .Get request)
    (begin_read : Except StoreError ReadSnapshot) (state : MutationState) :
    ({ session with begin_read } : MutationSession).serve op state = session.serve op state ∧
      (session.serve op state).2.reads = state.reads := by
  cases op with
  | Get request => exact absurd rfl (hop request)
  | Scan request => exact ⟨rfl, rfl⟩
  | Insert table_id document_id value => exact ⟨rfl, (buffer_state _ state).1⟩
  | Replace table_id document_id expected_revision value =>
    refine ⟨rfl, ?_⟩
    simp only [MutationSession.serve, replace]
    split
    · rfl
    · exact (buffer_state _ state).1
  | Delete table_id document_id expected_revision =>
    refine ⟨rfl, ?_⟩
    simp only [MutationSession.serve, delete]
    split
    · rfl
    · exact (buffer_state _ state).1
  | Schedule request => exact ⟨rfl, (create_state request state).1⟩

theorem serve_agrees (op : MutationOp) (h : session.Agrees state.reads)
    (hfailure : (session.serve op state).2.failure = none) : session.Agrees (session.serve op state).2.reads := by
  by_cases hop : ∃ request, op = .Get request
  · obtain ⟨request, rfl⟩ := hop
    rcases get_cases request state with ⟨answer, hanswer⟩ | ⟨_, hget⟩
    · rw [show session.serve (.Get request) state = (answer, state) from hanswer session.begin_read]
      exact h
    · obtain ⟨snapshot, record, hbegin, hremembers, heq⟩ := get_remembers (hget session.begin_read) hfailure
      rw [show session.serve (.Get request) state = _ from heq]
      exact Agrees.insert h hbegin hremembers.found hremembers.valid
  · rw [(@serve_eq_of_not_get session op (fun request heq => hop ⟨request, heq⟩) session.begin_read state).2]
    exact h

variable {begin_read : Except StoreError ReadSnapshot}

/-- A session on another snapshot that agrees on what this call leaves remembered answers it alike. -/
theorem serve_congr (op : MutationOp)
    (hfailure : (session.serve op state).2.failure = none)
    (hagrees : ({ session with begin_read } : MutationSession).Agrees (session.serve op state).2.reads) :
    ({ session with begin_read } : MutationSession).serve op state = session.serve op state := by
  by_cases hop : ∃ request, op = .Get request
  · obtain ⟨request, rfl⟩ := hop
    rcases @get_cases session request state with ⟨answer, hanswer⟩ | ⟨_, hget⟩
    · exact (hanswer begin_read).trans (hanswer session.begin_read).symm
    · obtain ⟨snapshot, record, hbegin, hremembers, heq⟩ := get_remembers (hget session.begin_read) hfailure
      rw [show session.serve (.Get request) state = _ from heq] at hagrees ⊢
      obtain ⟨snapshot', record', hbegin', hfound, hsame, hvalid⟩ :=
        hagrees ⟨request.table_id, request.document_id⟩ _ Std.ExtTreeMap.getElem?_insert_self
      have hremembers' : Remembers snapshot' request state record' :=
        ⟨hfound, hvalid, hremembers.room, hsame ▸ hremembers.prior⟩
      refine (hget begin_read).trans ?_
      rw [show begin_read = .ok snapshot' from hbegin', hsame]
      exact hremembers'.snapshot_read_eq
  · exact (serve_eq_of_not_get (fun request heq => hop ⟨request, heq⟩) begin_read state).1

/-- What the code read is what the snapshot answers. -/
theorem run_agrees (code : Mutation) (hfailure : (code.run session.serve .new).2.failure = none) :
    session.Agrees (code.run session.serve .new).2.reads := by
  refine Program.run_invariant (I := fun state => state.failure = none → session.Agrees state.reads)
    (fun op state h hafter => serve_agrees op (h (serve_back op state hafter).1) hafter) code ?_ hfailure
  intro _ key observed hread
  simp [MutationState.new] at hread

/-- The code runs alike on every snapshot that agrees with what it read. -/
theorem run_congr {begin_read : Except StoreError ReadSnapshot} (code : Mutation)
    (hfailure : (code.run session.serve .new).2.failure = none)
    (hagrees : ({ session with begin_read } : MutationSession).Agrees (code.run session.serve .new).2.reads) :
    code.run ({ session with begin_read } : MutationSession).serve .new = code.run session.serve .new := by
  let other : MutationSession := { session with begin_read }
  let P (state : MutationState) : Prop := state.failure = none ∧ other.Agrees state.reads
  have hback (op : MutationOp) (state : MutationState) (h : P (session.serve op state).2) : P state := by
    obtain ⟨hfailure, hkeeps⟩ := serve_back op state h.1
    exact ⟨hfailure, fun key observed hread => h.2 key observed (hkeeps key observed hread)⟩
  have hstep (op : MutationOp) (state state' : MutationState) (heq : state' = state)
      (h : P (session.serve op state).2) : (session.serve op state).1 = (other.serve op state').1 ∧
        (other.serve op state').2 = (session.serve op state).2 := by
    rw [heq, serve_congr op h.1 h.2]
    exact ⟨rfl, rfl⟩
  obtain ⟨hvalue, hstate⟩ := Program.run_simulation hback hstep code rfl ⟨hfailure, hagrees⟩
  exact Prod.ext hvalue.symm hstate

/-- A session stays open while the code runs, and files every write under its own document. -/
def MutationState.Filed (state : MutationState) : Prop :=
  state.closed = false ∧ ∀ (key : DocumentKey) (mutation : DocumentMutation),
    state.writes[key]? = some mutation → mutation.key = key

theorem buffer_filed (mutation : DocumentMutation) (h : state.Filed) : (buffer mutation state).2.Filed := by
  unfold buffer
  repeat' split
  · exact h
  · exact h
  · exact h
  · refine ⟨h.1, fun key found hfound => ?_⟩
    rw [ordered_map.getElem?_insert] at hfound
    split at hfound
    · rename_i hkey
      rw [← Option.some.inj hfound, hkey]
    · exact h.2 key found hfound

theorem snapshot_read_filed (snapshot : ReadSnapshot) (request : DataGetRequest) (h : state.Filed) :
    (snapshot_read snapshot request state).2.Filed := by
  unfold snapshot_read
  dsimp only
  repeat' split
  all_goals exact h

/-- Every call keeps the writes filed under their documents. -/
theorem serve_filed (op : MutationOp) (state : MutationState) (h : state.Filed) :
    (session.serve op state).2.Filed := by
  cases op with
  | Get request =>
    rcases @get_cases session request state with ⟨answer, hanswer⟩ | ⟨_, hget⟩
    · rw [show session.serve (.Get request) state = (answer, state) from hanswer session.begin_read]
      exact h
    · rw [show session.serve (.Get request) state = _ from hget session.begin_read]
      split
      · exact h
      · exact snapshot_read_filed _ request h
  | Scan request => exact h
  | Insert table_id document_id value => exact buffer_filed _ h
  | Replace table_id document_id expected_revision value =>
    simp only [MutationSession.serve, replace]
    split
    · exact h
    · exact buffer_filed _ h
  | Delete table_id document_id expected_revision =>
    simp only [MutationSession.serve, delete]
    split
    · exact h
    · exact buffer_filed _ h
  | Schedule request =>
    simp only [MutationSession.serve, MutationSession.create]
    repeat' split
    all_goals exact h

theorem run_filed (code : Mutation) : (code.run session.serve .new).2.Filed :=
  Program.run_invariant serve_filed code ⟨rfl, fun key mutation h => by simp [MutationState.new] at h⟩

variable {reads reads' : ExtTreeMap DocumentKey (Option DataDocument)}

/-- Loading a base remembers the answer of the snapshot. -/
theorem load_base_eq_ok (h : load_base snapshot reads key = .ok reads') :
    ∃ record, snapshot.get_document key.table_id key.document_id = .ok record ∧
      (∀ document ∈ record, valid_record key.table_id key.document_id snapshot.commit_sequence document) ∧
      reads' = reads.insert key (record.map data_document) := by
  unfold load_base at h
  split at h
  · cases h
  · rename_i record hrecord
    split at h
    · cases h
    · rename_i hvalid
      exact ⟨record, hrecord, valid_of_not_any hvalid, (Except.ok.inj h).symm⟩

theorem load_base_of_valid (hrecord : snapshot.get_document key.table_id key.document_id = .ok record)
    (hvalid : ∀ document ∈ record, valid_record key.table_id key.document_id snapshot.commit_sequence document)
    (reads : ExtTreeMap DocumentKey (Option DataDocument)) :
    load_base snapshot reads key = .ok (reads.insert key (record.map data_document)) := by
  have hall : ¬(record.any fun document =>
      !valid_record key.table_id key.document_id snapshot.commit_sequence document) = true := by
    cases record with
    | none => simp
    | some document => simpa using hvalid document rfl
  unfold load_base
  rw [hrecord]
  dsimp only
  rw [if_neg hall]

/-- Loading bases adds them to what is remembered. -/
theorem load_bases_spec (hbegin : session.begin_read = .ok snapshot) {keys : List DocumentKey}
    (hagrees : session.Agrees reads) (h : keys.foldlM (load_base snapshot) reads = .ok reads') :
    session.Agrees reads' ∧ ∀ key, key ∈ reads' ↔ key ∈ reads ∨ key ∈ keys := by
  induction keys generalizing reads with
  | nil =>
    cases h
    exact ⟨hagrees, by simp⟩
  | cons key keys ih =>
    rw [List.foldlM_cons] at h
    obtain ⟨middle, hbase, hrest⟩ := fallible.bind_eq_ok_iff.mp h
    obtain ⟨record, hrecord, hvalid, rfl⟩ := load_base_eq_ok hbase
    obtain ⟨hagrees', hmem⟩ := ih (Agrees.insert hagrees hbegin hrecord hvalid) hrest
    refine ⟨hagrees', fun other => ?_⟩
    rw [hmem, Std.ExtTreeMap.mem_insert, List.mem_cons]
    simp only [Std.LawfulEqCmp.compare_eq_iff_eq]
    tauto

/-- What a session remembers of a document is what its snapshot answers. -/
theorem Agrees.unique (h : session.Agrees reads)
    (h' : session.Agrees reads') {observed observed' : Option DataDocument}
    (hread : reads[key]? = some observed) (hread' : reads'[key]? = some observed') : observed = observed' := by
  obtain ⟨snapshot, record, hbegin, hrecord, rfl, _⟩ := h key observed hread
  obtain ⟨snapshot', record', hbegin', hrecord', rfl, _⟩ := h' key observed' hread'
  cases hbegin.symm.trans hbegin'
  rw [Except.ok.inj (hrecord.symm.trans hrecord')]

/-- Another session that agrees with the loaded bases loads the same. -/
theorem load_bases_congr {snapshot snapshot' : ReadSnapshot}
    (hbegin : session.begin_read = .ok snapshot) (hbegin' : begin_read = .ok snapshot') {keys : List DocumentKey}
    (hagrees : session.Agrees reads)
    (h : keys.foldlM (load_base snapshot) reads = .ok reads')
    (hother : ({ session with begin_read } : MutationSession).Agrees reads') :
    keys.foldlM (load_base snapshot') reads = .ok reads' := by
  induction keys generalizing reads with
  | nil => exact h
  | cons key keys ih =>
    obtain ⟨hagrees', hmem⟩ := load_bases_spec hbegin hagrees h
    obtain ⟨observed, hread⟩ := Option.isSome_iff_exists.mp (Std.ExtTreeMap.mem_iff_isSome_getElem?.mp
      ((hmem key).mpr (.inr List.mem_cons_self)))
    rw [List.foldlM_cons] at h ⊢
    obtain ⟨middle, hbase, hrest⟩ := fallible.bind_eq_ok_iff.mp h
    obtain ⟨record, hrecord, hvalid, rfl⟩ := load_base_eq_ok hbase
    have hmiddle := Agrees.insert hagrees hbegin hrecord hvalid
    have hsame := Agrees.unique hmiddle hagrees' Std.ExtTreeMap.getElem?_insert_self hread
    obtain ⟨snapshot'', record', hbegin'', hrecord', hobserved, hvalid'⟩ := hother key observed hread
    cases hbegin'.symm.trans hbegin''
    rw [load_base_of_valid hrecord' hvalid', ← hobserved, ← hsame]
    exact ih hmiddle hrest

/-- What a finished session buffered, and all documents it read, the bases of its writes included. -/
structure Finished (session : MutationSession) (state : MutationState) (buffered : BufferedMutation)
    (reads : ExtTreeMap DocumentKey (Option DataDocument)) : Prop where
  failure : state.failure = none
  loaded : session.load_write_bases state = .ok reads
  agrees : session.Agrees reads
  bases : ∀ (key : DocumentKey) (mutation : DocumentMutation), state.writes[key]? = some mutation →
    needs_old mutation → key ∈ reads
  keeps : ∀ (key : DocumentKey) (observed : Option DataDocument), state.reads[key]? = some observed →
    reads[key]? = some observed
  buffered : buffered = {
    reads := reads.toList.map read_assertion
    old_values := reads.map fun _ document => document.map DataDocument.value
    writes := state.writes.toList.map Prod.snd
    schedules := state.schedules }

theorem mem_missing_bases : key ∈ missing_bases state ↔
    ∃ mutation, state.writes[key]? = some mutation ∧ needs_old mutation ∧ key ∉ state.reads := by
  simp [missing_bases, Std.ExtTreeMap.mem_toList_iff_getElem?_eq_some]

theorem load_write_bases_cases (hfailure : state.failure = none) (hclosed : state.closed = false) :
    session.load_write_bases state =
      if (missing_bases state).isEmpty then .ok state.reads
      else match session.begin_read with
        | .error error => .error (.Store error)
        | .ok snapshot => (missing_bases state).foldlM (load_base snapshot) state.reads := by
  rw [MutationSession.load_write_bases, hfailure, hclosed]
  rfl

/-- The bases that finishing loads, as a step from what the code read. -/
theorem load_write_bases_spec (hfailure : state.failure = none) (hclosed : state.closed = false)
    (hagrees : session.Agrees state.reads) {reads : ExtTreeMap DocumentKey (Option DataDocument)}
    (h : session.load_write_bases state = .ok reads) :
    session.Agrees reads ∧ ∀ key, key ∈ reads ↔ key ∈ state.reads ∨ key ∈ missing_bases state := by
  rw [load_write_bases_cases hfailure hclosed] at h
  split at h
  · rename_i hempty
    cases h
    rw [List.isEmpty_iff.mp hempty]
    exact ⟨hagrees, by simp⟩
  · split at h
    · cases h
    · rename_i snapshot hbegin
      exact load_bases_spec hbegin hagrees h

/-- What a successful `finish` returns. -/
theorem finish_spec {buffered : BufferedMutation} (h : session.finish state = .ok buffered)
    (hclosed : state.closed = false) (hagrees : session.Agrees state.reads) :
    ∃ reads, Finished session state buffered reads := by
  unfold MutationSession.finish at h
  split at h
  · cases h
  · cases h
  · rename_i reads hfailure hloaded
    obtain ⟨hagrees', hmem⟩ := load_write_bases_spec hfailure hclosed hagrees hloaded
    refine ⟨reads, hfailure, hloaded, hagrees', fun key mutation hwrite hneeds => ?_, fun key observed hread => ?_,
      (Except.ok.inj h).symm⟩
    · by_cases hread : key ∈ state.reads
      · exact (hmem key).mpr (.inl hread)
      · exact (hmem key).mpr (.inr (mem_missing_bases.mpr ⟨mutation, hwrite, hneeds, hread⟩))
    · have hkey : key ∈ state.reads := by
        rw [Std.ExtTreeMap.mem_iff_isSome_getElem?, hread]
        rfl
      obtain ⟨observed', hread'⟩ := Option.isSome_iff_exists.mp
        (Std.ExtTreeMap.mem_iff_isSome_getElem?.mp ((hmem key).mpr (.inl hkey)))
      rw [Agrees.unique hagrees hagrees' hread hread']
      exact hread'

/-- Finishing is the same on every snapshot that agrees with all documents read. -/
theorem Finished.congr {buffered : BufferedMutation}
    {reads : ExtTreeMap DocumentKey (Option DataDocument)} (h : Finished session state buffered reads)
    (hclosed : state.closed = false) (hagrees : session.Agrees state.reads)
    (hother : ({ session with begin_read } : MutationSession).Agrees reads) :
    ({ session with begin_read } : MutationSession).finish state = .ok buffered := by
  have hloaded : ({ session with begin_read } : MutationSession).load_write_bases state = .ok reads := by
    have hbefore := h.loaded
    rw [load_write_bases_cases h.failure hclosed] at hbefore ⊢
    split at hbefore
    · rename_i hempty
      rw [if_pos hempty]
      exact hbefore
    · rename_i hsome
      rw [if_neg hsome]
      split at hbefore
      · cases hbefore
      · rename_i snapshot hbegin
        -- Some base is loaded, so the other snapshot is open as well.
        obtain ⟨key, hkey⟩ := List.exists_mem_of_ne_nil _ fun hnil => hsome (List.isEmpty_iff.mpr hnil)
        obtain ⟨observed, hread⟩ := Option.isSome_iff_exists.mp (Std.ExtTreeMap.mem_iff_isSome_getElem?.mp
          (((load_bases_spec hbegin hagrees hbefore).2 key).mpr (.inr hkey)))
        obtain ⟨snapshot', _, hbegin', _⟩ := hother key observed hread
        change begin_read = .ok snapshot' at hbegin'
        have hbases := load_bases_congr hbegin hbegin' hagrees hbefore hother
        simp only [hbegin']
        exact hbases
  unfold MutationSession.finish
  rw [h.failure, hloaded, h.buffered]

end

end runku.execution.mutation
