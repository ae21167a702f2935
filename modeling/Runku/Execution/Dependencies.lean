import Runku.Execution.Query

namespace runku.execution

open runku.core runku.data runku.runtime

/-- The snapshot a dependency was read at. -/
def ReadDependency.sequence : ReadDependency → Nat
  | .Point _ _ _ sequence | .Range _ _ _ sequence => sequence

/-- The dependency as another snapshot would record it. -/
def ReadDependency.retag (sequence : Nat) : ReadDependency → ReadDependency
  | .Point table_id document_id observed_revision _ => .Point table_id document_id observed_revision sequence
  | .Range index_id lower upper _ => .Range index_id lower upper sequence

/-- The bound of the range that a dependency was recorded for. -/
def DependencyBound.key_bound : DependencyBound → KeyBound
  | .Unbounded => .Unbounded
  | .Inclusive value => .Inclusive value
  | .Exclusive value => .Exclusive value

/-- Two snapshots answer the read of a dependency alike, a scan with any limit. -/
def ReadDependency.Same (snapshot snapshot' : ReadSnapshot) : ReadDependency → Prop
  | .Point table_id document_id _ _ => snapshot'.get_document table_id document_id =
      snapshot.get_document table_id document_id
  | .Range index_id lower upper _ => ∀ limit, snapshot'.scan_index index_id ⟨lower.key_bound, upper.key_bound⟩ limit =
      snapshot.scan_index index_id ⟨lower.key_bound, upper.key_bound⟩ limit

theorem ReadDependency.same_refl {snapshot : ReadSnapshot} (dependency : ReadDependency) :
    dependency.Same snapshot snapshot := by
  cases dependency with
  | Point => rfl
  | Range => exact fun _ => rfl

theorem ReadDependency.retag_inj {sequence sequence' : Nat} {a b : ReadDependency} (ha : a.sequence = sequence)
    (hb : b.sequence = sequence) (h : a.retag sequence' = b.retag sequence') : a = b := by
  subst ha
  cases a <;> cases b <;> simp_all [ReadDependency.retag, ReadDependency.sequence]

theorem convert_bound_eq_ok {bound : Option DataKeyBound} {key_bound : KeyBound} {dependency : DependencyBound}
    (h : convert_bound bound = .ok (key_bound, dependency)) : dependency.key_bound = key_bound := by
  unfold convert_bound at h
  split at h
  · cases h
    rfl
  · split at h
    · cases h
    · split at h <;>
      · cases h
        rfl

/-- A record or an entry that was valid stays valid on a later snapshot. -/
theorem valid_record_mono {table_id : TableId} {document_id : DocumentId} {sequence sequence' : Nat}
    (hle : sequence ≤ sequence') {record : DocumentRecord} (h : valid_record table_id document_id sequence record) :
    valid_record table_id document_id sequence' record := by
  simp only [valid_record, Bool.and_eq_true, decide_eq_true_eq] at h ⊢
  exact ⟨⟨h.1.1, h.1.2.trans hle⟩, h.2⟩

theorem valid_entries_after_mono {index_id : IndexId} {range : IndexRange} {sequence sequence' : Nat}
    (hle : sequence ≤ sequence') {previous : Option (List UInt8 × DocumentId)} {entries : List IndexEntry}
    (h : valid_entries_after index_id range sequence previous entries) :
    valid_entries_after index_id range sequence' previous entries := by
  induction entries generalizing previous with
  | nil => rfl
  | cons entry entries ih =>
    simp only [valid_entries_after, Bool.and_eq_true, decide_eq_true_eq] at h ⊢
    exact ⟨⟨⟨⟨h.1.1.1.1, h.1.1.1.2.trans hle⟩, h.1.1.2⟩, h.1.2⟩, ih h.2⟩

theorem valid_entries_mono {index_id : IndexId} {range : IndexRange} {limit sequence sequence' : Nat}
    (hle : sequence ≤ sequence') {entries : List IndexEntry}
    (h : valid_entries entries index_id range limit sequence) :
    valid_entries entries index_id range limit sequence' := by
  simp only [valid_entries, Bool.and_eq_true] at h ⊢
  exact ⟨h.1, valid_entries_after_mono hle h.2⟩

/-- The state of a session whose reads all go to one snapshot. -/
structure SessionState.Tagged (sequence : Nat) (state : SessionState) : Prop where
  snapshot_sequence : ∀ tagged ∈ state.snapshot_sequence, tagged = sequence
  dependencies : ∀ dependency ∈ state.dependencies, dependency.sequence = sequence

/-- The state of the same session on another snapshot. -/
def SessionState.retag (sequence : Nat) (state : SessionState) : SessionState :=
  { state with
    snapshot_sequence := state.snapshot_sequence.map fun _ => sequence
    dependencies := state.dependencies.map (ReadDependency.retag sequence) }

section
variable {snapshot snapshot' : ReadSnapshot} {state state' : SessionState}

theorem ensure_snapshot_tagged (h : state.Tagged snapshot.commit_sequence) :
    (ensure_snapshot snapshot state).Tagged snapshot.commit_sequence ∧
      (ensure_snapshot snapshot state).snapshot_sequence = some snapshot.commit_sequence := by
  have hsome : (ensure_snapshot snapshot state).snapshot_sequence = some snapshot.commit_sequence := by
    cases hsequence : state.snapshot_sequence with
    | none => simp [ensure_snapshot, hsequence]
    | some tagged => simp [ensure_snapshot, hsequence, h.snapshot_sequence tagged hsequence]
  refine ⟨⟨fun tagged htagged => ?_, h.dependencies⟩, hsome⟩
  exact (Option.some.inj (hsome.symm.trans htagged)).symm

theorem ensure_snapshot_retag (snapshot snapshot' : ReadSnapshot) (state : SessionState) :
    ensure_snapshot snapshot' (state.retag snapshot'.commit_sequence) =
      (ensure_snapshot snapshot state).retag snapshot'.commit_sequence := by
  cases hsequence : state.snapshot_sequence <;> simp [ensure_snapshot, SessionState.retag, hsequence]

theorem record_dependency_subset {dependency : ReadDependency} (h : record_dependency dependency state = .ok state') :
    state'.failure = state.failure ∧ state.dependencies ⊆ state'.dependencies := by
  unfold record_dependency at h
  split at h
  · cases h
    exact ⟨rfl, List.Subset.refl _⟩
  · split at h
    · cases h
    · cases h
      exact ⟨rfl, List.subset_append_left _ _⟩

/-- A recorded dependency is recorded alike on the other snapshot. -/
theorem record_dependency_retag {dependency : ReadDependency} {sequence : Nat} (htagged : state.Tagged sequence)
    (hdependency : dependency.sequence = sequence) (h : record_dependency dependency state = .ok state') :
    dependency ∈ state'.dependencies ∧ state'.Tagged sequence ∧
      ∀ sequence', record_dependency (dependency.retag sequence') (state.retag sequence') =
        .ok (state'.retag sequence') := by
  have hmem (sequence' : Nat) : dependency.retag sequence' ∈ (state.retag sequence').dependencies ↔
      dependency ∈ state.dependencies := by
    refine ⟨fun hmem => ?_, fun hmem => List.mem_map_of_mem hmem⟩
    obtain ⟨other, hother, heq⟩ := List.mem_map.mp hmem
    rwa [← ReadDependency.retag_inj (htagged.dependencies other hother) hdependency heq]
  unfold record_dependency at h
  split at h
  · rename_i hpresent
    cases h
    refine ⟨hpresent, htagged, fun sequence' => ?_⟩
    rw [record_dependency, if_pos ((hmem sequence').mpr hpresent)]
  · rename_i habsent
    split at h
    · cases h
    · rename_i hroom
      cases h
      refine ⟨List.mem_append_right _ (List.mem_singleton_self _), ⟨htagged.snapshot_sequence, ?_⟩,
        fun sequence' => ?_⟩
      · intro other hother
        rcases List.mem_append.mp hother with hother | hother
        · exact htagged.dependencies other hother
        · rw [List.mem_singleton.mp hother, hdependency]
      · rw [record_dependency, if_neg ((hmem sequence').not.mpr habsent), if_neg]
        · simp [SessionState.retag]
        · simpa [SessionState.retag] using hroom

/-- The sequence a session reads at once it opened its snapshot. -/
theorem ensure_snapshot_getD (h : state.Tagged snapshot.commit_sequence) :
    (ensure_snapshot snapshot state).snapshot_sequence.getD snapshot.commit_sequence = snapshot.commit_sequence := by
  rw [(ensure_snapshot_tagged h).2, Option.getD_some]

/-- A point read that succeeded. -/
structure PointRead (snapshot : ReadSnapshot) (request : DataGetRequest) (state : SessionState)
    (document : Option DocumentRecord) (state' : SessionState) : Prop where
  open' : state.failure = none
  found : snapshot.get_document request.table_id request.document_id = .ok document
  valid : ∀ record ∈ document,
    valid_record request.table_id request.document_id snapshot.commit_sequence record
  recorded : record_dependency (.Point request.table_id request.document_id (document.map DocumentRecord.revision)
    snapshot.commit_sequence) (ensure_snapshot snapshot state) = .ok state'

/-- A read records a dependency that explains it. -/
theorem pointRead_of_get_inner {request : DataGetRequest} (htagged : state.Tagged snapshot.commit_sequence)
    (h : (get_inner snapshot request state).2.failure = none) : ∃ document,
      PointRead snapshot request state document (get_inner snapshot request state).2 := by
  unfold get_inner at h ⊢
  dsimp only at h ⊢
  rw [ensure_snapshot_getD htagged] at h ⊢
  by_cases hfailure : state.failure.isSome
  · rw [if_pos hfailure] at h
    rw [show state.failure = none from h] at hfailure
    cases hfailure
  · rw [if_neg hfailure] at h ⊢
    split at h
    · cases h
    · rename_i document hfound
      split at h
      · cases h
      · rename_i hvalid
        split at h
        · cases h
        · rename_i state' hrecorded
          rw [if_neg hvalid]
          refine ⟨document, by simpa using hfailure, hfound, fun record hrecord => ?_, hrecorded⟩
          rw [Option.mem_def] at hrecord
          simpa [hrecord] using hvalid

theorem PointRead.get_inner_eq {request : DataGetRequest} {document : Option DocumentRecord}
    (htagged : state.Tagged snapshot.commit_sequence) (h : PointRead snapshot request state document state') :
    get_inner snapshot request state = (.ok (document.map data_document), state') := by
  unfold get_inner
  dsimp only
  rw [ensure_snapshot_getD htagged, if_neg (by simp [h.open'])]
  have hvalid : ¬(document.any fun record =>
      !valid_record request.table_id request.document_id snapshot.commit_sequence record) = true := by
    intro hany
    obtain ⟨record, hrecord, hinvalid⟩ := (Option.any_eq_true _ _).mp hany
    rw [h.valid record hrecord] at hinvalid
    cases hinvalid
  simp only [h.found, if_neg hvalid, h.recorded]

/-- A scan that reached the snapshot and succeeded. -/
structure RangeRead (snapshot : ReadSnapshot) (request : DataScanRequest) (lower upper : DependencyBound)
    (state : SessionState) (entries : List IndexEntry) (state' : SessionState) : Prop where
  converted_lower : convert_bound request.lower = .ok (lower.key_bound, lower)
  converted_upper : convert_bound request.upper = .ok (upper.key_bound, upper)
  range : (⟨lower.key_bound, upper.key_bound⟩ : IndexRange).validate request.limit = .ok ()
  open' : state.failure = none
  found : snapshot.scan_index request.index_id ⟨lower.key_bound, upper.key_bound⟩ request.limit = .ok entries
  valid : valid_entries entries request.index_id ⟨lower.key_bound, upper.key_bound⟩ request.limit
    snapshot.commit_sequence
  room : state.scan_rows + entries.length ≤ MAX_SCAN_ROWS
  recorded : record_dependency (.Range request.index_id lower upper snapshot.commit_sequence)
    { ensure_snapshot snapshot state with scan_rows := state.scan_rows + entries.length } = .ok state'

/-- A scan that latches no failure was rejected whatever the snapshot, or succeeded. -/
theorem rangeRead_of_scan_inner {request : DataScanRequest} (htagged : state.Tagged snapshot.commit_sequence)
    (h : (scan_inner snapshot request state).2.failure = none) :
    (∃ error, ∀ snapshot state, scan_inner snapshot request state = (.error error, state)) ∨ ∃ lower upper entries,
        RangeRead snapshot request lower upper state entries (scan_inner snapshot request state).2 := by
  cases hlower : convert_bound request.lower with
  | error error => exact .inl ⟨error, fun _ _ => by simp only [scan_inner, hlower]⟩
  | ok lower =>
    cases hupper : convert_bound request.upper with
    | error error => exact .inl ⟨error, fun _ _ => by simp only [scan_inner, hlower, hupper]⟩
    | ok upper =>
      obtain ⟨lower, lower_dependency⟩ := lower
      obtain ⟨upper, upper_dependency⟩ := upper
      obtain rfl := convert_bound_eq_ok hlower
      obtain rfl := convert_bound_eq_ok hupper
      cases hrange : (⟨lower_dependency.key_bound, upper_dependency.key_bound⟩ : IndexRange).validate
          request.limit with
      | error error => exact .inl ⟨.InvalidRequest, fun _ _ => by simp only [scan_inner, hlower, hupper, hrange]⟩
      | ok _ =>
        refine .inr ⟨lower_dependency, upper_dependency, ?_⟩
        simp only [scan_inner, hlower, hupper, hrange, ensure_snapshot_getD htagged] at h ⊢
        by_cases hfailure : state.failure.isSome
        · rw [if_pos hfailure] at h
          rw [show state.failure = none from h] at hfailure
          cases hfailure
        · rw [if_neg hfailure] at h ⊢
          split at h
          · cases h
          · rename_i entries hfound
            split at h
            · cases h
            · rename_i hvalid
              split at h
              · cases h
              · rename_i hroom
                split at h
                · cases h
                · rename_i state' hrecorded
                  rw [if_neg hvalid, if_neg hroom]
                  exact ⟨entries, hlower, hupper, hrange, by simpa using hfailure, hfound, by simpa using hvalid,
                    not_lt.mp hroom, hrecorded⟩

theorem RangeRead.scan_inner_eq {request : DataScanRequest} {lower upper : DependencyBound}
    {entries : List IndexEntry} (htagged : state.Tagged snapshot.commit_sequence)
    (h : RangeRead snapshot request lower upper state entries state') :
    scan_inner snapshot request state = (.ok (entries.map data_index_entry), state') := by
  simp only [scan_inner, h.converted_lower, h.converted_upper, h.range, ensure_snapshot_getD htagged]
  rw [if_neg (by simp [h.open'])]
  simp only [h.found]
  rw [if_neg (by simp [h.valid]), show (ensure_snapshot snapshot state).scan_rows = state.scan_rows from rfl,
    if_neg (not_lt.mpr h.room)]
  simp only [h.recorded]

/-- One call: what it leaves recorded decides its answer on a later snapshot. -/
theorem serve_query_retag (hle : snapshot.commit_sequence ≤ snapshot'.commit_sequence) (op : QueryOp)
    (htagged : state.Tagged snapshot.commit_sequence) (hfailure : (serve_query snapshot op state).2.failure = none)
    (hsame : ∀ dependency ∈ (serve_query snapshot op state).2.dependencies, dependency.Same snapshot snapshot') :
    (serve_query snapshot op state).1 = (serve_query snapshot' op (state.retag snapshot'.commit_sequence)).1 ∧
      (serve_query snapshot op state).2.Tagged snapshot.commit_sequence ∧
      (serve_query snapshot' op (state.retag snapshot'.commit_sequence)).2 =
        (serve_query snapshot op state).2.retag snapshot'.commit_sequence := by
  have htagged' : (state.retag snapshot'.commit_sequence).Tagged snapshot'.commit_sequence := by
    constructor
    · intro tagged h
      obtain ⟨_, _, rfl⟩ := Option.map_eq_some_iff.mp h
      rfl
    · intro dependency h
      obtain ⟨other, _, rfl⟩ := List.mem_map.mp h
      cases other <;> rfl
  cases op with
  | Get request =>
    simp only [serve_query] at hfailure hsame ⊢
    obtain ⟨document, hread⟩ := pointRead_of_get_inner htagged hfailure
    obtain ⟨hmem, hafter, hrecorded⟩ := record_dependency_retag (ensure_snapshot_tagged htagged).1 rfl
      hread.recorded
    have hread' : PointRead snapshot' request (state.retag snapshot'.commit_sequence) document
        ((get_inner snapshot request state).2.retag snapshot'.commit_sequence) := {
      open' := hread.open'
      found := (hsame _ hmem).trans hread.found
      valid := fun record hrecord => valid_record_mono hle (hread.valid record hrecord)
      recorded := by
        rw [ensure_snapshot_retag snapshot]
        exact hrecorded _ }
    rw [hread'.get_inner_eq htagged']
    exact ⟨by rw [hread.get_inner_eq htagged], hafter, rfl⟩
  | Scan request =>
    simp only [serve_query] at hfailure hsame ⊢
    rcases rangeRead_of_scan_inner htagged hfailure with ⟨error, hrejected⟩ | ⟨lower, upper, entries, hread⟩
    · rw [hrejected, hrejected]
      exact ⟨rfl, htagged, rfl⟩
    · have hopened := ensure_snapshot_tagged htagged
      have hcounted : SessionState.Tagged snapshot.commit_sequence
          { ensure_snapshot snapshot state with scan_rows := state.scan_rows + entries.length } :=
        ⟨hopened.1.snapshot_sequence, hopened.1.dependencies⟩
      obtain ⟨hmem, hafter, hrecorded⟩ := record_dependency_retag hcounted rfl hread.recorded
      have hread' : RangeRead snapshot' request lower upper (state.retag snapshot'.commit_sequence) entries
          ((scan_inner snapshot request state).2.retag snapshot'.commit_sequence) := {
        converted_lower := hread.converted_lower
        converted_upper := hread.converted_upper
        range := hread.range
        open' := hread.open'
        found := (hsame _ hmem request.limit).trans hread.found
        valid := valid_entries_mono hle hread.valid
        room := hread.room
        recorded := by
          rw [ensure_snapshot_retag snapshot]
          exact hrecorded _ }
      rw [hread'.scan_inner_eq htagged']
      exact ⟨by rw [hread.scan_inner_eq htagged], hafter, rfl⟩

/-- A call that latches no failure found none, and only adds dependencies. -/
theorem serve_query_back (op : QueryOp) (hfailure : (serve_query snapshot op state).2.failure = none) :
    state.failure = none ∧ state.dependencies ⊆ (serve_query snapshot op state).2.dependencies := by
  cases op with
  | Get request =>
    simp only [serve_query, get_inner] at hfailure ⊢
    split at hfailure
    · rename_i hlatched
      rw [if_pos hlatched]
      exact ⟨hfailure, List.Subset.refl _⟩
    · rename_i hopen
      rw [if_neg hopen]
      refine ⟨by simpa using hopen, ?_⟩
      split at hfailure
      · cases hfailure
      · split at hfailure
        · cases hfailure
        · rename_i hvalid
          rw [if_neg hvalid]
          split at hfailure
          · cases hfailure
          · rename_i state' hrecorded
            exact (record_dependency_subset hrecorded).2
  | Scan request =>
    simp only [serve_query, scan_inner] at hfailure ⊢
    split at hfailure
    · exact ⟨hfailure, List.Subset.refl _⟩
    · exact ⟨hfailure, List.Subset.refl _⟩
    · split at hfailure
      · exact ⟨hfailure, List.Subset.refl _⟩
      · split at hfailure
        · rename_i hlatched
          rw [if_pos hlatched]
          exact ⟨hfailure, List.Subset.refl _⟩
        · rename_i hopen
          rw [if_neg hopen]
          refine ⟨by simpa using hopen, ?_⟩
          split at hfailure
          · cases hfailure
          · split at hfailure
            · cases hfailure
            · rename_i hvalid
              rw [if_neg hvalid]
              split at hfailure
              · cases hfailure
              · rename_i hroom
                rw [if_neg hroom]
                split at hfailure
                · cases hfailure
                · rename_i state' hrecorded
                  exact (record_dependency_subset hrecorded).2

/-- A Query that ran without a failure runs alike on every later snapshot that answers what it recorded
alike. -/
theorem run_query_congr (hle : snapshot.commit_sequence ≤ snapshot'.commit_sequence) (query : Query)
    (hfailure : (query.run (serve_query snapshot) .new).2.failure = none)
    (hsame : ∀ dependency ∈ (query.run (serve_query snapshot) .new).2.dependencies,
      dependency.Same snapshot snapshot') :
    (query.run (serve_query snapshot') .new).1 = (query.run (serve_query snapshot) .new).1 ∧
      (query.run (serve_query snapshot') .new).2 =
        (query.run (serve_query snapshot) .new).2.retag snapshot'.commit_sequence := by
  let P (state : SessionState) : Prop := state.failure = none ∧
    ∀ dependency ∈ state.dependencies, dependency.Same snapshot snapshot'
  let R (state state' : SessionState) : Prop := state.Tagged snapshot.commit_sequence ∧
    state' = state.retag snapshot'.commit_sequence
  have hback (op : QueryOp) (state : SessionState) (h : P (serve_query snapshot op state).2) : P state := by
    obtain ⟨hnone, hsubset⟩ := serve_query_back op h.1
    exact ⟨hnone, fun dependency hdependency => h.2 dependency (hsubset hdependency)⟩
  have hstep (op : QueryOp) (state state' : SessionState) (hR : R state state')
      (h : P (serve_query snapshot op state).2) :
      (serve_query snapshot op state).1 = (serve_query snapshot' op state').1 ∧
        R (serve_query snapshot op state).2 (serve_query snapshot' op state').2 := by
    obtain ⟨htagged, rfl⟩ := hR
    exact serve_query_retag hle op htagged h.1 h.2
  have hnew : R .new .new := ⟨⟨nofun, nofun⟩, rfl⟩
  obtain ⟨hvalue, hstate⟩ := Program.run_simulation hback hstep query hnew ⟨hfailure, hsame⟩
  exact ⟨hvalue.symm, hstate.2⟩

/-- One value on snapshots that answer the dependencies alike. -/
theorem execute_value_congr (hle : snapshot.commit_sequence ≤ snapshot'.commit_sequence) (query : Query)
    (hfailure : (query.run (serve_query snapshot) .new).2.failure = none)
    (hsame : ∀ dependency ∈ (query.run (serve_query snapshot) .new).2.dependencies,
      dependency.Same snapshot snapshot') : (QueryExecutor.execute query snapshot').map QueryOutcome.value =
      (QueryExecutor.execute query snapshot).map QueryOutcome.value := by
  obtain ⟨hvalue, hstate⟩ := run_query_congr hle query hfailure hsame
  have hfailure' : (query.run (serve_query snapshot') .new).2.failure = none := by
    rw [hstate]
    exact hfailure
  simp only [QueryExecutor.execute, hfailure, hfailure', hvalue]
  cases (query.run (serve_query snapshot) .new).1 <;> rfl

end

end runku.execution
