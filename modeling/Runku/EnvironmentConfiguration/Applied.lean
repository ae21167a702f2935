import Runku.EnvironmentConfiguration.Registry
import Runku.Lib.Machine

namespace runku.environment_configuration

open Std (ExtTreeMap)
open runku.core
open runku.value (TimestampMicros)
open runku.data (Sha256Digest)
open bytes fallible

namespace Command

def operation_id : Command → OperationId
  | .Set operation_id .. | .Delete operation_id .. => operation_id

def actor : Command → OperatorId
  | .Set _ actor .. | .Delete _ actor .. => actor

def expected_revision : Command → UInt64
  | .Set _ _ expected_revision .. | .Delete _ _ expected_revision .. => expected_revision

def name : Command → ConfigurationName
  | .Set _ _ _ name .. | .Delete _ _ _ name .. => name

def action : Command → ConfigurationAction
  | .Set .. => .Set
  | .Delete .. => .Delete

def kind : Command → Option ConfigurationKind
  | .Set _ _ _ _ kind .. => some kind
  | .Delete .. => none

def value : Command → Option String
  | .Set _ _ _ _ _ value .. => some value
  | .Delete .. => none

def occurred_at : Command → TimestampMicros
  | .Set _ _ _ _ _ _ occurred_at _ => occurred_at
  | .Delete _ _ _ _ occurred_at => occurred_at

/-- What makes two commands with one operation identity the same command. -/
def intent (command : Command) :
    ConfigurationAction × UInt64 × ConfigurationName × Option ConfigurationKind × Option String :=
  (command.action, command.expected_revision, command.name, command.kind, command.value)

end Command

/-- A command that took effect, with the result it returned then. -/
abbrev Applied := Command × ConfigurationMutationResult

/-- The last applied command on a name. -/
def last_on (name : ConfigurationName) (log : List Applied) : Option Applied :=
  (log.filter (·.1.name = name)).getLast?

theorem last_on_concat (name : ConfigurationName) (log : List Applied) (applied : Applied) :
    last_on name (log ++ [applied]) = if applied.1.name = name then some applied else last_on name log := by
  rw [last_on, List.filter_append, List.filter_singleton]
  split
  · rename_i h
    rw [decide_eq_true h, cond_true, List.getLast?_concat]
  · rename_i h
    rw [decide_eq_false h, cond_false, List.append_nil, last_on]

theorem mem_of_last_on {name : ConfigurationName} {log : List Applied} {applied : Applied}
    (h : last_on name log = some applied) : applied ∈ log ∧ applied.1.name = name := by
  have hmem := List.mem_filter.mp (List.mem_of_getLast? h)
  exact ⟨hmem.1, by simpa using hmem.2⟩

section
variable (sha256 : List UInt8 → Sha256Digest) (cipher : Aes256Gcm) (key : Vector UInt8 32) (scope : EnvironmentScope)

/-- The result that a command gave when it took effect as the given revision. -/
def Resulted (revision : Nat) : Applied → Prop
  | (.Set _ _ _ name kind value occurred_at _, result) =>
    validate_value kind value occurred_at = .ok () ∧
      ∃ created_at, 0 ≤ created_at ∧ created_at ≤ occurred_at ∧
        result = ⟨revision, some ⟨scope, name, kind, if kind = .Variable then some value else none, revision, created_at,
          occurred_at⟩, false⟩
  | (.Delete _ _ _ _ occurred_at, result) => 0 ≤ occurred_at ∧ result = ⟨revision, none, false⟩

def Command.digest (command : Command) : Sha256Digest :=
  command_digest sha256 scope command.action command.expected_revision command.name command.kind command.value

/-- The journal row of an applied command. -/
def journal_row (applied : Applied) : OperationRow :=
  operation_row applied.1.name applied.1.action applied.2.configuration_revision applied.1.occurred_at
    (applied.1.digest sha256 scope) applied.2.entry

/-- The entry that an applied command leaves behind. -/
def stored_row : Applied → Option EntryRow
  | (.Set _ _ _ name kind value _ nonce, result) =>
    result.entry.map fun entry =>
      entry_row cipher key scope nonce name kind value entry.revision entry.created_at entry.updated_at
  | (.Delete .., _) => none

/-- The audit event of a command that took effect as the given revision. -/
def Audited (revision : Nat) (command : Command) (row : AuditRow) : Prop :=
  row.operation_id = command.operation_id ∧ row.actor = command.actor ∧ row.name = command.name ∧
    row.action = command.action ∧ (∀ kind ∈ command.kind, row.kind = kind) ∧ row.configuration_revision = revision ∧
    row.occurred_at = command.occurred_at

/-- The tables are those that the applied commands leave behind. -/
structure Represents (log : List Applied) (t : Tables) : Prop where
  revision : load_revision t = log.length
  distinct : (log.map (·.1.operation_id)).Nodup
  resulted : ∀ i applied, log[i]? = some applied → Resulted scope (i + 1) applied
  operations : ∀ operation_id, t.operations[operation_id]? =
    (log.find? (·.1.operation_id = operation_id)).map (journal_row sha256 scope)
  mem_audit : ∀ n, n ∈ t.audit ↔ 0 < n ∧ n ≤ log.length
  audited : ∀ i row, t.audit[i + 1]? = some row → ∀ applied, log[i]? = some applied → Audited (i + 1) applied.1 row
  entries : ∀ name, t.entries[name]? = (last_on name log).bind (stored_row cipher key scope)
  size : t.entries.size ≤ MAX_ENTRIES

variable {sha256 cipher key scope}

theorem validate_value_at {kind : ConfigurationKind} {value : String} {occurred_at : TimestampMicros}
    (h : validate_value kind value occurred_at = .ok ()) : validate_value kind value 0 = .ok () ∧ 0 ≤ occurred_at := by
  simp only [validate_value, ite_error_eq_ok_iff, and_true, not_or] at h ⊢
  obtain ⟨hempty, hlong, hzero, htime⟩ := h
  exact ⟨⟨hempty, hlong, hzero, by decide⟩, Int64.not_lt.mp htime⟩

/-- A stored entry decodes to the entry that the command returned. -/
theorem decode_stored_row {revision : Nat} {applied : Applied} (h : Resulted scope revision applied) :
    (match stored_row cipher key scope applied with
      | none => .ok none
      | some row => some <$> decode_entry scope applied.1.name row) =
      (.ok applied.2.entry : Except ConfigurationError (Option ConfigurationEntry)) := by
  obtain ⟨command, result⟩ := applied
  cases command with
  | Delete =>
    obtain ⟨_, rfl⟩ := h
    rfl
  | Set _ _ _ name kind value occurred_at nonce =>
    obtain ⟨hvalue, created_at, hcreated, hupdated, rfl⟩ := h
    obtain ⟨hvalue, _⟩ := validate_value_at hvalue
    cases kind with
    | Variable =>
      simp [stored_row, entry_row, decode_entry, Command.name, hvalue, Except.isOk, Except.toBool,
        Int64.not_lt.mpr hcreated, Int64.not_lt.mpr hupdated]
    | Secret =>
      simp [stored_row, entry_row, decode_entry, Command.name, Int64.not_lt.mpr hcreated, Int64.not_lt.mpr hupdated]

/-- The result columns of a journal row read back as the entry that the command returned. -/
theorem decode_result_journal_row {revision : Nat} {applied : Applied} {entry : ConfigurationEntry}
    (h : Resulted scope revision applied) (hentry : applied.2.entry = some entry) :
    decode_result scope (journal_row sha256 scope applied) = .ok entry := by
  obtain ⟨command, result⟩ := applied
  cases command with
  | Delete =>
    obtain ⟨_, rfl⟩ := h
    cases hentry
  | Set _ _ _ name kind value occurred_at nonce =>
    obtain ⟨hvalue, created_at, hcreated, hupdated, rfl⟩ := h
    obtain ⟨hvalue, _⟩ := validate_value_at hvalue
    cases hentry
    cases kind <;>
      simp [decode_result, journal_row, operation_row, Command.name, hvalue, Except.isOk, Except.toBool,
        Int64.not_lt.mpr hcreated, Int64.not_lt.mpr hupdated]

variable {t : Tables}

/-- Reading the journal row of an applied command gives back the command's result. -/
theorem replay_journal_row {operation_id : OperationId} {revision : Nat} {applied : Applied}
    (hrow : t.operations[operation_id]? = some (journal_row sha256 scope applied)) (h : Resulted scope revision applied)
    (digest : Sha256Digest) :
    replay scope t operation_id digest =
      if applied.1.digest sha256 scope ≠ digest then .error .OperationIdReused
      else .ok (some { applied.2 with replayed := true }) := by
  rw [replay, hrow]
  refine ite_congr rfl (fun _ => rfl) fun _ => ?_
  have hdecode := fun entry => @decode_result_journal_row sha256 scope revision applied entry h
  obtain ⟨command, result⟩ := applied
  cases command with
  | Delete =>
    obtain ⟨_, rfl⟩ := h
    rfl
  | Set =>
    obtain ⟨_, created_at, _, _, rfl⟩ := h
    change (decode_result scope _ >>= fun entry => pure _) = _
    rw [hdecode _ rfl]
    rfl

/-- A sealed secret opens to what was sealed. -/
theorem open_seal {value : String} (hvalue : validate_value .Secret value 0 = .ok ()) (nonce : Vector UInt8 12)
    (name : ConfigurationName) (revision : Nat) :
    «open» cipher key scope name revision («seal» cipher key scope nonce name revision (as_bytes value)).1
      («seal» cipher key scope nonce name revision (as_bytes value)).2 = .ok value := by
  have hdecrypt := (cipher.decrypt_eq_some_iff key nonce.toList (aad scope name revision) _ (as_bytes value)).mpr rfl
  have hlong : (as_bytes value).length ≤ MAX_SECRET_BYTES := by
    simp only [validate_value, ite_error_eq_ok_iff, not_or, Nat.not_lt] at hvalue
    exact hvalue.1.2.1
  have hlength := cipher.length_encrypt key nonce.toList (aad scope name revision) (as_bytes value)
  rw [«open», «seal», if_neg]
  · simp only [hdecrypt, from_utf8_as_bytes, hvalue]
  · simp only [Vector.length_toList, ne_eq, not_true_eq_false, false_or, not_or]
    omega

/-- A stored value resolves to what the command set, under the kind it set. -/
theorem resolve_stored_row {revision : Nat} {applied : Applied} (h : Resulted scope revision applied)
    (hrow : t.entries[applied.1.name]? = stored_row cipher key scope applied) (kind : ConfigurationKind) :
    resolve_exact cipher key scope t applied.1.name kind =
      match applied.1.value with
      | some value => if applied.1.kind = some kind then .ok value else .error .NotFound
      | none => .error .NotFound := by
  obtain ⟨command, result⟩ := applied
  cases command with
  | Delete => simp [resolve_exact, resolve_kind, hrow, stored_row, Command.value]
  | Set _ _ _ name stored value occurred_at nonce =>
    obtain ⟨hvalue, created_at, _, _, rfl⟩ := h
    obtain ⟨hvalue, _⟩ := validate_value_at hvalue
    rw [resolve_exact, resolve_kind, hrow]
    cases stored <;> cases kind
    · simp [stored_row, entry_row, Command.value, Command.kind, hvalue]
    · rfl
    · rfl
    · exact open_seal hvalue nonce name revision

theorem represents_empty : Represents sha256 cipher key scope [] .empty where
  revision := rfl
  distinct := List.nodup_nil
  resulted := nofun
  operations _ := rfl
  mem_audit n := ⟨fun h => absurd h ExtTreeMap.not_mem_empty, fun h => by simp at h; omega⟩
  audited := nofun
  entries _ := rfl
  size := Nat.zero_le _

variable {log : List Applied}

theorem Represents.load_entry (h : Represents sha256 cipher key scope log t) (name : ConfigurationName) :
    environment_configuration.load_entry scope t name = .ok ((last_on name log).bind (·.2.entry)) := by
  rw [environment_configuration.load_entry, h.entries]
  cases hlast : last_on name log with
  | none => rfl
  | some applied =>
    obtain ⟨hmem, rfl⟩ := mem_of_last_on hlast
    obtain ⟨i, hi⟩ := List.getElem?_of_mem hmem
    exact decode_stored_row (h.resulted i applied hi)

theorem Represents.created_at (h : Represents sha256 cipher key scope log t)
    (name : ConfigurationName) : (t.entries[name]?).map (·.created_at) = ((last_on name log).bind (·.2.entry)).map (·.created_at) := by
  rw [h.entries]
  cases hlast : last_on name log with
  | none => rfl
  | some applied =>
    obtain ⟨hmem, rfl⟩ := mem_of_last_on hlast
    obtain ⟨i, hi⟩ := List.getElem?_of_mem hmem
    have hresulted := h.resulted i applied hi
    obtain ⟨command, result⟩ := applied
    cases command with
    | Delete =>
      obtain ⟨_, rfl⟩ := hresulted
      rfl
    | Set _ _ _ _ kind =>
      obtain ⟨_, created_at, _, _, rfl⟩ := hresulted
      cases kind <;> rfl

theorem Represents.next_sequence (h : Represents sha256 cipher key scope log t) :
    environment_configuration.next_sequence t = log.length + 1 := by
  have hkeys : ∀ n, n ∈ t.audit.toList.map Prod.fst ↔ 0 < n ∧ n ≤ log.length := by
    intro n
    rw [ExtTreeMap.map_fst_toList_eq_keys, ExtTreeMap.mem_keys, h.mem_audit]
  rw [environment_configuration.next_sequence]
  by_cases hempty : log.length = 0
  · have hnone : (t.audit.toList.map Prod.fst).max? = none := by
      rw [List.max?_eq_none_iff, List.eq_nil_iff_forall_not_mem]
      intro n hn
      have := (hkeys n).mp hn
      omega
    rw [hnone, hempty]
    rfl
  · have hsome : (t.audit.toList.map Prod.fst).max? = some log.length := by
      rw [List.max?_eq_some_iff]
      exact ⟨(hkeys _).mpr ⟨by omega, le_rfl⟩, fun n hn => ((hkeys n).mp hn).2⟩
    rw [hsome]
    rfl

theorem Represents.operations_none (h : Represents sha256 cipher key scope log t) {operation_id : OperationId} :
    t.operations[operation_id]? = none ↔ ∀ applied ∈ log, applied.1.operation_id ≠ operation_id := by
  rw [h.operations, Option.map_eq_none_iff, List.find?_eq_none]
  simp

/-- One more applied command. -/
theorem Represents.extend {log : List Applied} {t t' : Tables} (h : Represents sha256 cipher key scope log t)
    {applied : Applied} {row : AuditRow} (hnew : t.operations[applied.1.operation_id]? = none)
    (hresulted : Resulted scope (log.length + 1) applied) (hrevision : t'.revision = some (log.length + 1))
    (hoperations : t'.operations = t.operations.insert applied.1.operation_id (journal_row sha256 scope applied))
    (haudit : t'.audit = t.audit.insert (log.length + 1) row) (haudited : Audited (log.length + 1) applied.1 row)
    (hentries : ∀ name, t'.entries[name]? =
      if applied.1.name = name then stored_row cipher key scope applied else t.entries[name]?)
    (hsize : t'.entries.size ≤ MAX_ENTRIES) : Represents sha256 cipher key scope (log ++ [applied]) t' where
  revision := by rw [load_revision, hrevision, List.length_append, List.length_singleton]; rfl
  distinct := by
    rw [List.map_append, List.map_singleton, List.nodup_append]
    refine ⟨h.distinct, List.nodup_singleton _, ?_⟩
    intro a ha b hb
    obtain ⟨earlier, hearlier, rfl⟩ := List.mem_map.mp ha
    rw [List.mem_singleton.mp hb]
    exact h.operations_none.mp hnew earlier hearlier
  resulted i other hi := by
    rw [List.getElem?_append] at hi
    split at hi
    · exact h.resulted i other hi
    · rw [List.getElem?_singleton] at hi
      split at hi
      · cases hi
        have hlast : i = log.length := by omega
        rw [hlast]
        exact hresulted
      · cases hi
  operations operation_id := by
    rw [hoperations, ordered_map.getElem?_insert, List.find?_append, List.find?_singleton]
    split
    · rename_i hsame
      subst hsame
      have hnone := hnew
      rw [h.operations, Option.map_eq_none_iff] at hnone
      rw [hnone]
      simp
    · rename_i hother
      rw [h.operations]
      simp [hother]
  mem_audit n := by
    rw [haudit, ExtTreeMap.mem_insert, compare_eq_iff_eq, h.mem_audit, List.length_append, List.length_singleton]
    omega
  audited i other hi later hlater := by
    rw [haudit, ordered_map.getElem?_insert] at hi
    rw [List.getElem?_append] at hlater
    split at hi
    · rename_i hlast
      cases hi
      have hindex : log.length = i := by omega
      rw [if_neg (by omega), hindex, Nat.sub_self] at hlater
      cases hlater
      rw [← hindex]
      exact haudited
    · have hbefore : i < log.length := by
        have := (h.mem_audit (i + 1)).mp (ordered_map.mem_iff_getElem?.mpr ⟨other, hi⟩)
        omega
      rw [if_pos hbefore] at hlater
      exact h.audited i other hi later hlater
  entries name := by
    rw [hentries, last_on_concat]
    split
    · rfl
    · exact h.entries name
  size := hsize

end

end runku.environment_configuration
