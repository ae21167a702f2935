import Runku.EnvironmentConfiguration.Applied

namespace runku.environment_configuration

open Std (ExtTreeMap)
open runku.core
open runku.value (TimestampMicros)
open runku.data (Sha256Digest)
open bytes fallible

section
variable (sha256 : List UInt8 → Sha256Digest) (cipher : Aes256Gcm) (key : Vector UInt8 32) (scope : EnvironmentScope)

/-- The bytes that the digest of a command covers. -/
def Command.digest_input (command : Command) : List UInt8 :=
  environment_configuration.digest_input sha256 scope command.action command.expected_revision command.name command.kind
    command.value

/-- The texts that are hashed for these commands. -/
def Hashed (commands : List Command) (input : List UInt8) : Prop :=
  ∃ command ∈ commands, input = command.digest_input sha256 scope ∨ ∃ value ∈ command.value, input = as_bytes value

/-- SHA-256 does not collide on anything that is hashed for these commands. -/
def CollisionFree (commands : List Command) : Prop :=
  ∀ a b, Hashed sha256 scope commands a → Hashed sha256 scope commands b → sha256 a = sha256 b → a = b

variable {sha256 cipher key scope}

theorem digest_field_append_inj {a b : String} {s t : List UInt8} (ha : (as_bytes a).length < 2 ^ 64)
    (hb : (as_bytes b).length < 2 ^ 64) (h : digest_field a ++ s = digest_field b ++ t) : a = b ∧ s = t := by
  rw [digest_field, digest_field, if_pos ha, if_pos hb, List.append_assoc, List.append_assoc] at h
  obtain ⟨hlength, hrest⟩ := List.append_inj h (by simp)
  obtain ⟨hbytes, htail⟩ := List.append_inj hrest (to_be_bytes_inj ha hb hlength)
  exact ⟨as_bytes_inj hbytes, htail⟩

theorem ConfigurationName.length_lt (name : ConfigurationName) : (as_bytes name.as_str).length < 2 ^ 64 := by
  have hvalid := name.is_valid
  simp only [name_text, Bool.and_eq_true, decide_eq_true_eq] at hvalid
  exact lt_of_le_of_lt hvalid.1.1.2 (by decide)

theorem ConfigurationAction.as_str_inj {a b : ConfigurationAction} (h : a.as_str = b.as_str) : a = b := by
  cases a <;> cases b <;> first | rfl | exact absurd h (by decide)

theorem ConfigurationKind.length_as_str (kind : ConfigurationKind) :
    (as_bytes kind.as_str).length = if kind = .Variable then 8 else 6 := by
  cases kind <;> decide +kernel

/-- Two kinds and the digests of two values behind them. -/
theorem kind_value_inj {kind kind' : ConfigurationKind} {a b : Sha256Digest}
    (h : as_bytes kind.as_str ++ a.toList = as_bytes kind'.as_str ++ b.toList) : kind = kind' ∧ a = b := by
  obtain ⟨hkind, hdigest⟩ := List.append_inj' h (by simp)
  have hlength := congrArg List.length hkind
  rw [ConfigurationKind.length_as_str, ConfigurationKind.length_as_str] at hlength
  refine ⟨?_, Vector.toList_inj.mp hdigest⟩
  cases kind <;> cases kind' <;> first | rfl | exact absurd hlength (by decide)

/-- The hashed text of a command determines its intent. -/
theorem Command.intent_of_digest_input {a b : Command}
    (hvalues : ∀ value ∈ a.value, ∀ value' ∈ b.value, sha256 (as_bytes value) = sha256 (as_bytes value') → value = value')
    (h : a.digest_input sha256 scope = b.digest_input sha256 scope) : a.intent = b.intent := by
  have haction : ∀ action : ConfigurationAction, (as_bytes action.as_str).length < 2 ^ 64 := by
    intro action
    cases action <;> decide +kernel
  rw [Command.digest_input, Command.digest_input, environment_configuration.digest_input,
    environment_configuration.digest_input] at h
  obtain ⟨hsame, h⟩ := digest_field_append_inj (haction _) (haction _) h
  have h := List.append_cancel_left (List.append_cancel_left h)
  obtain ⟨hname, h⟩ := digest_field_append_inj a.name.length_lt b.name.length_lt h
  obtain ⟨hexpected, h⟩ := List.append_inj h (by simp)
  have haction := ConfigurationAction.as_str_inj hsame
  have hname : a.name = b.name := by
    generalize a.name = x at hname ⊢
    generalize b.name = y at hname ⊢
    cases x
    cases y
    simp_all
  have hexpected := UInt64.toNat_inj.mp (to_be_bytes_inj a.expected_revision.toNat_lt b.expected_revision.toNat_lt hexpected)
  rw [intent, intent, haction, hname, hexpected]
  cases a with
  | Delete =>
    cases b with
    | Delete => rfl
    | Set => cases haction
  | Set _ _ _ _ kind value =>
    cases b with
    | Delete => cases haction
    | Set _ _ _ _ kind' value' =>
      obtain ⟨hkind, hdigest⟩ := kind_value_inj h
      have hvalue := hvalues value rfl value' rfl hdigest
      rw [Command.kind, Command.kind, Command.value, Command.value, hkind, hvalue]

theorem CollisionFree.intent {commands : List Command} (h : CollisionFree sha256 scope commands) {a b : Command}
    (ha : a ∈ commands) (hb : b ∈ commands) (hdigest : a.digest sha256 scope = b.digest sha256 scope) :
    a.intent = b.intent := by
  refine Command.intent_of_digest_input ?_ (h _ _ ⟨a, ha, .inl rfl⟩ ⟨b, hb, .inl rfl⟩ hdigest)
  intro value hvalue value' hvalue' hsame
  exact as_bytes_inj (h _ _ ⟨a, ha, .inr ⟨value, hvalue, rfl⟩⟩ ⟨b, hb, .inr ⟨value', hvalue', rfl⟩⟩ hsame)

/-- The operation of the command is not in the journal. -/
def Command.New (t : Tables) (command : Command) : Prop := t.operations[command.operation_id]? = none

/-- The command expects the revision that is there. -/
def Command.Current (t : Tables) (command : Command) : Prop := load_revision t = command.expected_revision.toNat

/-- The command passes its validation, finds the entry it deletes or room for the one it adds, is not dated before the
    entry it overwrites was created, and there is a revision left. -/
def Command.Admissible (t : Tables) : Command → Prop
  | .Set _ _ _ name kind value occurred_at _ =>
    validate_value kind value occurred_at = .ok () ∧
      (∀ row, t.entries[name]? = some row → row.created_at ≤ occurred_at) ∧
      (t.entries[name]? = none → t.entries.size < MAX_ENTRIES) ∧ load_revision t + 1 < 2 ^ 63
  | .Delete _ _ _ name occurred_at =>
    0 ≤ occurred_at ∧ (∃ row, t.entries[name]? = some row) ∧ load_revision t + 1 < 2 ^ 63

/-- What is checked before the transaction begins. -/
def Command.validate : Command → Except ConfigurationError Unit
  | .Set _ _ _ _ kind value occurred_at _ => validate_value kind value occurred_at
  | .Delete _ _ _ _ occurred_at => if occurred_at < 0 then .error .InvalidInput else .ok ()

variable {t : Tables} {command : Command}

theorem perform_of_replay_some {result : ConfigurationMutationResult}
    (h : replay scope t command.operation_id (command.digest sha256 scope) = .ok (some result)) :
    perform sha256 cipher key scope t command = (command.validate >>= fun _ => .ok (result, t)) := by
  cases command <;>
    simp only [Command.digest, Command.operation_id, Command.action, Command.expected_revision, Command.name,
      Command.kind, Command.value] at h
  case Set => simp only [perform, set, Command.validate, h, ok_bind]
  case Delete =>
    simp only [perform, delete, Command.validate, h, ok_bind]
    split <;> rfl

theorem perform_of_replay_error {error : ConfigurationError}
    (h : replay scope t command.operation_id (command.digest sha256 scope) = .error error) :
    perform sha256 cipher key scope t command = (command.validate >>= fun _ => .error error) := by
  cases command <;>
    simp only [Command.digest, Command.operation_id, Command.action, Command.expected_revision, Command.name,
      Command.kind, Command.value] at h
  case Set => simp only [perform, set, Command.validate, h, error_bind]
  case Delete =>
    simp only [perform, delete, Command.validate, h, error_bind]
    split <;> rfl

variable {log : List Applied}

theorem find?_operation (hdistinct : (log.map (·.1.operation_id)).Nodup) {applied : Applied}
    (hmem : applied ∈ log) : log.find? (·.1.operation_id = applied.1.operation_id) = some applied := by
  cases hfind : log.find? (·.1.operation_id = applied.1.operation_id) with
  | none => exact absurd (List.find?_eq_none.mp hfind applied hmem) (by simp)
  | some other =>
    have hsame : other.1.operation_id = applied.1.operation_id := by simpa using List.find?_some hfind
    rw [List.inj_on_of_nodup_map hdistinct (List.mem_of_find?_eq_some hfind) hmem hsame]

/-- A command whose operation is in the journal changes nothing: it gets the recorded result if its digest is the
    recorded one. -/
theorem Represents.perform_known (h : Represents sha256 cipher key scope log t) {applied : Applied} (hmem : applied ∈ log)
    (hoperation : applied.1.operation_id = command.operation_id) :
    perform sha256 cipher key scope t command = (command.validate >>= fun _ =>
      if applied.1.digest sha256 scope ≠ command.digest sha256 scope then .error .OperationIdReused
      else .ok ({ applied.2 with replayed := true }, t)) := by
  have hrow : t.operations[command.operation_id]? = some (journal_row sha256 scope applied) := by
    rw [← hoperation, h.operations, find?_operation h.distinct hmem]
    rfl
  obtain ⟨i, hi⟩ := List.getElem?_of_mem hmem
  have hreplay := replay_journal_row hrow (h.resulted i applied hi) (command.digest sha256 scope)
  split
  · rw [if_pos (by assumption)] at hreplay
    exact perform_of_replay_error hreplay
  · rw [if_neg (by assumption)] at hreplay
    exact perform_of_replay_some hreplay

variable {operation_id : OperationId}

theorem replay_new (h : t.operations[operation_id]? = none)
    (digest : Sha256Digest) : replay scope t operation_id digest = .ok none := by
  rw [replay, h]

variable {name : ConfigurationName}

theorem upsert_entry_eq_ok {t t' : Tables} {row : EntryRow}
    (hcreated : ∀ existing, t.entries[name]? = some existing → existing.created_at = row.created_at) :
    upsert_entry t name row = .ok t' ↔ row.checked = true ∧ t' = { t with entries := t.entries.insert name row } := by
  have hwritten : upsert_entry t name row =
      if row.checked then .ok { t with entries := t.entries.insert name row } else .error .Unavailable := by
    rw [upsert_entry]
    cases hexisting : t.entries[name]? with
    | none => rfl
    | some existing =>
      simp only
      rw [hcreated existing hexisting]
  rw [hwritten]
  by_cases hchecked : row.checked = true
  · rw [if_pos hchecked, Except.ok.injEq, eq_comm]
    exact (and_iff_right hchecked).symm
  · simp [hchecked]

theorem to_i64_eq_ok {value value' : Nat} : to_i64 value = .ok value' ↔ value < 2 ^ 63 ∧ value' = value := by
  rw [to_i64]
  by_cases hvalue : value < 2 ^ 63
  · rw [if_pos hvalue, Except.ok.injEq, eq_comm]
    exact (and_iff_right hvalue).symm
  · rw [if_neg hvalue]
    exact ⟨nofun, fun h => absurd h.1 hvalue⟩

/-- The creation time that `set` keeps is that of the stored entry. -/
theorem Represents.existing_created {log : List Applied} {t : Tables} (h : Represents sha256 cipher key scope log t)
    {name : ConfigurationName} {row : EntryRow} (hrow : t.entries[name]? = some row) (occurred_at : TimestampMicros) :
    ((last_on name log).bind (·.2.entry)).elim occurred_at (·.created_at) = row.created_at := by
  have hcreated := h.created_at name
  rw [hrow] at hcreated
  cases hentry : (last_on name log).bind (·.2.entry) with
  | none =>
    rw [hentry] at hcreated
    cases hcreated
  | some entry =>
    rw [hentry] at hcreated
    exact (Option.some.inj hcreated).symm

theorem Represents.entry_eq_none_iff (h : Represents sha256 cipher key scope log t)
    (name : ConfigurationName) : (last_on name log).bind (·.2.entry) = none ↔ t.entries[name]? = none := by
  have hcreated := h.created_at name
  cases hrow : t.entries[name]? <;> cases hentry : (last_on name log).bind (·.2.entry) <;> simp_all

theorem created_at_entry_row (nonce : Vector UInt8 12) (name : ConfigurationName) (kind : ConfigurationKind)
    (value : String) (revision : Nat) (created_at updated_at : TimestampMicros) :
    (entry_row cipher key scope nonce name kind value revision created_at updated_at).created_at = created_at := by
  cases kind <;> rfl

variable {revision : Nat}

theorem entry_row_checked {nonce : Vector UInt8 12} {kind : ConfigurationKind}
    {value : String} {created_at updated_at : TimestampMicros} (hrevision : 0 < revision) :
    (entry_row cipher key scope nonce name kind value revision created_at updated_at).checked = true ↔
      0 ≤ created_at ∧ created_at ≤ updated_at := by
  cases kind <;> simp only [entry_row, EntryRow.checked, hrevision, decide_true, Bool.true_and, Option.isSome_some,
    Option.isNone_none, Bool.and_true, Bool.and_eq_true] <;> exact and_congr decide_eq_true_iff decide_eq_true_iff

/-- A new command that succeeds expected the current revision and was admissible. -/
theorem Represents.admissible_of_perform {t t' : Tables}
    {result : ConfigurationMutationResult} (h : Represents sha256 cipher key scope log t) (hnew : command.New t)
    (hperform : perform sha256 cipher key scope t command = .ok (result, t')) :
    command.Current t ∧ command.Admissible t := by
  rw [Command.New] at hnew
  cases command with
  | Set operation_id actor expected_revision name kind value occurred_at nonce =>
    rw [Command.operation_id] at hnew
    simp only [perform, set, bind_eq_ok_iff, replay_new hnew, Except.ok.injEq, exists_eq_left', ite_error_eq_ok_iff,
      h.load_entry] at hperform
    obtain ⟨_, hvalue, hcurrent, hroom, revision, hnext, revision', hrevision, t₁, hupsert, _⟩ := hperform
    rw [next_revision] at hnext
    split at hnext
    · cases hnext
      obtain ⟨hlimit, rfl⟩ := to_i64_eq_ok.mp hrevision
      rw [upsert_entry_eq_ok] at hupsert
      · have hchecked := (entry_row_checked (Nat.succ_pos _)).mp hupsert.1
        refine ⟨not_not.mp hcurrent, hvalue, ?_, ?_, hlimit⟩
        · intro row hrow
          rw [h.existing_created hrow] at hchecked
          exact hchecked.2
        · intro hnone
          by_contra hfull
          exact hroom ⟨(h.entry_eq_none_iff name).mpr hnone, Nat.le_of_not_lt hfull⟩
      · intro existing hexisting
        rw [created_at_entry_row, h.existing_created hexisting]
    · cases hnext
  | Delete operation_id actor expected_revision name occurred_at =>
    rw [Command.operation_id] at hnew
    simp only [perform, delete, bind_eq_ok_iff, replay_new hnew, Except.ok.injEq, exists_eq_left', ite_error_eq_ok_iff,
      h.load_entry] at hperform
    obtain ⟨htime, hcurrent, hrest⟩ := hperform
    cases hentry : (last_on name log).bind (·.2.entry) with
    | none =>
      rw [hentry] at hrest
      cases hrest
    | some current =>
      simp only [hentry, bind_eq_ok_iff] at hrest
      obtain ⟨revision, hnext, t₁, hpersist, _⟩ := hrest
      rw [next_revision] at hnext
      split at hnext
      · cases hnext
        rw [persist_revision, bind_eq_ok_iff] at hpersist
        obtain ⟨_, hrevision, _⟩ := hpersist
        refine ⟨not_not.mp hcurrent, Int64.not_lt.mp htime, ?_, (to_i64_eq_ok.mp hrevision).1⟩
        cases hrow : t.entries[name]? with
        | none =>
          rw [(h.entry_eq_none_iff name).mpr hrow] at hentry
          cases hentry
        | some row => exact ⟨row, rfl⟩
      · cases hnext

theorem Resulted.occurred_at {applied : Applied} (h : Resulted scope revision applied) :
    0 ≤ applied.1.occurred_at := by
  obtain ⟨command, result⟩ := applied
  cases command with
  | Set => exact (validate_value_at h.1).2
  | Delete => exact h.1

/-- The journal row of an applied command meets the constraints of its table. -/
theorem journal_row_checked {revision : Nat} {applied : Applied} (h : Resulted scope (revision + 1) applied) :
    (journal_row sha256 scope applied).checked = true := by
  obtain ⟨command, result⟩ := applied
  cases command with
  | Set _ _ _ _ kind _ occurred_at =>
    have hdate : 0 ≤ occurred_at := h.occurred_at
    obtain ⟨_, created_at, hcreated, hupdated, rfl⟩ := h
    cases kind <;> simp [journal_row, operation_row, OperationRow.checked, Command.action, Command.occurred_at, hcreated,
      hupdated, hdate]
  | Delete _ _ _ _ occurred_at =>
    have hdate : 0 ≤ occurred_at := h.occurred_at
    obtain ⟨_, rfl⟩ := h
    simp [journal_row, operation_row, OperationRow.checked, Command.action, Command.occurred_at, hdate]

/-- The journal and the audit take one more operation. -/
theorem Represents.persist_operation_and_audit {log : List Applied} {t : Tables}
    (h : Represents sha256 cipher key scope log t) {applied : Applied} (hnew : applied.1.New t)
    (hresulted : Resulted scope (log.length + 1) applied) (hlimit : log.length + 1 < 2 ^ 63) (kind : ConfigurationKind)
    (entries : ExtTreeMap ConfigurationName EntryRow) (revision : Option Nat) :
    environment_configuration.persist_operation_and_audit ⟨revision, entries, t.operations, t.audit⟩
        applied.1.operation_id applied.1.actor applied.1.name applied.1.action kind (log.length + 1) applied.1.occurred_at
        (applied.1.digest sha256 scope) applied.2.entry =
      .ok ⟨revision, entries, t.operations.insert applied.1.operation_id (journal_row sha256 scope applied),
        t.audit.insert (log.length + 1) ⟨applied.1.operation_id, applied.1.actor, applied.1.name, applied.1.action, kind,
          log.length + 1, applied.1.occurred_at⟩⟩ := by
  have hrow : operation_row applied.1.name applied.1.action (log.length + 1) applied.1.occurred_at
      (applied.1.digest sha256 scope) applied.2.entry = journal_row sha256 scope applied := by
    rw [journal_row]
    obtain ⟨command, result⟩ := applied
    cases command with
    | Set => obtain ⟨_, _, _, _, rfl⟩ := hresulted; rfl
    | Delete => obtain ⟨_, rfl⟩ := hresulted; rfl
  have htime := hresulted.occurred_at
  have hchecked := @journal_row_checked sha256 scope _ _ hresulted
  have hnotin : applied.1.operation_id ∉ t.operations := by
    rw [ordered_map.mem_iff_getElem?, hnew]
    simp
  have hsequence := h.next_sequence
  have hfree : log.length + 1 ∉ t.audit := by
    rw [h.mem_audit]
    omega
  -- every audited operation is in the journal
  have hother : ∀ n row, (n, row) ∈ t.audit.toList → row.operation_id ≠ applied.1.operation_id := by
    intro n row hmem
    have hget := ExtTreeMap.mem_toList_iff_getElem?_eq_some.mp hmem
    obtain ⟨hpos, hle⟩ := (h.mem_audit n).mp (ordered_map.mem_iff_getElem?.mpr ⟨row, hget⟩)
    obtain ⟨i, rfl⟩ := Nat.exists_eq_add_of_lt hpos
    rw [Nat.zero_add] at hget hle
    have hi : log[i]? = some log[i] := List.getElem?_eq_getElem hle
    have haudited := h.audited i row hget _ hi
    rw [haudited.1]
    exact h.operations_none.mp hnew _ (List.getElem_mem hle)
  simp only [environment_configuration.persist_operation_and_audit, to_i64, if_pos hlimit, ok_bind, hrow, insert_operation,
    hnotin, hchecked, false_or, Bool.not_true, Bool.false_eq_true, if_false]
  rw [show environment_configuration.next_sequence ⟨revision, entries, t.operations.insert applied.1.operation_id
    (journal_row sha256 scope applied), t.audit⟩ = log.length + 1 from hsequence]
  have haudit : AuditRow.checked (log.length + 1) ⟨applied.1.operation_id, applied.1.actor, applied.1.name,
      applied.1.action, kind, log.length + 1, applied.1.occurred_at⟩ = true := by
    simp only [AuditRow.checked, Nat.zero_lt_succ, decide_true, Bool.true_and]
    exact decide_eq_true htime
  simpa [insert_audit, hfree, haudit] using hother

theorem next_revision_of_lt (h : revision + 1 < 2 ^ 63) :
    next_revision revision = .ok (revision + 1) ∧ to_i64 (revision + 1) = .ok (revision + 1) := by
  rw [next_revision, to_i64, if_pos (by omega), if_pos h]
  exact ⟨rfl, rfl⟩

variable {occurred_at : TimestampMicros}

/-- The creation time that `set` writes is not negative and not after the command. -/
theorem Represents.created_at_le (h : Represents sha256 cipher key scope log t) (htime : 0 ≤ occurred_at)
    (holder : ∀ row, t.entries[name]? = some row → row.created_at ≤ occurred_at) :
    0 ≤ ((last_on name log).bind (·.2.entry)).elim occurred_at (·.created_at) ∧
      ((last_on name log).bind (·.2.entry)).elim occurred_at (·.created_at) ≤ occurred_at := by
  cases hrow : t.entries[name]? with
  | none =>
    rw [(h.entry_eq_none_iff name).mpr hrow]
    exact ⟨htime, Int64.le_refl _⟩
  | some row =>
    rw [h.existing_created hrow]
    refine ⟨?_, holder row hrow⟩
    rw [h.entries, Option.bind_eq_some_iff] at hrow
    obtain ⟨⟨command, result⟩, hlast, hstored⟩ := hrow
    obtain ⟨i, hi⟩ := List.getElem?_of_mem (mem_of_last_on hlast).1
    have hresulted := h.resulted i _ hi
    cases command with
    | Delete => cases hstored
    | Set =>
      obtain ⟨_, created_at, hcreated, _, rfl⟩ := hresulted
      cases hstored
      rw [created_at_entry_row]
      exact hcreated

/-- A new, current and admissible `set` is applied. -/
theorem Represents.perform_set (h : Represents sha256 cipher key scope log t)
    {actor : OperatorId} {expected_revision : UInt64}
    {kind : ConfigurationKind} {value : String} {nonce : Vector UInt8 12}
    (hnew : t.operations[operation_id]? = none) (hcurrent : load_revision t = expected_revision.toNat) (hadmissible :
      (Command.Set operation_id actor expected_revision name kind value occurred_at nonce).Admissible t) :
    ∃ result t', perform sha256 cipher key scope t
        (.Set operation_id actor expected_revision name kind value occurred_at nonce) = .ok (result, t') ∧
      result.replayed = false ∧ Represents sha256 cipher key scope
        (log ++ [(.Set operation_id actor expected_revision name kind value occurred_at nonce, result)]) t' := by
  obtain ⟨hvalue, holder, hroom, hlimit⟩ := hadmissible
  obtain ⟨hnonneg, hle⟩ := h.created_at_le (validate_value_at hvalue).2 holder
  have hexisting := fun row hrow => @Represents.existing_created _ _ _ _ _ _ h name row hrow occurred_at
  have hload := h.load_entry name
  have hfits : ¬((last_on name log).bind (·.2.entry) = none ∧ MAX_ENTRIES ≤ t.entries.size) := by
    rw [h.entry_eq_none_iff]
    exact fun ⟨hnone, hfull⟩ => absurd (hroom hnone) (Nat.not_lt.mpr hfull)
  generalize (last_on name log).bind (·.2.entry) = existing at *
  generalize hcreated_at : existing.elim occurred_at (·.created_at) = created_at at *
  rw [h.revision] at hlimit hcurrent
  obtain ⟨hnext, hi64⟩ := next_revision_of_lt hlimit
  let entry : ConfigurationEntry :=
    ⟨scope, name, kind, if kind = .Variable then some value else none, log.length + 1, created_at, occurred_at⟩
  let applied : Applied := (.Set operation_id actor expected_revision name kind value occurred_at nonce,
    ⟨log.length + 1, some entry, false⟩)
  let row := entry_row cipher key scope nonce name kind value (log.length + 1) created_at occurred_at
  have hresulted : Resulted scope (log.length + 1) applied := ⟨hvalue, created_at, hnonneg, hle, rfl⟩
  have hupsert : upsert_entry t name row = .ok { t with entries := t.entries.insert name row } := by
    rw [upsert_entry_eq_ok]
    · exact ⟨(entry_row_checked (Nat.succ_pos _)).mpr ⟨hnonneg, hle⟩, rfl⟩
    · intro existing hrow
      rw [created_at_entry_row, hexisting existing hrow]
  have hloaded : environment_configuration.load_entry scope
      ⟨some (log.length + 1), t.entries.insert name row, t.operations, t.audit⟩ name = .ok (some entry) := by
    rw [environment_configuration.load_entry, ordered_map.getElem?_insert, if_pos rfl]
    exact @decode_stored_row cipher key scope _ applied hresulted
  have hjournal := @Represents.persist_operation_and_audit _ _ _ _ _ _ h applied hnew hresulted hlimit kind
    (t.entries.insert name row) (some (log.length + 1))
  let event : AuditRow := ⟨operation_id, actor, name, .Set, kind, log.length + 1, occurred_at⟩
  let t' : Tables := ⟨some (log.length + 1), t.entries.insert name row,
    t.operations.insert operation_id (journal_row sha256 scope applied), t.audit.insert (log.length + 1) event⟩
  have haudited : Audited (log.length + 1) applied.1 event := by
    refine ⟨rfl, rfl, rfl, rfl, ?_, rfl, rfl⟩
    rintro _ ⟨⟩
    rfl
  refine ⟨applied.2, t', ?_, rfl, @Represents.extend _ _ _ _ _ _ t' h applied event hnew hresulted rfl rfl rfl haudited
    ?_ ?_⟩
  · simp only [perform, environment_configuration.set, hvalue, ok_bind, replay_new hnew, if_neg (not_not.mpr hcurrent),
      hload, if_neg hfits, hcreated_at, h.revision, hnext, hi64]
    rw [hupsert, ok_bind]
    simp only [persist_revision, hi64, ok_bind, pure_eq_ok, hloaded]
    exact congrArg (· >>= fun t => Except.ok (applied.2, t)) hjournal
  · intro other
    change (t.entries.insert name row)[other]? = if name = other then some row else t.entries[other]?
    rw [ordered_map.getElem?_insert]
    congr
  · change (t.entries.insert name row).size ≤ _
    rw [ExtTreeMap.size_insert]
    split
    · exact h.size
    · rename_i hcontains
      refine hroom ?_
      rwa [← ExtTreeMap.mem_iff_contains, ExtTreeMap.mem_iff_isSome_getElem?, Option.not_isSome_iff_eq_none] at hcontains

/-- A new, current and admissible `delete` is applied. -/
theorem Represents.perform_delete (h : Represents sha256 cipher key scope log t)
    {actor : OperatorId} {expected_revision : UInt64} (hnew : t.operations[operation_id]? = none)
    (hcurrent : load_revision t = expected_revision.toNat)
    (hadmissible : (Command.Delete operation_id actor expected_revision name occurred_at).Admissible t) :
    ∃ result t', perform sha256 cipher key scope t (.Delete operation_id actor expected_revision name occurred_at) =
        .ok (result, t') ∧ result.replayed = false ∧ Represents sha256 cipher key scope
        (log ++ [(.Delete operation_id actor expected_revision name occurred_at, result)]) t' := by
  obtain ⟨htime, ⟨row, hrow⟩, hlimit⟩ := hadmissible
  have hload := h.load_entry name
  cases hentry : (last_on name log).bind (·.2.entry) with
  | none =>
    rw [h.entry_eq_none_iff, hrow] at hentry
    cases hentry
  | some current =>
    rw [hentry] at hload
    rw [h.revision] at hlimit hcurrent
    obtain ⟨hnext, hi64⟩ := next_revision_of_lt hlimit
    let applied : Applied := (.Delete operation_id actor expected_revision name occurred_at,
      ⟨log.length + 1, none, false⟩)
    have hresulted : Resulted scope (log.length + 1) applied := ⟨htime, rfl⟩
    have hjournal := @Represents.persist_operation_and_audit _ _ _ _ _ _ h applied hnew hresulted hlimit current.kind
      (t.entries.erase name) (some (log.length + 1))
    let event : AuditRow := ⟨operation_id, actor, name, .Delete, current.kind, log.length + 1, occurred_at⟩
    let t' : Tables := ⟨some (log.length + 1), t.entries.erase name,
      t.operations.insert operation_id (journal_row sha256 scope applied), t.audit.insert (log.length + 1) event⟩
    have haudited : Audited (log.length + 1) applied.1 event := ⟨rfl, rfl, rfl, rfl, nofun, rfl, rfl⟩
    refine ⟨applied.2, t', ?_, rfl, @Represents.extend _ _ _ _ _ _ t' h applied event hnew hresulted rfl rfl rfl haudited
      ?_ ?_⟩
    · simp only [perform, delete, if_neg (Int64.not_lt.mpr htime), ok_bind, replay_new hnew,
        if_neg (not_not.mpr hcurrent), hload, h.revision, hnext, persist_revision, hi64, pure_eq_ok]
      exact congrArg (· >>= fun t => Except.ok (applied.2, t)) hjournal
    · intro other
      change (t.entries.erase name)[other]? = if name = other then none else t.entries[other]?
      rw [ordered_map.getElem?_erase]
      congr
    · exact ExtTreeMap.size_erase_le.trans h.size

/-- A new, current and admissible command is applied. -/
theorem Represents.perform_new
    (h : Represents sha256 cipher key scope log t) (hnew : command.New t) (hcurrent : command.Current t)
    (hadmissible : command.Admissible t) :
    ∃ result t', perform sha256 cipher key scope t command = .ok (result, t') ∧ result.replayed = false ∧
      Represents sha256 cipher key scope (log ++ [(command, result)]) t' := by
  cases command with
  | Set => exact h.perform_set hnew hcurrent hadmissible
  | Delete => exact h.perform_delete hnew hcurrent hadmissible

variable (sha256 cipher key scope)

/-- What a command answers. -/
def outcome (t : Tables) (command : Command) : Except ConfigurationError ConfigurationMutationResult :=
  (perform sha256 cipher key scope t command).map Prod.fst

/-- The tables after a command: a failed transaction is rolled back. -/
def step (t : Tables) (command : Command) : Tables :=
  match perform sha256 cipher key scope t command with
  | .ok (_, t') => t'
  | .error _ => t

/-- The command with its result, if it takes effect. -/
def taken (t : Tables) (command : Command) : Option Applied :=
  match outcome sha256 cipher key scope t command with
  | .ok result => if result.replayed then none else some (command, result)
  | .error _ => none

def tables (commands : List Command) : Tables := machine.run (step sha256 cipher key scope) .empty commands

/-- The commands that took effect, in order, each with its result. -/
def applied (commands : List Command) : List Applied :=
  machine.yields (step sha256 cipher key scope) (taken sha256 cipher key scope) .empty commands

variable {sha256 cipher key scope}

/-- A command with a journal row takes no effect. -/
theorem Represents.step_known (h : Represents sha256 cipher key scope log t)
    (hknown : ¬command.New t) :
    step sha256 cipher key scope t command = t ∧ taken sha256 cipher key scope t command = none ∧
      ∀ result, outcome sha256 cipher key scope t command = .ok result → ∃ applied ∈ log,
        applied.1.operation_id = command.operation_id ∧
          applied.1.digest sha256 scope = command.digest sha256 scope ∧ result = { applied.2 with replayed := true } := by
  have hmem : ∃ applied ∈ log, applied.1.operation_id = command.operation_id := by
    by_contra hnone
    simp only [not_exists, not_and] at hnone
    exact hknown (h.operations_none.mpr hnone)
  obtain ⟨applied, hmem, hoperation⟩ := hmem
  have hperform := h.perform_known hmem hoperation
  rw [step, taken, outcome, hperform]
  cases command.validate with
  | error => exact ⟨rfl, rfl, nofun⟩
  | ok =>
    rw [ok_bind]
    by_cases hdigest : applied.1.digest sha256 scope = command.digest sha256 scope
    · rw [if_neg (not_not.mpr hdigest)]
      refine ⟨rfl, rfl, fun result hresult => ⟨applied, hmem, hoperation, hdigest, ?_⟩⟩
      exact (Except.ok.inj hresult).symm
    · rw [if_pos hdigest]
      exact ⟨rfl, rfl, nofun⟩

/-- A command takes effect exactly when it is new, current and admissible; otherwise it changes nothing. -/
theorem Represents.step_new (h : Represents sha256 cipher key scope log t) (hnew : command.New t) :
    (command.Current t ∧ command.Admissible t ∧ ∃ result, taken sha256 cipher key scope t command = some (command, result) ∧
      Represents sha256 cipher key scope (log ++ [(command, result)]) (step sha256 cipher key scope t command)) ∨
    ¬(command.Current t ∧ command.Admissible t) ∧ step sha256 cipher key scope t command = t ∧
      taken sha256 cipher key scope t command = none ∧
      ∃ error, outcome sha256 cipher key scope t command = .error error := by
  by_cases hcondition : command.Current t ∧ command.Admissible t
  · obtain ⟨result, t', hperform, hfresh, hrepresents⟩ := h.perform_new hnew hcondition.1 hcondition.2
    refine .inl ⟨hcondition.1, hcondition.2, result, ?_, ?_⟩
    · simp [taken, outcome, hperform, Except.map, hfresh]
    · rw [step, hperform]
      exact hrepresents
  · refine .inr ⟨hcondition, ?_⟩
    cases hperform : perform sha256 cipher key scope t command with
    | ok pair => exact absurd (h.admissible_of_perform hnew hperform) hcondition
    | error error => simp [step, taken, outcome, hperform, Except.map]

/-- Every command keeps the tables those of the applied commands. -/
theorem Represents.step (h : Represents sha256 cipher key scope log t)
    (command : Command) : Represents sha256 cipher key scope (log ++ (taken sha256 cipher key scope t command).toList)
      (step sha256 cipher key scope t command) := by
  by_cases hnew : command.New t
  · obtain ⟨_, _, result, htaken, hrepresents⟩ | ⟨_, hstep, htaken, _⟩ := h.step_new hnew
    · rw [htaken]
      exact hrepresents
    · rw [htaken, hstep, Option.toList_none, List.append_nil]
      exact h
  · obtain ⟨hstep, htaken, _⟩ := h.step_known hnew
    rw [htaken, hstep, Option.toList_none, List.append_nil]
    exact h

/-- The digest says nothing about the actor, the time and the nonce. -/
theorem digest_eq_of_intent {command other : Command} (h : command.intent = other.intent) :
    command.digest sha256 scope = other.digest sha256 scope := by
  simp only [Command.intent, Prod.mk.injEq] at h
  simp only [Command.digest, h]

theorem represents_run (commands : List Command) :
    Represents sha256 cipher key scope (applied sha256 cipher key scope commands) (tables sha256 cipher key scope commands) := by
  induction commands using List.reverseRecOn with
  | nil => exact represents_empty
  | append_singleton commands command ih =>
    rw [applied, machine.yields_concat, tables, machine.run_append]
    exact ih.step command

theorem mem_of_mem_applied {commands : List Command} {one : Applied}
    (h : one ∈ applied sha256 cipher key scope commands) : one.1 ∈ commands := by
  induction commands using List.reverseRecOn with
  | nil => cases h
  | append_singleton commands command ih =>
    rw [applied, machine.yields_concat, List.mem_append] at h
    obtain h | h := h
    · exact List.mem_append_left _ (ih h)
    · rw [Option.mem_toList, taken] at h
      split at h
      · split at h
        · cases h
        · cases h
          exact List.mem_append_right _ (List.mem_singleton_self _)
      · cases h

/-- Environment configuration is an exactly-once revisioned map. After any commands, the revision counts the applied
    ones and each has its audit event; a further command takes effect exactly when its operation is new, its expected
    revision is current and it is admissible, and otherwise leaves everything as it is and answers an error, or the
    original result if it repeats an applied command; every applied command can be repeated, by whom, when and with
    whatever nonce; there are at most 512 entries; and a name resolves to the value that the last applied command on it
    set, under the kind it set. -/
theorem configuration_exactly_once (commands : List Command) :
    let t := tables sha256 cipher key scope commands
    let log := applied sha256 cipher key scope commands
    (load_revision t = log.length ∧ (log.map (·.1.operation_id)).Nodup ∧
      (∀ n, n ∈ t.audit ↔ 0 < n ∧ n ≤ log.length) ∧
      ∀ i row, t.audit[i + 1]? = some row → ∀ one, log[i]? = some one → Audited (i + 1) one.1 row) ∧
    (∀ command, (taken sha256 cipher key scope t command).isSome ↔
      (∀ one ∈ log, one.1.operation_id ≠ command.operation_id) ∧ command.expected_revision.toNat = log.length ∧
        command.Admissible t) ∧
    (∀ command, taken sha256 cipher key scope t command = none → step sha256 cipher key scope t command = t ∧
      ∀ result, outcome sha256 cipher key scope t command = .ok result → ∃ one ∈ log,
        one.1.operation_id = command.operation_id ∧ result = { one.2 with replayed := true } ∧
          (CollisionFree sha256 scope (command :: commands) → one.1.intent = command.intent)) ∧
    (∀ one ∈ log, one.1.validate = .ok () ∧ ∀ command, command.operation_id = one.1.operation_id →
      command.intent = one.1.intent → command.validate = .ok () →
        outcome sha256 cipher key scope t command = .ok { one.2 with replayed := true }) ∧
    t.entries.size ≤ MAX_ENTRIES ∧
    ∀ name kind, resolve_exact cipher key scope t name kind =
      match last_on name log with
      | some one =>
        match one.1.value with
        | some value => if one.1.kind = some kind then .ok value else .error .NotFound
        | none => .error .NotFound
      | none => .error .NotFound := by
  intro t log
  have h : Represents sha256 cipher key scope log t := represents_run commands
  refine ⟨⟨h.revision, h.distinct, h.mem_audit, h.audited⟩, ?_, ?_, ?_, h.size, ?_⟩
  · intro command
    rw [← h.operations_none, ← h.revision, eq_comm (a := command.expected_revision.toNat)]
    by_cases hnew : command.New t
    · obtain ⟨hcurrent, hadmissible, result, htaken, _⟩ | ⟨hnot, _, htaken, _⟩ := h.step_new hnew
      · rw [htaken]
        exact ⟨fun _ => ⟨hnew, hcurrent, hadmissible⟩, fun _ => rfl⟩
      · rw [htaken]
        exact ⟨nofun, fun hall => absurd hall.2 hnot⟩
    · rw [(h.step_known hnew).2.1]
      exact ⟨nofun, fun hall => absurd hall.1 hnew⟩
  · intro command htaken
    by_cases hnew : command.New t
    · obtain ⟨_, _, _, hsome, _⟩ | ⟨_, hstep, _, error, herror⟩ := h.step_new hnew
      · rw [htaken] at hsome
        cases hsome
      · refine ⟨hstep, fun result hresult => ?_⟩
        rw [herror] at hresult
        cases hresult
    · obtain ⟨hstep, _, hresult⟩ := h.step_known hnew
      refine ⟨hstep, fun result hok => ?_⟩
      obtain ⟨one, hmem, hoperation, hdigest, rfl⟩ := hresult result hok
      refine ⟨one, hmem, hoperation, rfl, fun hcollision => ?_⟩
      exact hcollision.intent (List.mem_cons_of_mem _ (mem_of_mem_applied hmem)) List.mem_cons_self hdigest
  · intro one hmem
    obtain ⟨i, hi⟩ := List.getElem?_of_mem hmem
    have hresulted := h.resulted i one hi
    have hvalidate : one.1.validate = .ok () := by
      obtain ⟨command, result⟩ := one
      cases command with
      | Set => exact hresulted.1
      | Delete => exact if_neg (Int64.not_lt.mpr hresulted.1)
    refine ⟨hvalidate, fun command hoperation hintent hvalid => ?_⟩
    rw [outcome, h.perform_known hmem hoperation.symm, hvalid, ok_bind,
      if_neg (not_not.mpr (digest_eq_of_intent hintent.symm))]
    rfl
  · intro name kind
    cases hlast : last_on name log with
    | none =>
      have hnone : t.entries[name]? = none := by rw [h.entries, hlast]; rfl
      simp [resolve_exact, resolve_kind, hnone]
    | some one =>
      obtain ⟨hmem, rfl⟩ := mem_of_last_on hlast
      obtain ⟨i, hi⟩ := List.getElem?_of_mem hmem
      refine resolve_stored_row (h.resulted i one hi) ?_ kind
      rw [h.entries, hlast]
      rfl

end

/-- A cipher to run the model with: it appends sixteen zero bytes. -/
def plain_cipher : Aes256Gcm where
  encrypt _ _ _ message := message ++ List.replicate 16 0
  decrypt _ _ _ ciphertext :=
    let message := ciphertext.take (ciphertext.length - 16)
    if ciphertext = message ++ List.replicate 16 0 then some message else none
  decrypt_eq_some_iff _ _ _ ciphertext message := by
    simp only [Option.ite_none_right_eq_some, Option.some.injEq]
    constructor
    · rintro ⟨h, rfl⟩
      exact h
    · rintro rfl
      simp
  length_encrypt _ _ _ message := by simp

def some_scope : EnvironmentScope := ⟨⟨.from_nat 0⟩, ⟨.from_nat 0⟩⟩

def flag : ConfigurationName := ⟨"FLAG", by decide +kernel⟩

/-- Sets the flag as the given operation. -/
def set_flag (operation : Nat) (expected : UInt64) (kind : ConfigurationKind) (value : String)
    (occurred_at : TimestampMicros) : Command :=
  .Set ⟨.from_nat operation⟩ ⟨.from_nat 0⟩ expected flag kind value occurred_at (Vector.replicate 12 0)

def flag_tables (commands : List Command) : Tables :=
  tables data.checksum plain_cipher (Vector.replicate 32 0) some_scope commands

def flag_applied (commands : List Command) : List Applied :=
  applied data.checksum plain_cipher (Vector.replicate 32 0) some_scope commands

def flag_outcome (commands : List Command) (command : Command) :
    Except ConfigurationError ConfigurationMutationResult :=
  outcome data.checksum plain_cipher (Vector.replicate 32 0) some_scope (flag_tables commands) command

/-- An update that is dated before the entry was created is refused, although its operation is new, its expected
    revision is current and its value is valid. -/
theorem backdated_set_is_refused :
    let commands := [set_flag 1 0 .Variable "on" 5]
    let command := set_flag 2 1 .Variable "off" 3
    (∀ one ∈ flag_applied commands, one.1.operation_id ≠ command.operation_id) ∧
      command.expected_revision.toNat = (flag_applied commands).length ∧ command.validate = .ok () ∧
      flag_outcome commands command = .error .Unavailable := by
  decide +kernel

/-- A variable that becomes a secret: two revisions, and both commands can be repeated. -/
theorem flag_becomes_secret :
    let commands := [set_flag 1 0 .Variable "on" 5, set_flag 2 1 .Secret "hidden" 6]
    load_revision (flag_tables commands) = 2 ∧
      flag_outcome commands (set_flag 1 0 .Variable "on" 5) =
        .ok ⟨1, some ⟨some_scope, flag, .Variable, some "on", 1, 5, 5⟩, true⟩ ∧
      (flag_tables commands).entries.size ≤ MAX_ENTRIES ∧
      resolve_exact plain_cipher (Vector.replicate 32 0) some_scope (flag_tables commands) flag .Secret = .ok "hidden" := by
  intro commands
  have hlog : flag_applied commands =
      [(set_flag 1 0 .Variable "on" 5, ⟨1, some ⟨some_scope, flag, .Variable, some "on", 1, 5, 5⟩, false⟩),
        (set_flag 2 1 .Secret "hidden" 6, ⟨2, some ⟨some_scope, flag, .Secret, none, 2, 5, 6⟩, false⟩)] := by
    decide +kernel
  obtain ⟨⟨hrevision, _⟩, _, _, hrepeated, hsize, hresolve⟩ :=
    @configuration_exactly_once data.checksum plain_cipher (Vector.replicate 32 0) some_scope commands
  refine ⟨hrevision.trans (congrArg List.length hlog), ?_, hsize, ?_⟩
  · have hfirst := hrepeated (_, _) (hlog ▸ List.mem_cons_self)
    exact hfirst.2 _ rfl rfl hfirst.1
  · have hlast : last_on flag (flag_applied commands) =
        some (set_flag 2 1 .Secret "hidden" 6, ⟨2, some ⟨some_scope, flag, .Secret, none, 2, 5, 6⟩, false⟩) := by
      rw [hlog]
      rfl
    refine (hresolve flag .Secret).trans ?_
    rw [show applied _ _ _ _ commands = flag_applied commands from rfl, hlast]
    rfl

end runku.environment_configuration
