import Runku.Data.Digest

/-!
`runku-environment-configuration/src/lib.rs`. The nonce of a sealed secret is an argument of the command that seals it;
SHA-256 and AES-256-GCM are parameters.
-/

namespace runku.environment_configuration

open Std (ExtTreeMap)
open runku.core
open runku.value (TimestampMicros)
open runku.data (Sha256Digest)
open bytes

def MAX_NAME_BYTES : Nat := 64
def MAX_VARIABLE_BYTES : Nat := 16 * 1024
def MAX_SECRET_BYTES : Nat := 64 * 1024
def MAX_ENTRIES : Nat := 512

inductive ConfigurationError
  | InvalidInput
  | LimitExceeded
  | NotFound
  | Conflict
  | OperationIdReused
  | Busy
  | Unavailable
  | Corruption
  | Internal
  deriving DecidableEq

abbrev OperatorId := ResourceId "opr_"

/-- The texts that `ConfigurationName::from_str` accepts. -/
def name_text (value : String) : Bool :=
  value ≠ "" && (as_bytes value).length ≤ MAX_NAME_BYTES && value.toList.head? ≠ some '_' &&
    (as_bytes value).all fun byte => is_ascii_uppercase byte || is_ascii_digit byte || byte = 95

structure ConfigurationName where
  as_str : String
  is_valid : name_text as_str = true
  deriving DecidableEq

instance : LinearOrder ConfigurationName :=
  LinearOrder.lift' ConfigurationName.as_str fun a b h => by cases a; cases b; simp_all

inductive ConfigurationKind
  | Variable
  | Secret
  deriving DecidableEq

def ConfigurationKind.as_str : ConfigurationKind → String
  | .Variable => "variable"
  | .Secret => "secret"

/-- What a command does to its name, as journal and audit spell it. -/
inductive ConfigurationAction
  | Set
  | Delete
  deriving DecidableEq

def ConfigurationAction.as_str : ConfigurationAction → String
  | .Set => "set"
  | .Delete => "delete"

structure ConfigurationEntry where
  scope : EnvironmentScope
  name : ConfigurationName
  kind : ConfigurationKind
  variable_value : Option String
  revision : Nat
  created_at : TimestampMicros
  updated_at : TimestampMicros
  deriving DecidableEq

structure ConfigurationMutationResult where
  configuration_revision : Nat
  entry : Option ConfigurationEntry
  replayed : Bool
  deriving DecidableEq

structure ConfigurationSnapshot where
  configuration_revision : Nat
  entries : List ConfigurationEntry
  deriving DecidableEq

structure EntryRow where
  kind : ConfigurationKind
  variable_value : Option String
  secret_nonce : Option (List UInt8)
  secret_ciphertext : Option (List UInt8)
  revision : Nat
  created_at : TimestampMicros
  updated_at : TimestampMicros
  deriving DecidableEq

/-- The `CHECK` constraints of the table. -/
def EntryRow.checked (row : EntryRow) : Bool :=
  0 < row.revision && 0 ≤ row.created_at && row.created_at ≤ row.updated_at &&
    match row.kind with
    | .Variable => row.variable_value.isSome && row.secret_nonce.isNone && row.secret_ciphertext.isNone
    | .Secret => row.variable_value.isNone && row.secret_nonce.isSome && row.secret_ciphertext.isSome

structure OperationRow where
  command_digest : Sha256Digest
  name : ConfigurationName
  action : ConfigurationAction
  configuration_revision : Nat
  result_kind : Option ConfigurationKind
  result_variable_value : Option String
  result_entry_revision : Option Nat
  result_created_at : Option TimestampMicros
  result_updated_at : Option TimestampMicros
  completed_at : TimestampMicros

/-- The `CHECK` constraints of the table. -/
def OperationRow.checked (row : OperationRow) : Bool :=
  0 < row.configuration_revision && row.result_entry_revision.all (0 < ·) && row.result_created_at.all (0 ≤ ·) &&
    (match row.result_created_at, row.result_updated_at with
      | some created_at, some updated_at => created_at ≤ updated_at
      | _, _ => true) &&
    0 ≤ row.completed_at &&
    match row.action with
    | .Delete =>
      row.result_kind.isNone && row.result_variable_value.isNone && row.result_entry_revision.isNone &&
        row.result_created_at.isNone && row.result_updated_at.isNone
    | .Set =>
      row.result_entry_revision.isSome && row.result_created_at.isSome && row.result_updated_at.isSome &&
        match row.result_kind with
        | some .Variable => row.result_variable_value.isSome
        | some .Secret => row.result_variable_value.isNone
        | none => false

structure AuditRow where
  operation_id : OperationId
  actor : OperatorId
  name : ConfigurationName
  action : ConfigurationAction
  kind : ConfigurationKind
  configuration_revision : Nat
  occurred_at : TimestampMicros
  deriving DecidableEq

/-- The `CHECK` constraints of the table. -/
def AuditRow.checked (sequence : Nat) (row : AuditRow) : Bool :=
  0 < sequence && 0 < row.configuration_revision && 0 ≤ row.occurred_at

/-- The rows of one Environment. -/
structure Tables where
  revision : Option Nat
  entries : ExtTreeMap ConfigurationName EntryRow
  operations : ExtTreeMap OperationId OperationRow
  audit : ExtTreeMap Nat AuditRow

def Tables.empty : Tables := ⟨none, ∅, ∅, ∅⟩

def validate_value (kind : ConfigurationKind) (value : String) (occurred_at : TimestampMicros) :
    Except ConfigurationError Unit :=
  let maximum := match kind with
    | .Variable => MAX_VARIABLE_BYTES
    | .Secret => MAX_SECRET_BYTES
  if value = "" ∨ maximum < (as_bytes value).length ∨ '\x00' ∈ value.toList ∨ occurred_at < 0 then
    .error .InvalidInput
  else .ok ()

/-- A text behind its length, which saturates as in the source. -/
def digest_field (field : String) : List UInt8 :=
  let len := (as_bytes field).length
  to_be_bytes 8 (if len < 2 ^ 64 then len else 2 ^ 64 - 1) ++ as_bytes field

def to_i64 (value : Nat) : Except ConfigurationError Nat :=
  if value < 2 ^ 63 then .ok value else .error .LimitExceeded

/-- AES-256-GCM opens a ciphertext exactly when it is what sealing gives under the same key, nonce and associated
    data, and its tag has sixteen bytes. -/
structure Aes256Gcm where
  encrypt : (key : Vector UInt8 32) → (nonce aad message : List UInt8) → List UInt8
  decrypt : (key : Vector UInt8 32) → (nonce aad ciphertext : List UInt8) → Option (List UInt8)
  decrypt_eq_some_iff : ∀ key nonce aad ciphertext message,
    decrypt key nonce aad ciphertext = some message ↔ ciphertext = encrypt key nonce aad message
  length_encrypt : ∀ key nonce aad message, (encrypt key nonce aad message).length = message.length + 16

section
variable (sha256 : List UInt8 → Sha256Digest) (cipher : Aes256Gcm) (key : Vector UInt8 32) (scope : EnvironmentScope)

/-- Everything `command_digest` feeds to the digest. -/
def digest_input (action : ConfigurationAction) (expected : UInt64) (name : ConfigurationName)
    (kind : Option ConfigurationKind) (value : Option String) : List UInt8 :=
  digest_field action.as_str ++ (digest_field scope.project_id.to_string ++
    (digest_field scope.environment_id.to_string ++ (digest_field name.as_str ++ (to_be_bytes 8 expected.toNat ++
      (as_bytes (kind.elim "" ConfigurationKind.as_str) ++ value.elim [] fun value => (sha256 (as_bytes value)).toList)))))

def command_digest (action : ConfigurationAction) (expected : UInt64) (name : ConfigurationName)
    (kind : Option ConfigurationKind) (value : Option String) : Sha256Digest :=
  sha256 (digest_input sha256 scope action expected name kind value)

def aad (name : ConfigurationName) (revision : Nat) : List UInt8 :=
  as_bytes ("runku-environment-configuration-v1\x00" ++ scope.project_id.to_string ++ "\x00" ++
    scope.environment_id.to_string ++ "\x00" ++ name.as_str ++ "\x00" ++ toString revision)

def «seal» (nonce : Vector UInt8 12) (name : ConfigurationName) (revision : Nat) (plaintext : List UInt8) :
    List UInt8 × List UInt8 :=
  (nonce.toList, cipher.encrypt key nonce.toList (aad scope name revision) plaintext)

def «open» (name : ConfigurationName) (revision : Nat) (nonce ciphertext : List UInt8) :
    Except ConfigurationError String :=
  if nonce.length ≠ 12 ∨ ciphertext.length < 16 ∨ MAX_SECRET_BYTES + 16 < ciphertext.length then .error .Corruption
  else
    match cipher.decrypt key nonce (aad scope name revision) ciphertext with
    | none => .error .Corruption
    | some plaintext =>
      match from_utf8 plaintext with
      | none => .error .Corruption
      | some value =>
        match validate_value .Secret value 0 with
        | .error _ => .error .Corruption
        | .ok () => .ok value

def load_revision (t : Tables) : Nat := t.revision.getD 0

def decode_entry (name : ConfigurationName) (row : EntryRow) : Except ConfigurationError ConfigurationEntry :=
  if (row.kind = .Variable) ≠ (row.variable_value.isSome = true) then .error .Corruption
  else if row.variable_value.any fun value => !(validate_value row.kind value 0).isOk then .error .Corruption
  else if row.created_at < 0 ∨ row.updated_at < row.created_at then .error .Corruption
  else .ok ⟨scope, name, row.kind, row.variable_value, row.revision, row.created_at, row.updated_at⟩

def load_entry (t : Tables) (name : ConfigurationName) : Except ConfigurationError (Option ConfigurationEntry) :=
  match t.entries[name]? with
  | none => .ok none
  | some row => some <$> decode_entry scope name row

/-- The rows that the second statement of `snapshot` reads, decoded. -/
def snapshot_entries (t : Tables) : Except ConfigurationError (List ConfigurationEntry) :=
  if MAX_ENTRIES < t.entries.size then .error .Corruption
  else t.entries.toList.mapM fun (name, row) => decode_entry scope name row

def resolve_kind (t : Tables) (name : ConfigurationName) (expected_kind : Option ConfigurationKind) :
    Except ConfigurationError String :=
  match t.entries[name]? with
  | none => .error .NotFound
  | some row =>
    if expected_kind.any (· ≠ row.kind) then .error .NotFound
    else
      match row.kind with
      | .Variable =>
        match row.variable_value with
        | none => .error .Corruption
        | some value => do
          validate_value .Variable value 0
          return value
      | .Secret =>
        match row.secret_nonce, row.secret_ciphertext with
        | some nonce, some ciphertext => «open» cipher key scope name row.revision nonce ciphertext
        | _, _ => .error .Corruption

def resolve_exact (t : Tables) (name : ConfigurationName) (expected_kind : ConfigurationKind) :
    Except ConfigurationError String :=
  resolve_kind cipher key scope t name (some expected_kind)

/-- The result columns of a `set`, read back. -/
def decode_result (row : OperationRow) : Except ConfigurationError ConfigurationEntry :=
  match row.result_kind, row.result_entry_revision, row.result_created_at, row.result_updated_at with
  | some kind, some revision, some created_at, some updated_at =>
    if (kind = .Variable) ≠ (row.result_variable_value.isSome = true) then .error .Corruption
    else if created_at < 0 ∨ updated_at < created_at ∨ revision ≠ row.configuration_revision ∨
        (row.result_variable_value.any fun value => !(validate_value kind value 0).isOk) then
      .error .Corruption
    else .ok ⟨scope, row.name, kind, row.result_variable_value, revision, created_at, updated_at⟩
  | _, _, _, _ => .error .Corruption

def replay (t : Tables) (operation_id : OperationId) (digest : Sha256Digest) :
    Except ConfigurationError (Option ConfigurationMutationResult) :=
  match t.operations[operation_id]? with
  | none => .ok none
  | some row =>
    if row.command_digest ≠ digest then .error .OperationIdReused
    else
      match row.action with
      | .Set => do
        let entry ← decode_result scope row
        return some ⟨row.configuration_revision, some entry, true⟩
      | .Delete => .ok (some ⟨row.configuration_revision, none, true⟩)

/-- The upsert keeps the creation time that is there. A row that breaks a constraint is an error of the backend. -/
def upsert_entry (t : Tables) (name : ConfigurationName) (row : EntryRow) : Except ConfigurationError Tables :=
  let row := match t.entries[name]? with
    | none => row
    | some existing => { row with created_at := existing.created_at }
  if row.checked then .ok { t with entries := t.entries.insert name row } else .error .Unavailable

def persist_revision (t : Tables) (revision : Nat) : Except ConfigurationError Tables := do
  let revision ← to_i64 revision
  return { t with revision := some revision }

def operation_row (name : ConfigurationName) (action : ConfigurationAction) (revision : Nat)
    (occurred_at : TimestampMicros) (digest : Sha256Digest) (result_entry : Option ConfigurationEntry) : OperationRow where
  command_digest := digest
  name := name
  action := action
  configuration_revision := revision
  result_kind := result_entry.map (·.kind)
  result_variable_value := result_entry.bind (·.variable_value)
  result_entry_revision := result_entry.map (·.revision)
  result_created_at := result_entry.map (·.created_at)
  result_updated_at := result_entry.map (·.updated_at)
  completed_at := occurred_at

def insert_operation (t : Tables) (operation_id : OperationId) (row : OperationRow) : Except ConfigurationError Tables :=
  if operation_id ∈ t.operations ∨ !row.checked then .error .Unavailable
  else .ok { t with operations := t.operations.insert operation_id row }

/-- `COALESCE(MAX(sequence),0)+1`. -/
def next_sequence (t : Tables) : Nat := (t.audit.toList.map Prod.fst).max?.getD 0 + 1

def insert_audit (t : Tables) (sequence : Nat) (row : AuditRow) : Except ConfigurationError Tables :=
  if sequence ∈ t.audit ∨ (t.audit.toList.any fun (_, other) => other.operation_id = row.operation_id) ∨
      !row.checked sequence then
    .error .Unavailable
  else .ok { t with audit := t.audit.insert sequence row }

def persist_operation_and_audit (t : Tables) (operation_id : OperationId) (actor : OperatorId) (name : ConfigurationName)
    (action : ConfigurationAction) (kind : ConfigurationKind) (revision : Nat) (occurred_at : TimestampMicros)
    (digest : Sha256Digest) (result_entry : Option ConfigurationEntry) : Except ConfigurationError Tables := do
  let revision ← to_i64 revision
  let t ← insert_operation t operation_id (operation_row name action revision occurred_at digest result_entry)
  insert_audit t (next_sequence t) ⟨operation_id, actor, name, action, kind, revision, occurred_at⟩

def next_revision (current_revision : Nat) : Except ConfigurationError Nat :=
  if current_revision + 1 < 2 ^ 64 then .ok (current_revision + 1) else .error .LimitExceeded

/-- The row that `set` writes. -/
def entry_row (nonce : Vector UInt8 12) (name : ConfigurationName) (kind : ConfigurationKind) (value : String)
    (revision : Nat) (created_at updated_at : TimestampMicros) : EntryRow :=
  match kind with
  | .Variable => ⟨kind, some value, none, none, revision, created_at, updated_at⟩
  | .Secret =>
    let envelope := «seal» cipher key scope nonce name revision (as_bytes value)
    ⟨kind, none, some envelope.1, some envelope.2, revision, created_at, updated_at⟩

def set (t : Tables) (operation_id : OperationId) (actor : OperatorId) (expected_revision : UInt64)
    (name : ConfigurationName) (kind : ConfigurationKind) (value : String) (occurred_at : TimestampMicros)
    (nonce : Vector UInt8 12) : Except ConfigurationError (ConfigurationMutationResult × Tables) := do
  validate_value kind value occurred_at
  let digest := command_digest sha256 scope .Set expected_revision name (some kind) (some value)
  match ← replay scope t operation_id digest with
  | some result => .ok (result, t)
  | none =>
    if load_revision t ≠ expected_revision.toNat then .error .Conflict
    else do
      let existing ← load_entry scope t name
      if existing = none ∧ MAX_ENTRIES ≤ t.entries.size then .error .LimitExceeded
      else do
        let revision ← next_revision (load_revision t)
        let existing_created := existing.elim occurred_at (·.created_at)
        let revision ← to_i64 revision
        let t ← upsert_entry t name
          (entry_row cipher key scope nonce name kind value revision existing_created occurred_at)
        let t ← persist_revision t revision
        match ← load_entry scope t name with
        | none => .error .Corruption
        | some entry =>
          let t ← persist_operation_and_audit t operation_id actor name .Set kind revision occurred_at digest (some entry)
          .ok (⟨revision, some entry, false⟩, t)

def delete (t : Tables) (operation_id : OperationId) (actor : OperatorId) (expected_revision : UInt64)
    (name : ConfigurationName) (occurred_at : TimestampMicros) :
    Except ConfigurationError (ConfigurationMutationResult × Tables) :=
  if occurred_at < 0 then .error .InvalidInput
  else do
    let digest := command_digest sha256 scope .Delete expected_revision name none none
    match ← replay scope t operation_id digest with
    | some result => .ok (result, t)
    | none =>
      if load_revision t ≠ expected_revision.toNat then .error .Conflict
      else do
        match ← load_entry scope t name with
        | none => .error .NotFound
        | some current =>
          let revision ← next_revision (load_revision t)
          -- the row was just read in this transaction, so the statement affects it
          let t := { t with entries := t.entries.erase name }
          let t ← persist_revision t revision
          let t ← persist_operation_and_audit t operation_id actor name .Delete current.kind revision occurred_at digest
            none
          .ok (⟨revision, none, false⟩, t)

/-- A call of `set`, with the random bytes it draws, or of `delete`. -/
inductive Command
  | Set (operation_id : OperationId) (actor : OperatorId) (expected_revision : UInt64) (name : ConfigurationName)
      (kind : ConfigurationKind) (value : String) (occurred_at : TimestampMicros) (nonce : Vector UInt8 12)
  | Delete (operation_id : OperationId) (actor : OperatorId) (expected_revision : UInt64) (name : ConfigurationName)
      (occurred_at : TimestampMicros)
  deriving DecidableEq

/-- One command in its transaction: a failed one leaves the tables alone. -/
def perform (t : Tables) : Command → Except ConfigurationError (ConfigurationMutationResult × Tables)
  | .Set operation_id actor expected_revision name kind value occurred_at nonce =>
    set sha256 cipher key scope t operation_id actor expected_revision name kind value occurred_at nonce
  | .Delete operation_id actor expected_revision name occurred_at =>
    delete sha256 scope t operation_id actor expected_revision name occurred_at

end

end runku.environment_configuration
