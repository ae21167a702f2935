import Runku.Execution.Query

/-! `runku-realtime/src/lib.rs`. -/

namespace runku.realtime

open runku.core runku.value runku.execution

def MAX_DOCUMENT_IMPACTS : Nat := 1000
def MAX_INDEX_IMPACTS : Nat := 10000

inductive RealtimeError
  | InvalidImpact
  | LimitExceeded
  | InvalidConfiguration
  | InvalidOutcome
  | AlreadyExists
  | NotFound
  | StaleTicket
  | Internal
  | PendingWork
  deriving DecidableEq

inductive DocumentImpactKind
  | Insert
  | Replace
  | Delete
  deriving DecidableEq

structure DocumentImpact where
  table_id : TableId
  document_id : DocumentId
  kind : DocumentImpactKind
  deriving DecidableEq

inductive IndexImpactKind
  | Delete
  | Put
  deriving DecidableEq

structure IndexImpact where
  index_id : IndexId
  key : IndexKey
  document_id : DocumentId
  kind : IndexImpactKind
  deriving DecidableEq

structure ChangeImpact where
  documents : List DocumentImpact
  indexes : List IndexImpact
  deriving DecidableEq

def parse_id {PREFIX : String} (value : String) : Except RealtimeError (ResourceId PREFIX) :=
  match ResourceId.from_str value with
  | .ok id => .ok id
  | .error _ => .error .InvalidImpact

/-- An object with exactly the given fields. -/
def exact_object (value : CanonicalValue) (keys : List String) : Except RealtimeError Fields :=
  match value with
  | .Object object =>
    if object.length ≠ keys.length ∨ keys.any fun key => (Fields.get object key).isNone then .error .InvalidImpact
    else .ok object
  | _ => .error .InvalidImpact

def string : Option CanonicalValue → Except RealtimeError String
  | some (.String value) => .ok value
  | _ => .error .InvalidImpact

def bytes : Option CanonicalValue → Except RealtimeError (List UInt8)
  | some (.Bytes value) => .ok value
  | _ => .error .InvalidImpact

def array : Option CanonicalValue → Except RealtimeError (List CanonicalValue)
  | some (.Array values) => .ok values
  | _ => .error .InvalidImpact

def decode_document_kind : String → Except RealtimeError DocumentImpactKind
  | "insert" => .ok .Insert
  | "replace" => .ok .Replace
  | "delete" => .ok .Delete
  | _ => .error .InvalidImpact

def decode_document_impact (value : CanonicalValue) : Except RealtimeError DocumentImpact := do
  let raw ← exact_object value ["documentId", "kind", "tableId"]
  let table_id ← parse_id (← string (Fields.get raw "tableId"))
  let document_id ← parse_id (← string (Fields.get raw "documentId"))
  let kind ← decode_document_kind (← string (Fields.get raw "kind"))
  return ⟨table_id, document_id, kind⟩

def decode_index_kind : String → Except RealtimeError IndexImpactKind
  | "delete" => .ok .Delete
  | "put" => .ok .Put
  | _ => .error .InvalidImpact

def decode_index_key (key : List UInt8) : Except RealtimeError IndexKey :=
  match IndexKey.decode key with
  | .ok key => .ok key
  | .error _ => .error .InvalidImpact

def decode_index_impact (value : CanonicalValue) : Except RealtimeError IndexImpact := do
  let raw ← exact_object value ["documentId", "indexId", "key", "kind"]
  let index_id ← parse_id (← string (Fields.get raw "indexId"))
  let document_id ← parse_id (← string (Fields.get raw "documentId"))
  let key ← decode_index_key (← bytes (Fields.get raw "key"))
  let kind ← decode_index_kind (← string (Fields.get raw "kind"))
  return ⟨index_id, key, document_id, kind⟩

/-- Decodes a list of impacts and rejects the first that repeats the identity of an earlier one. -/
def decode_unique {α κ : Type} [DecidableEq κ] (decode : CanonicalValue → Except RealtimeError α)
    (identity : α → κ) : List κ → List CanonicalValue → Except RealtimeError (List α)
  | _, [] => .ok []
  | seen, value :: values => do
    let impact ← decode value
    if identity impact ∈ seen then .error .InvalidImpact
    else
      let impacts ← decode_unique decode identity (identity impact :: seen) values
      return impact :: impacts

def ChangeImpact.decode (value : CanonicalValue) : Except RealtimeError ChangeImpact := do
  let object ← exact_object value ["indexes", "type", "writes"]
  let type ← string (Fields.get object "type")
  if type ≠ "document_write_set_v2" then .error .InvalidImpact
  else
    let writes ← array (Fields.get object "writes")
    let index_values ← array (Fields.get object "indexes")
    if writes.length > MAX_DOCUMENT_IMPACTS ∨ index_values.length > MAX_INDEX_IMPACTS then
      .error .LimitExceeded
    else
      let documents ← decode_unique decode_document_impact
        (fun impact => (impact.table_id, impact.document_id)) [] writes
      let indexes ← decode_unique decode_index_impact
        (fun impact => (impact.index_id, impact.key.as_bytes, impact.document_id, impact.kind)) [] index_values
      return ⟨documents, indexes⟩

def key_in_bounds (key : List UInt8) (lower upper : DependencyBound) : Bool :=
  let above_lower := match lower with
    | .Unbounded => true
    | .Inclusive value => decide (key ≥ value)
    | .Exclusive value => decide (key > value)
  let below_upper := match upper with
    | .Unbounded => true
    | .Inclusive value => decide (key ≤ value)
    | .Exclusive value => decide (key < value)
  above_lower && below_upper

/-- Whether an impact touches one dependency. -/
def ChangeImpact.touches (impact : ChangeImpact) : ReadDependency → Bool
  | .Point table_id document_id _ _ =>
    impact.documents.any fun document => document.table_id = table_id && document.document_id = document_id
  | .Range index_id lower upper _ =>
    impact.indexes.any fun index => index.index_id = index_id && key_in_bounds index.key.as_bytes lower upper

def ChangeImpact.invalidates (impact : ChangeImpact) (dependencies : List ReadDependency) : Bool :=
  dependencies.any impact.touches

end runku.realtime
