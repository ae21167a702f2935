import Runku.DataSqlite.Environment

/-! `runku-data-sqlite/src/adapter.rs`: a snapshot answers every read from the rows of one moment. -/

namespace runku.data_sqlite

open runku.core runku.value runku.data

def decode_document_row (key : DocumentKey) (row : DocumentRow) : DocumentRecord where
  table_id := key.table_id
  document_id := key.document_id
  revision := row.revision.to_u64
  commit_sequence := row.commit_sequence
  created_at := row.created_at_micros
  updated_at := row.updated_at_micros
  value := row.value

def Environment.get_document (env : Environment) (table_id : TableId) (document_id : DocumentId) :
    Except StoreError (Option DocumentRecord) :=
  .ok ((env.documents[(⟨table_id, document_id⟩ : DocumentKey)]?).map
    (decode_document_row ⟨table_id, document_id⟩))

/-- The conditions a range adds to the query of a scan. -/
def push_range (range : IndexRange) (key_bytes : List UInt8) : Bool :=
  (match range.lower with
    | .Unbounded => true
    | .Inclusive value => decide (key_bytes ≥ value)
    | .Exclusive value => decide (key_bytes > value)) &&
  (match range.upper with
    | .Unbounded => true
    | .Inclusive value => decide (key_bytes ≤ value)
    | .Exclusive value => decide (key_bytes < value))

def decode_index_row (row : IndexEntryKey × IndexEntryRow) : Except StoreError IndexEntry :=
  match IndexKey.decode row.1.key_bytes with
  | .error _ => .error .Corruption
  | .ok key => .ok {
      index_id := row.1.index_id
      key
      table_id := row.2.table_id
      document_id := row.1.document_id
      document_revision := row.2.document_revision.to_u64
      commit_sequence := row.2.commit_sequence }

/-- The rows of a scan. The table lists the entries of an index by key and then by document, which is
the order that the query asks for. -/
def Environment.scan_rows (env : Environment) (index_id : IndexId) (range : IndexRange) (limit : Nat) :
    List (IndexEntryKey × IndexEntryRow) :=
  (env.index_entries.toList.filter fun row =>
    row.1.index_id = index_id && push_range range row.1.key_bytes).take limit

def Environment.scan_index (env : Environment) (index_id : IndexId) (range : IndexRange) (limit : Nat) :
    Except StoreError (List IndexEntry) := do
  range.validate limit
  (env.scan_rows index_id range limit).mapM decode_index_row

def Environment.begin_read (env : Environment) : ReadSnapshot where
  commit_sequence := env.sequence
  get_document := env.get_document
  scan_index := env.scan_index

end runku.data_sqlite
