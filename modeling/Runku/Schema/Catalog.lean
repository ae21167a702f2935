import Runku.Data.Digest
import Runku.Lib.ByteReader

/-! `runku-schema/src/lib.rs`: what the constructors check is carried by the types. -/

namespace runku.schema

open Std (ExtTreeMap)
open runku.core runku.value runku.data bytes

def CATALOG_RESOURCE_MAGIC : List UInt8 := as_bytes "RUNKU_INDEX_CATALOG_RESOURCE_V1\n"
def CATALOG_RESOURCE_MAX_BYTES : Nat := 1024 * 1024
def MAX_INDEXES : Nat := 1000
def MAX_FIELDS : Nat := 16
def MAX_PATH_SEGMENTS : Nat := 16
def MAX_NAME_BYTES : Nat := 64

inductive SchemaError
  | InvalidCatalog
  | InvalidName
  | LimitExceeded
  | UnsupportedValue
  deriving DecidableEq

def valid_name (value : String) : Bool :=
  match as_bytes value with
  | [] => false
  | first :: rest =>
    (as_bytes value).length ≤ MAX_NAME_BYTES && (is_ascii_alphabetic first || first = 95) &&
      rest.all fun byte => is_ascii_alphanumeric byte || byte = 95

def FieldPath.validate (segments : List String) : Except SchemaError Unit :=
  if segments.isEmpty ∨ segments.length > MAX_PATH_SEGMENTS then .error .LimitExceeded
  else if segments.any fun segment => !valid_name segment then .error .InvalidName
  else .ok ()

/-- The path of an object property. -/
structure FieldPath where
  segments : List String
  valid : FieldPath.validate segments = .ok ()
  deriving DecidableEq

def FieldPath.new (segments : List String) : Except SchemaError FieldPath :=
  match h : FieldPath.validate segments with
  | .error error => .error error
  | .ok _ => .ok ⟨segments, h⟩

def IndexDefinition.validate (name : String) (fields : List FieldPath) : Except SchemaError Unit :=
  if !valid_name name then .error .InvalidName
  else if fields.isEmpty ∨ fields.length > MAX_FIELDS then .error .LimitExceeded
  else if ¬fields.Nodup then .error .InvalidCatalog
  else .ok ()

structure IndexDefinition where
  index_id : IndexId
  table_id : TableId
  name : String
  fields : List FieldPath
  valid : IndexDefinition.validate name fields = .ok ()
  deriving DecidableEq

def IndexDefinition.new (index_id : IndexId) (table_id : TableId) (name : String) (fields : List FieldPath) :
    Except SchemaError IndexDefinition :=
  match h : IndexDefinition.validate name fields with
  | .error error => .error error
  | .ok _ => .ok ⟨index_id, table_id, name, fields, h⟩

def hex_char (digit : Nat) : UInt8 := (as_bytes "0123456789abcdef").getD digit 48

/-- A count as eight lowercase hexadecimal digits. -/
def write_count (n : Nat) : List UInt8 := (radix.digits 16 8 n).map hex_char

def push_count (count : Nat) : Except SchemaError (List UInt8) :=
  if count < 2 ^ 32 then .ok (write_count count) else .error .LimitExceeded

def push_text (value : String) : Except SchemaError (List UInt8) := do
  let count ← push_count (as_bytes value).length
  return count ++ as_bytes value

def encode_path (path : FieldPath) : Except SchemaError (List UInt8) := do
  let count ← push_count path.segments.length
  let segments ← path.segments.mapM push_text
  return count ++ segments.flatten

def encode_definition (index : IndexDefinition) : Except SchemaError (List UInt8) := do
  let index_id ← push_text index.index_id.to_string
  let table_id ← push_text index.table_id.to_string
  let name ← push_text index.name
  let count ← push_count index.fields.length
  let fields ← index.fields.mapM encode_path
  return index_id ++ table_id ++ name ++ count ++ fields.flatten

/-- The bytes of the catalog resource. The source stops as soon as they are too many. -/
def encode_schema_catalog (project_id : ProjectId) (indexes : List IndexDefinition) :
    Except SchemaError (List UInt8) := do
  let project ← push_text project_id.to_string
  let count ← push_count indexes.length
  let definitions ← indexes.mapM encode_definition
  let output := CATALOG_RESOURCE_MAGIC ++ project ++ count ++ definitions.flatten
  if output.length > CATALOG_RESOURCE_MAX_BYTES then .error .LimitExceeded
  else return output

/-- The active index definitions of one Project, in the order of their identities. -/
structure SchemaCatalog where
  project_id : ProjectId
  indexes : List IndexDefinition
  digest : Sha256Digest
  within_limit : indexes.length ≤ MAX_INDEXES
  sorted : indexes.Pairwise fun a b => a.index_id ≤ b.index_id
  ids_nodup : (indexes.map IndexDefinition.index_id).Nodup
  names_nodup : (indexes.map fun index => (index.table_id, index.name)).Nodup
  deriving DecidableEq

instance : Std.Total fun a b : IndexDefinition => a.index_id ≤ b.index_id :=
  ⟨fun a b => le_total a.index_id b.index_id⟩

instance : IsTrans IndexDefinition fun a b => a.index_id ≤ b.index_id :=
  ⟨fun _ _ _ h h' => le_trans h h'⟩

def SchemaCatalog.new (sha256 : List UInt8 → Sha256Digest) (project_id : ProjectId)
    (indexes : List IndexDefinition) : Except SchemaError SchemaCatalog :=
  if hlimit : indexes.length > MAX_INDEXES then .error .LimitExceeded
  else
    let canonical := indexes.insertionSort fun a b => a.index_id ≤ b.index_id
    if hnodup : (canonical.map IndexDefinition.index_id).Nodup ∧
        (canonical.map fun index => (index.table_id, index.name)).Nodup then
      match encode_schema_catalog project_id canonical with
      | .error error => .error error
      | .ok resource => .ok {
          project_id
          indexes := canonical
          digest := sha256 resource
          within_limit := by simpa [canonical, List.length_insertionSort] using hlimit
          sorted := List.pairwise_insertionSort _ indexes
          ids_nodup := hnodup.1
          names_nodup := hnodup.2 }
    else .error .InvalidCatalog

/-- The loop of `new` that lists the positions of the definitions by their tables. -/
def push_positions : List IndexDefinition → Nat → ExtTreeMap TableId (List Nat) → ExtTreeMap TableId (List Nat)
  | [], _, by_table => by_table
  | index :: indexes, position, by_table =>
    push_positions indexes (position + 1)
      (by_table.insert index.table_id (by_table[index.table_id]?.getD [] ++ [position]))

/-- The map that `new` stores beside the definitions; nothing changes it later. -/
def SchemaCatalog.by_table (catalog : SchemaCatalog) : ExtTreeMap TableId (List Nat) :=
  push_positions catalog.indexes 0 ∅

def SchemaCatalog.indexes_for_table (catalog : SchemaCatalog) (table_id : TableId) : List IndexDefinition :=
  (catalog.by_table[table_id]?.getD []).filterMap fun position => catalog.indexes[position]?

/-- The value at a path. A missing property is no value; a property of anything but an object is an
error. -/
def resolve : List String → CanonicalValue → Except SchemaError (Option CanonicalValue)
  | [], current => .ok (some current)
  | segment :: segments, .Object object =>
    match Fields.get object segment with
    | none => .ok none
    | some next => resolve segments next
  | _ :: _, _ => .error .UnsupportedValue

/-- The components of a key, as long as every path has a value. -/
def extract_values (document : CanonicalValue) : List FieldPath → Except SchemaError (Option (List IndexValue))
  | [] => .ok (some [])
  | path :: paths =>
    match resolve path.segments document with
    | .error error => .error error
    | .ok none => .ok none
    | .ok (some value) =>
      match IndexValue.try_from value with
      | .error _ => .error .UnsupportedValue
      | .ok value => (extract_values document paths).map (Option.map (value :: ·))

def extract_index_key (definition : IndexDefinition) (document : CanonicalValue) :
    Except SchemaError (Option IndexKey) :=
  match extract_values document definition.fields with
  | .error error => .error error
  | .ok none => .ok none
  | .ok (some values) =>
    match IndexKey.encode values with
    | .error _ => .error .LimitExceeded
    | .ok key => .ok (some key)

/-- The positions lead to the definitions of the table. -/
theorem filterMap_push_positions {table_id : TableId} (before indexes : List IndexDefinition)
    (by_table : ExtTreeMap TableId (List Nat)) :
    ((push_positions indexes before.length by_table)[table_id]?.getD []).filterMap ((before ++ indexes)[·]?) =
      (by_table[table_id]?.getD []).filterMap ((before ++ indexes)[·]?) ++
        indexes.filter fun index => index.table_id = table_id := by
  induction indexes generalizing before by_table with
  | nil => simp [push_positions]
  | cons index indexes ih =>
    have hnext := ih (before ++ [index])
      (by_table.insert index.table_id (by_table[index.table_id]?.getD [] ++ [before.length]))
    rw [List.length_append, List.length_singleton, List.append_assoc, List.singleton_append] at hnext
    rw [push_positions, hnext, ordered_map.getElem?_insert]
    by_cases htable : index.table_id = table_id
    · simp [htable, List.filterMap_append]
    · simp [htable]

theorem SchemaCatalog.indexes_for_table_eq_filter (catalog : SchemaCatalog) (table_id : TableId) :
    catalog.indexes_for_table table_id = catalog.indexes.filter fun index => index.table_id = table_id := by
  have hlist := @filterMap_push_positions table_id [] catalog.indexes ∅
  simpa [SchemaCatalog.indexes_for_table, SchemaCatalog.by_table] using hlist

theorem mem_indexes_for_table {catalog : SchemaCatalog} {table_id : TableId} {index : IndexDefinition} :
    index ∈ catalog.indexes_for_table table_id ↔ index ∈ catalog.indexes ∧ index.table_id = table_id := by
  simp [SchemaCatalog.indexes_for_table_eq_filter]

/-- An identity names one definition. -/
theorem SchemaCatalog.eq_of_index_id {catalog : SchemaCatalog} {a b : IndexDefinition} (ha : a ∈ catalog.indexes)
    (hb : b ∈ catalog.indexes) (h : a.index_id = b.index_id) : a = b :=
  List.inj_on_of_nodup_map catalog.ids_nodup ha hb h

section

open parser fallible

def is_hex (byte : UInt8) : Bool := is_ascii_digit byte || (97 ≤ byte && byte ≤ 102)

def hex_value (byte : UInt8) : Nat := if byte < 58 then byte.toNat - 48 else byte.toNat - 87

/-- Eight hexadecimal digits. Bytes that are not UTF-8 are no digits. -/
def count : Parser SchemaError UInt8 Nat := do
  let raw ← take .InvalidCatalog 8
  lift (if raw.all is_hex then .ok (radix.value 16 (raw.map hex_value)) else .error .InvalidCatalog)

def text : Parser SchemaError UInt8 String := do
  let length ← count
  utf8 .InvalidCatalog .InvalidCatalog length

def parse_id {PREFIX : String} (value : String) : Except SchemaError (ResourceId PREFIX) :=
  match ResourceId.from_str value with
  | .error _ => .error .InvalidCatalog
  | .ok id => .ok id

def resource_id {PREFIX : String} : Parser SchemaError UInt8 (ResourceId PREFIX) := do
  let value ← text
  lift (parse_id value)

def decode_path : Parser SchemaError UInt8 FieldPath := do
  let segment_count ← count
  if segment_count > MAX_PATH_SEGMENTS then lift (.error .LimitExceeded) else do
  let segments ← many text segment_count
  lift (FieldPath.new segments)

def decode_definition : Parser SchemaError UInt8 IndexDefinition := do
  let index_id ← resource_id
  let table_id ← resource_id
  let name ← text
  let field_count ← count
  if field_count > MAX_FIELDS then lift (.error .LimitExceeded) else do
  let fields ← many decode_path field_count
  lift (IndexDefinition.new index_id table_id name fields)

def decode_definitions : Parser SchemaError UInt8 (ProjectId × List IndexDefinition) := do
  let project_id ← resource_id
  let definition_count ← count
  if definition_count > MAX_INDEXES then lift (.error .LimitExceeded) else do
  let indexes ← many decode_definition definition_count
  return (project_id, indexes)

def decode_schema_catalog (sha256 : List UInt8 → Sha256Digest) (resource : List UInt8) :
    Except SchemaError SchemaCatalog :=
  if resource.length > CATALOG_RESOURCE_MAX_BYTES ∨ ¬CATALOG_RESOURCE_MAGIC <+: resource then .error .InvalidCatalog
  else do
  let ((project_id, indexes), rest) ← decode_definitions.run (resource.drop CATALOG_RESOURCE_MAGIC.length)
  if rest ≠ [] then .error .InvalidCatalog else do
  let catalog ← SchemaCatalog.new sha256 project_id indexes
  let encoded ← encode_schema_catalog catalog.project_id catalog.indexes
  if encoded ≠ resource then .error .InvalidCatalog else .ok catalog

def write_text (value : String) : List UInt8 := write_count (as_bytes value).length ++ as_bytes value

theorem push_count_eq {n : Nat} (h : n < 2 ^ 32) : push_count n = .ok (write_count n) := if_pos h

theorem push_text_eq {value : String} (h : (as_bytes value).length < 2 ^ 32) : push_text value = .ok (write_text value) := by
  rw [push_text, push_count_eq h]
  rfl

theorem reads_count : Reads count (· < 2 ^ 32) write_count := by
  have hdigit : ∀ digit : Fin 16, is_hex (hex_char digit) = true ∧ hex_value (hex_char digit) = digit := by
    decide +kernel
  have hbytes : ∀ byte : Fin 256, is_hex (UInt8.ofNat byte) = true → hex_value (UInt8.ofNat byte) < 16 ∧
      hex_char (hex_value (UInt8.ofNat byte)) = UInt8.ofNat byte := by decide +kernel
  have hbyte (byte : UInt8) (h : is_hex byte = true) : hex_value byte < 16 ∧ hex_char (hex_value byte) = byte := by
    have := hbytes ⟨byte.toNat, byte.toNat_lt⟩
    rw [UInt8.ofNat_toNat] at this
    exact this h
  intro input n rest
  simp only [count, run_bind_iff, run_take_iff, run_lift_iff]
  constructor
  · rintro ⟨raw, _, ⟨hlength, rfl⟩, hparse, rfl⟩
    split at hparse
    · rename_i hhex
      rw [List.all_eq_true] at hhex
      cases hparse
      have hdigits : ∀ digit ∈ raw.map hex_value, digit < 16 :=
        List.forall_mem_map.mpr fun byte hmem => (hbyte byte (hhex byte hmem)).1
      have hvalue := radix.digits_value hdigits
      have hlt := radix.value_lt hdigits
      have hraw : raw.map (hex_char ∘ hex_value) = raw :=
        (List.map_congr_left fun byte hmem => (hbyte byte (hhex byte hmem)).2).trans (List.map_id raw)
      rw [List.length_map, hlength] at hvalue hlt
      exact ⟨hlt, by rw [write_count, hvalue, List.map_map, hraw]⟩
    · cases hparse
  · rintro ⟨hn, rfl⟩
    have hlt (digit : Nat) (hmem : digit ∈ radix.digits 16 8 n) : digit < 16 := radix.lt_of_mem_digits (by decide) hmem
    have hdigits : (radix.digits 16 8 n).map (hex_value ∘ hex_char) = radix.digits 16 8 n := by
      refine (List.map_congr_left fun digit hmem => ?_).trans (List.map_id _)
      exact (hdigit ⟨digit, hlt digit hmem⟩).2
    refine ⟨_, rest, ⟨by simp [write_count], rfl⟩, ?_, rfl⟩
    rw [if_pos, write_count, List.map_map, hdigits, radix.value_digits (show n < 16 ^ 8 from hn)]
    rw [write_count, List.all_map, List.all_eq_true]
    exact fun digit hmem => (hdigit ⟨digit, hlt digit hmem⟩).1

theorem reads_text : Reads text (fun value => (as_bytes value).length < 2 ^ 32) write_text := by
  intro input value rest
  simp only [text, run_bind_iff, reads_count _ _ _, reads_utf8 _ _ _]
  constructor
  · rintro ⟨n, _, ⟨hn, rfl⟩, rfl, rfl⟩
    exact ⟨hn, (List.append_assoc ..).symm⟩
  · rintro ⟨hlength, rfl⟩
    exact ⟨_, as_bytes value ++ rest, ⟨hlength, List.append_assoc ..⟩, rfl, rfl⟩

def write_path (path : FieldPath) : List UInt8 :=
  write_count path.segments.length ++ path.segments.flatMap write_text

def write_definition (index : IndexDefinition) : List UInt8 :=
  write_text index.index_id.to_string ++ write_text index.table_id.to_string ++ write_text index.name ++
    write_count index.fields.length ++ index.fields.flatMap write_path

theorem reads_resource_id {PREFIX : String} (hlength : ∀ id : ResourceId PREFIX, (as_bytes id.to_string).length < 2 ^ 32) :
    Reads (resource_id : Parser SchemaError UInt8 (ResourceId PREFIX)) (fun _ => True)
      fun id => write_text id.to_string := by
  have hparse (value : String) (id : ResourceId PREFIX) : parse_id value = .ok id ↔ True ∧ value = id.to_string := by
    rw [true_and, ← ResourceId.from_str_eq_ok_iff, parse_id]
    cases @ResourceId.from_str PREFIX value <;> simp
  exact (reads_text.convert (fun _ => True) ResourceId.to_string hparse).congr (fun id => iff_of_true ⟨trivial, hlength id⟩ trivial)
    fun _ _ => rfl

theorem length_id {PREFIX : String} (hstart : (as_bytes PREFIX).length = 4) (id : ResourceId PREFIX) :
    (as_bytes id.to_string).length < 2 ^ 32 := by
  rw [ResourceId.to_string, as_bytes_append, List.length_append, id.ulid.length_as_bytes_to_string, hstart]
  decide

theorem length_starts : (as_bytes "idx_").length = 4 ∧ (as_bytes "tbl_").length = 4 ∧ (as_bytes "prj_").length = 4 := by
  decide +kernel

theorem length_valid_name {value : String} (h : valid_name value = true) : (as_bytes value).length < 2 ^ 32 := by
  unfold valid_name at h
  split at h
  · cases h
  · rename_i hbytes
    rw [Bool.and_eq_true, Bool.and_eq_true, decide_eq_true_eq] at h
    exact h.1.1.trans_lt (by decide)

theorem FieldPath.spec (path : FieldPath) : path.segments.length ≤ MAX_PATH_SEGMENTS ∧
    ∀ segment ∈ path.segments, (as_bytes segment).length < 2 ^ 32 := by
  have hvalid := path.valid
  unfold FieldPath.validate at hvalid
  obtain ⟨hlimit, hvalid⟩ := ite_error_eq_ok_iff.mp hvalid
  obtain ⟨hnames, _⟩ := ite_error_eq_ok_iff.mp hvalid
  simp only [List.any_eq_true, not_exists, not_and, Bool.not_eq_true', Bool.not_eq_false] at hnames
  exact ⟨by omega, fun segment hmem => length_valid_name (hnames segment hmem)⟩

theorem IndexDefinition.spec (index : IndexDefinition) : index.fields.length ≤ MAX_FIELDS ∧
    (as_bytes index.name).length < 2 ^ 32 := by
  have hvalid := index.valid
  unfold IndexDefinition.validate at hvalid
  obtain ⟨hname, hvalid⟩ := ite_error_eq_ok_iff.mp hvalid
  obtain ⟨hlimit, _⟩ := ite_error_eq_ok_iff.mp hvalid
  rw [Bool.not_eq_true', Bool.not_eq_false] at hname
  exact ⟨by omega, length_valid_name hname⟩

theorem FieldPath.new_eq_ok_iff {segments : List String} {path : FieldPath} :
    FieldPath.new segments = .ok path ↔ path.segments = segments := by
  unfold FieldPath.new
  constructor
  · intro h
    split at h
    · cases h
    · exact Except.ok.inj h ▸ rfl
  · rintro rfl
    split
    · rename_i h
      exact absurd (path.valid.symm.trans h) nofun
    · rfl

theorem IndexDefinition.new_eq_ok_iff {index_id : IndexId} {table_id : TableId} {name : String} {fields : List FieldPath}
    {index : IndexDefinition} : IndexDefinition.new index_id table_id name fields = .ok index ↔
      index.index_id = index_id ∧ index.table_id = table_id ∧ index.name = name ∧ index.fields = fields := by
  unfold IndexDefinition.new
  constructor
  · intro h
    split at h
    · cases h
    · exact Except.ok.inj h ▸ ⟨rfl, rfl, rfl, rfl⟩
  · rintro ⟨rfl, rfl, rfl, rfl⟩
    split
    · rename_i h
      exact absurd (index.valid.symm.trans h) nofun
    · rfl

theorem reads_path : Reads decode_path (fun _ => True) write_path := by
  intro input path rest
  simp only [decode_path, run_bind_iff, reads_count _ _ _, run_ite_iff, run_lift_iff, reads_text.many,
    FieldPath.new_eq_ok_iff, reduceCtorEq, false_and, and_false, false_or, true_and, not_lt]
  constructor
  · rintro ⟨_, _, ⟨_, hinput⟩, _, _, _, ⟨rfl, _, hsegments⟩, rfl, rfl⟩
    rw [hinput, hsegments]
    simp [write_path]
  · intro hinput
    rw [hinput]
    refine ⟨_, _, ⟨path.spec.1.trans_lt (by decide), ?_⟩, path.spec.1, _, _, ⟨rfl, path.spec.2, rfl⟩, rfl, rfl⟩
    simp [write_path]

theorem reads_definition : Reads decode_definition (fun _ => True) write_definition := by
  have hindex := reads_resource_id (length_id length_starts.1)
  have htable := reads_resource_id (length_id length_starts.2.1)
  intro input index rest
  simp only [decode_definition, run_bind_iff, hindex _ _ _, htable _ _ _, reads_text _ _ _, reads_count _ _ _,
    run_ite_iff, run_lift_iff, reads_path.many, IndexDefinition.new_eq_ok_iff, reduceCtorEq, false_and, and_false,
    false_or, true_and, not_lt]
  constructor
  · rintro ⟨_, _, hinput, _, _, hids, _, _, ⟨_, hname⟩, _, _, ⟨_, hcount⟩, _, _, _, ⟨rfl, _, hfields⟩,
      ⟨rfl, rfl, rfl, rfl⟩, rfl⟩
    rw [hinput, hids, hname, hcount, hfields]
    simp [write_definition]
  · intro hinput
    rw [hinput]
    refine ⟨_, _, ?_, _, _, rfl, _, _, ⟨index.spec.2, rfl⟩, _, _, ⟨index.spec.1.trans_lt (by decide), rfl⟩, index.spec.1, _,
      _, ⟨rfl, fun _ _ => trivial, rfl⟩, ⟨rfl, rfl, rfl, rfl⟩, rfl⟩
    simp [write_definition]

def write_definitions (catalog : ProjectId × List IndexDefinition) : List UInt8 :=
  write_text catalog.1.to_string ++ write_count catalog.2.length ++ catalog.2.flatMap write_definition

/-- The decoder of definitions inverts their encoder. -/
theorem reads_definitions :
    Reads decode_definitions (fun catalog => catalog.2.length ≤ MAX_INDEXES) write_definitions := by
  have hproject := reads_resource_id (length_id length_starts.2.2)
  rintro input ⟨project_id, indexes⟩ rest
  simp only [decode_definitions, run_bind_iff, hproject _ _ _, reads_count _ _ _, run_ite_iff, run_lift_iff,
    reads_definition.many, run_pure_iff, reduceCtorEq, false_and, and_false, false_or, true_and, not_lt, Prod.mk.injEq]
  constructor
  · rintro ⟨_, _, hinput, _, _, ⟨_, hcount⟩, hlimit, _, _, ⟨rfl, _, hindexes⟩, ⟨rfl, rfl⟩, rfl⟩
    refine ⟨hlimit, ?_⟩
    rw [hinput, hcount, hindexes]
    simp [write_definitions]
  · rintro ⟨hlimit, hinput⟩
    rw [hinput]
    refine ⟨_, _, ?_, _, _, ⟨hlimit.trans_lt (by decide), rfl⟩, hlimit, _, _, ⟨rfl, fun _ _ => trivial, rfl⟩, ⟨rfl, rfl⟩, rfl⟩
    simp [write_definitions]

theorem mapM_ok {α : Type} {f : α → Except SchemaError (List UInt8)} {write : α → List UInt8} {items : List α}
    (h : ∀ item ∈ items, f item = .ok (write item)) : items.mapM f = .ok (items.map write) :=
  mapM_eq_ok_iff.mpr (List.forall₂_map_right_iff.mpr (List.forall₂_same.mpr h))

theorem encode_path_eq (path : FieldPath) : encode_path path = .ok (write_path path) := by
  rw [encode_path, push_count_eq (path.spec.1.trans_lt (by decide)), ok_bind,
    mapM_ok fun segment hmem => push_text_eq (path.spec.2 segment hmem), ok_bind, ← List.flatMap_def]
  rfl

theorem encode_definition_eq (index : IndexDefinition) : encode_definition index = .ok (write_definition index) := by
  rw [encode_definition, push_text_eq (length_id length_starts.1 _), ok_bind,
    push_text_eq (length_id length_starts.2.1 _), ok_bind, push_text_eq index.spec.2, ok_bind,
    push_count_eq (index.spec.1.trans_lt (by decide)), ok_bind, mapM_ok fun path _ => encode_path_eq path, ok_bind,
    ← List.flatMap_def]
  rfl

theorem encode_schema_catalog_eq_ok_iff {project_id : ProjectId} {indexes : List IndexDefinition}
    (hlimit : indexes.length ≤ MAX_INDEXES) {resource : List UInt8} :
    encode_schema_catalog project_id indexes = .ok resource ↔
      resource = CATALOG_RESOURCE_MAGIC ++ write_definitions (project_id, indexes) ∧
        resource.length ≤ CATALOG_RESOURCE_MAX_BYTES := by
  rw [encode_schema_catalog, push_text_eq (length_id length_starts.2.2 _), ok_bind,
    push_count_eq (hlimit.trans_lt (by decide)), ok_bind, mapM_ok fun index _ => encode_definition_eq index, ok_bind,
    ← List.flatMap_def]
  dsimp only
  rw [ite_error_eq_ok_iff, pure_eq_ok, Except.ok.injEq, not_lt, List.append_assoc, List.append_assoc,
    ← List.append_assoc (write_text _)]
  change _ ∧ CATALOG_RESOURCE_MAGIC ++ write_definitions (project_id, indexes) = resource ↔ _
  constructor
  · rintro ⟨hlength, rfl⟩
    exact ⟨rfl, hlength⟩
  · rintro ⟨rfl, hlength⟩
    exact ⟨hlength, rfl⟩

/-- A catalog that was built from definitions. -/
theorem SchemaCatalog.new_eq_ok_iff {sha256 : List UInt8 → Sha256Digest} {project_id : ProjectId}
    {indexes : List IndexDefinition} {catalog : SchemaCatalog} :
    SchemaCatalog.new sha256 project_id indexes = .ok catalog ↔
      catalog.project_id = project_id ∧ catalog.indexes.Perm indexes ∧
        ∃ resource, encode_schema_catalog project_id catalog.indexes = .ok resource ∧
          catalog.digest = sha256 resource := by
  have hperm := List.perm_insertionSort (fun a b : IndexDefinition => a.index_id ≤ b.index_id) indexes
  unfold SchemaCatalog.new
  constructor
  · intro h
    split at h
    · exact absurd h nofun
    · dsimp only at h
      split at h
      · split at h
        · exact absurd h nofun
        · next resource hresource =>
          cases h
          exact ⟨rfl, hperm, resource, hresource, rfl⟩
      · exact absurd h nofun
  · rintro ⟨rfl, hindexes, resource, hresource, hdigest⟩
    -- Only definitions of one identity could trade places, and a catalog has no two of them.
    have hsorted : (indexes.insertionSort fun a b => a.index_id ≤ b.index_id) = catalog.indexes :=
      (hperm.trans hindexes.symm).eq_of_pairwise
        (fun a b ha hb hab hba => catalog.eq_of_index_id ((hperm.trans hindexes.symm).subset ha) hb (le_antisymm hab hba))
        (List.pairwise_insertionSort _ _) catalog.sorted
    have hlimit := catalog.within_limit
    rw [hindexes.length_eq] at hlimit
    rw [dif_neg hlimit.not_gt]
    dsimp only
    rw [dif_pos (hsorted ▸ ⟨catalog.ids_nodup, catalog.names_nodup⟩)]
    split
    · next error herror =>
      rw [hsorted, hresource] at herror
      exact absurd herror nofun
    · next resource' hresource' =>
      rw [hsorted, hresource] at hresource'
      cases hresource'
      cases catalog
      rw [Except.ok.injEq, SchemaCatalog.mk.injEq]
      exact ⟨rfl, hsorted, hdigest.symm⟩

/-- A catalog and its resource determine each other, and the order in which definitions are given has no part in it. -/
theorem schema_catalog_canonical (sha256 : List UInt8 → Sha256Digest) :
    (∀ project_id indexes catalog, SchemaCatalog.new sha256 project_id indexes = .ok catalog →
      ∃ resource, encode_schema_catalog catalog.project_id catalog.indexes = .ok resource ∧
        decode_schema_catalog sha256 resource = .ok catalog) ∧
    (∀ project_id indexes indexes' catalog, indexes.Perm indexes' →
      SchemaCatalog.new sha256 project_id indexes = .ok catalog →
        SchemaCatalog.new sha256 project_id indexes' = .ok catalog) ∧
    (∀ resource catalog, decode_schema_catalog sha256 resource = .ok catalog →
      encode_schema_catalog catalog.project_id catalog.indexes = .ok resource) ∧
    ∀ project_id indexes catalog project_id' indexes' catalog' resource,
      SchemaCatalog.new sha256 project_id indexes = .ok catalog →
      SchemaCatalog.new sha256 project_id' indexes' = .ok catalog' →
      encode_schema_catalog catalog.project_id catalog.indexes = .ok resource →
      encode_schema_catalog catalog'.project_id catalog'.indexes = .ok resource → catalog = catalog' := by
  have hround (project_id : ProjectId) (indexes : List IndexDefinition) (catalog : SchemaCatalog) (resource : List UInt8)
      (h : SchemaCatalog.new sha256 project_id indexes = .ok catalog)
      (hresource : encode_schema_catalog catalog.project_id catalog.indexes = .ok resource) :
      decode_schema_catalog sha256 resource = .ok catalog := by
    have hagain : SchemaCatalog.new sha256 catalog.project_id catalog.indexes = .ok catalog := by
      obtain ⟨rfl, _, hdigest⟩ := SchemaCatalog.new_eq_ok_iff.mp h
      exact SchemaCatalog.new_eq_ok_iff.mpr ⟨rfl, .refl _, hdigest⟩
    obtain ⟨heq, hlength⟩ := (encode_schema_catalog_eq_ok_iff catalog.within_limit).mp hresource
    have hread := (reads_definitions (write_definitions (catalog.project_id, catalog.indexes))
      (catalog.project_id, catalog.indexes) []).mpr ⟨catalog.within_limit, (List.append_nil _).symm⟩
    have hheader : ¬(resource.length > CATALOG_RESOURCE_MAX_BYTES ∨ ¬CATALOG_RESOURCE_MAGIC <+: resource) := by
      rw [not_or, not_not]
      exact ⟨hlength.not_gt, _, heq.symm⟩
    rw [decode_schema_catalog, if_neg hheader]
    rw [show resource.drop CATALOG_RESOURCE_MAGIC.length = write_definitions (catalog.project_id, catalog.indexes) by
      rw [heq, List.drop_left], hread, ok_bind]
    dsimp only
    rw [if_neg (by simp), hagain, ok_bind, hresource, ok_bind, if_neg (by simp)]
  refine ⟨fun project_id indexes catalog h => ?_, fun project_id indexes indexes' catalog hperm h => ?_,
    fun resource catalog h => ?_, fun _ _ catalog _ _ catalog' resource h h' hresource hresource' => ?_⟩
  · obtain ⟨rfl, _, resource, hresource, _⟩ := SchemaCatalog.new_eq_ok_iff.mp h
    exact ⟨resource, hresource, hround _ _ _ _ h hresource⟩
  · obtain ⟨hproject, hindexes, hdigest⟩ := SchemaCatalog.new_eq_ok_iff.mp h
    exact SchemaCatalog.new_eq_ok_iff.mpr ⟨hproject, hindexes.trans hperm, hdigest⟩
  · obtain ⟨_, h⟩ := ite_error_eq_ok_iff.mp h
    obtain ⟨⟨_, rest⟩, _, h⟩ := bind_eq_ok_iff.mp h
    obtain ⟨_, h⟩ := ite_error_eq_ok_iff.mp h
    obtain ⟨built, _, h⟩ := bind_eq_ok_iff.mp h
    obtain ⟨encoded, hencoded, h⟩ := bind_eq_ok_iff.mp h
    obtain ⟨hsame, h⟩ := ite_error_eq_ok_iff.mp h
    cases h
    rw [hencoded, not_not.mp hsame]
  · exact Except.ok.inj ((hround _ _ _ _ h hresource).symm.trans (hround _ _ _ _ h' hresource'))

def mail_index : IndexDefinition :=
  ⟨⟨.from_nat 1⟩, ⟨.from_nat 3⟩, "by_mail", [⟨["contact", "mail"], by decide⟩], by decide⟩

def name_index : IndexDefinition :=
  ⟨⟨.from_nat 2⟩, ⟨.from_nat 3⟩, "by_name", [⟨["name"], by decide⟩, ⟨["born"], by decide⟩], by decide⟩

/-- Two definitions given in either order make one catalog, and it comes back from its resource. -/
theorem either_order_decodes_alike :
    ∃ catalog resource, SchemaCatalog.new checksum ⟨.from_nat 7⟩ [name_index, mail_index] = .ok catalog ∧
      SchemaCatalog.new checksum ⟨.from_nat 7⟩ [mail_index, name_index] = .ok catalog ∧
        encode_schema_catalog catalog.project_id catalog.indexes = .ok resource ∧
          decode_schema_catalog checksum resource = .ok catalog := by
  obtain ⟨hround, hperm, _⟩ := schema_catalog_canonical checksum
  have hok : (SchemaCatalog.new checksum ⟨.from_nat 7⟩ [name_index, mail_index]).isOk := by decide +kernel
  cases hnew : SchemaCatalog.new checksum ⟨.from_nat 7⟩ [name_index, mail_index] with
  | error error => exact absurd (hnew ▸ hok) nofun
  | ok catalog =>
    obtain ⟨resource, hresource, hdecoded⟩ := hround _ _ _ hnew
    exact ⟨catalog, resource, rfl, hperm _ _ _ _ (.swap ..) hnew, hresource, hdecoded⟩

end

end runku.schema
