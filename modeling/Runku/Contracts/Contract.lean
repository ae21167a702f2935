import Mathlib.Data.List.ReduceOption
import Runku.Lib.AssocList
import Runku.Value.IndexOrder

/-! `runku-contracts/src/lib.rs`. -/

namespace runku.contracts

open runku.core runku.value assoc_list bytes

def CONTRACT_MAX_DEPTH : Nat := 32

def CONTRACT_MAX_NODES : Nat := 10000

def OBJECT_MAX_FIELDS : Nat := 1000

def UNION_MAX_VARIANTS : Nat := 16

def NAME_MAX_BYTES : Nat := 128

/-- A contract over canonical values. The bounds of doubles are finite with one zero, the fields of an object
stand in ascending key order, and so do its optional keys. -/
inductive Contract
  | Any
  | Null
  | Boolean
  | Int64 (minimum maximum : Option Int64)
  | Float64 (minimum maximum : Option FiniteF64)
  | String (minimum_bytes maximum_bytes : Option UInt32)
  | Bytes (minimum_bytes maximum_bytes : Option UInt32)
  | Timestamp
  | TypedId (kind : Option String)
  | DocumentId (table : String)
  | Array (items : Contract) (minimum_items maximum_items : Option UInt32)
  | Object (fields : List (String × Contract)) (optional : List String)
  | Union (variants : List Contract)

/-- The declared fields of an object, a `BTreeMap` from keys to contracts. -/
abbrev ContractFields := List (String × Contract)

mutual

def Contract.beq : Contract → Contract → Bool
  | .Any, .Any | .Null, .Null | .Boolean, .Boolean | .Timestamp, .Timestamp => true
  | .Int64 a b, .Int64 c d => a == c && b == d
  | .Float64 a b, .Float64 c d => a == c && b == d
  | .String a b, .String c d => a == c && b == d
  | .Bytes a b, .Bytes c d => a == c && b == d
  | .TypedId a, .TypedId b => a == b
  | .DocumentId a, .DocumentId b => a == b
  | .Array a b c, .Array d e f => Contract.beq a d && b == e && c == f
  | .Object a b, .Object c d => Contract.beq_fields a c && b == d
  | .Union a, .Union b => Contract.beq_variants a b
  | _, _ => false

def Contract.beq_fields : ContractFields → ContractFields → Bool
  | [], [] => true
  | (k, a) :: as, (l, b) :: bs => k == l && Contract.beq a b && Contract.beq_fields as bs
  | _, _ => false

def Contract.beq_variants : List Contract → List Contract → Bool
  | [], [] => true
  | a :: as, b :: bs => Contract.beq a b && Contract.beq_variants as bs
  | _, _ => false

end

mutual

theorem Contract.beq_iff (a b : Contract) : a.beq b = true ↔ a = b := by
  cases a <;> cases b <;>
    simp [Contract.beq, Contract.beq_fields_iff, Contract.beq_variants_iff, Contract.beq_iff, and_assoc]

theorem Contract.beq_fields_iff (as bs : ContractFields) : Contract.beq_fields as bs = true ↔ as = bs := by
  cases as with
  | nil => cases bs <;> simp [Contract.beq_fields]
  | cons a as =>
    obtain ⟨k, a⟩ := a
    cases bs with
    | nil => simp [Contract.beq_fields]
    | cons b bs =>
      obtain ⟨l, b⟩ := b
      simp [Contract.beq_fields, Contract.beq_iff a b, Contract.beq_fields_iff as bs]

theorem Contract.beq_variants_iff (as bs : List Contract) : Contract.beq_variants as bs = true ↔ as = bs := by
  cases as with
  | nil => cases bs <;> simp [Contract.beq_variants]
  | cons a as =>
    cases bs with
    | nil => simp [Contract.beq_variants]
    | cons b bs => simp [Contract.beq_variants, Contract.beq_iff a b, Contract.beq_variants_iff as bs]

end

instance : DecidableEq Contract := fun a b => decidable_of_iff (a.beq b = true) (Contract.beq_iff a b)

theorem sizeOf_lt_of_mem_fields {fields : ContractFields} {name : String} {contract : Contract}
    (h : (name, contract) ∈ fields) : sizeOf contract < sizeOf fields := by
  have := List.sizeOf_lt_of_mem h
  rw [Prod.mk.sizeOf_spec] at this
  omega

theorem sizeOf_lt_of_lookup {fields : ContractFields} {name : String} {contract : Contract}
    (h : fields.lookup name = some contract) : sizeOf contract < sizeOf fields :=
  sizeOf_lt_of_mem_fields (mem_of_lookup h)

inductive ContractError
  | InvalidDefinition
  | LimitExceeded
  deriving DecidableEq

inductive ValidationError
  | TypeMismatch
  | BoundViolation
  | ObjectShape
  | UnionMismatch
  | UnknownTable
  deriving DecidableEq

section Bounds

variable {T : Type} [LinearOrder T]

def validate_bounds (minimum maximum : Option T) : Except ContractError Unit :=
  match minimum, maximum with
  | some left, some right => if left > right then .error .InvalidDefinition else .ok ()
  | _, _ => .ok ()

def validate_value_bounds (value : T) (minimum maximum : Option T) : Except ValidationError Unit :=
  if minimum.any (value < ·) || maximum.any (value > ·) then .error .BoundViolation else .ok ()

end Bounds

def validate_length (length : Nat) (minimum maximum : Option UInt32) : Except ValidationError Unit :=
  validate_value_bounds length (minimum.map (·.toNat)) (maximum.map (·.toNat))

def valid_field_name (name : String) : Bool :=
  name != "" && (as_bytes name).length ≤ NAME_MAX_BYTES && !name.toList.contains '\x00'

def valid_logical_name (name : String) : Bool :=
  name != "" && (as_bytes name).length ≤ 64 &&
    ((as_bytes name).zipIdx.all fun (byte, index) =>
      is_ascii_alphanumeric byte || (index > 0 && byte == 95)) &&
    (as_bytes name).head?.any is_ascii_lowercase

/-- Validates one value against a contract. -/
def Contract.validate_value : Contract → CanonicalValue → Except ValidationError Unit
  | .Any, _ => .ok ()
  | .Null, .Null => .ok ()
  | .Boolean, .Boolean _ => .ok ()
  | .Timestamp, .Timestamp _ => .ok ()
  | .Int64 minimum maximum, .Int64 value =>
    validate_value_bounds value.toInt (minimum.map (·.toInt)) (maximum.map (·.toInt))
  | .Float64 minimum maximum, .Float64 value =>
    validate_value_bounds value.units (minimum.map (·.units)) (maximum.map (·.units))
  | .String minimum_bytes maximum_bytes, .String value =>
    validate_length (as_bytes value).length minimum_bytes maximum_bytes
  | .Bytes minimum_bytes maximum_bytes, .Bytes value => validate_length value.length minimum_bytes maximum_bytes
  | .TypedId kind, .TypedId value =>
    if kind.all (· == value.kind) then .ok () else .error .BoundViolation
  | .DocumentId _, .TypedId value => if value.kind == "doc" then .ok () else .error .BoundViolation
  | .Array items minimum_items maximum_items, .Array values => do
    validate_length values.length minimum_items maximum_items
    values.forM fun value => items.validate_value value
  | .Object fields optional, .Object values =>
    if values.any (fun field => (fields.lookup field.1).isNone)
        || fields.any (fun field => !optional.contains field.1 && (values.lookup field.1).isNone) then
      .error .ObjectShape
    else
      values.forM fun field =>
        match _hfield : fields.lookup field.1 with
        | none => .error .ObjectShape
        | some contract => contract.validate_value field.2
  | .Union variants, value =>
    if variants.attach.any fun variant => (variant.1.validate_value value).isOk then .ok () else .error .UnionMismatch
  | _, _ => .error .TypeMismatch
termination_by contract => sizeOf contract
decreasing_by
  · simp
    omega
  · have := sizeOf_lt_of_lookup _hfield
    simp
    omega
  · have := List.sizeOf_lt_of_mem variant.2
    simp
    omega

/-- The view of a stored value under a contract: object keys the contract does not know are left out. -/
def Contract.project_value : Contract → CanonicalValue → Except ValidationError CanonicalValue
  | .Any, value => .ok value
  | .Object fields optional, .Object stored => do
    -- The fields come in ascending key order, so each insertion into the view appends.
    let projected ← fields.attach.mapM fun field =>
      match stored.lookup field.1.1 with
      | some value => do .ok (some (field.1.1, ← field.1.2.project_value value))
      | none => if optional.contains field.1.1 then .ok none else .error .ObjectShape
    .ok (.Object projected.reduceOption)
  | .Array items minimum_items maximum_items, .Array values => do
    let projected ← values.mapM fun value => items.project_value value
    Contract.validate_value (.Array items minimum_items maximum_items) (.Array projected)
    .ok (.Array projected)
  | .Union variants, value =>
    let projected := variants.attach.findSome? fun variant =>
      match variant.1.project_value value with
      | .ok projected => if (variant.1.validate_value projected).isOk then some projected else none
      | .error _ => none
    match projected with
    | some projected => .ok projected
    | none => .error .UnionMismatch
  | contract, value => do
    contract.validate_value value
    .ok value
termination_by contract => sizeOf contract
decreasing_by
  · obtain ⟨⟨name, contract⟩, hmem⟩ := field
    have := sizeOf_lt_of_mem_fields hmem
    simp
    omega
  · simp
    omega
  · have := List.sizeOf_lt_of_mem variant.2
    simp
    omega

/-- The recursion of `preserve_unknown_fields`, on a replacement that was validated before. -/
def Contract.preserve_unknown_fields_at :
    Contract → CanonicalValue → CanonicalValue → Except ValidationError CanonicalValue
  | .Object fields _, .Object stored, .Object replacement => do
    -- The keys of a map are distinct, so the order of these insertions does not matter.
    let merged ← stored.foldrM (fun field merged =>
      match _hfield : fields.lookup field.1, replacement.lookup field.1 with
      | none, _ => .ok (insert field.1 field.2 merged)
      | some contract, some next => do
        .ok (insert field.1 (← contract.preserve_unknown_fields_at field.2 next) merged)
      | some _, none => .ok merged) replacement
    .ok (.Object merged)
  | .Array items _ _, .Array stored, .Array replacement => do
    let merged ← replacement.zipIdx.mapM fun (next, index) =>
      match stored[index]? with
      | none => .ok next
      | some value => items.preserve_unknown_fields_at value next
    .ok (.Array merged)
  | .Union variants, stored, replacement =>
    match variants.attach.find? fun variant => (variant.1.validate_value replacement).isOk with
    | none => .error .UnionMismatch
    | some variant => variant.1.preserve_unknown_fields_at stored replacement
  | _, _, replacement => .ok replacement
termination_by contract => sizeOf contract
decreasing_by
  · have := sizeOf_lt_of_lookup _hfield
    simp
    omega
  · simp
    omega
  · have := List.sizeOf_lt_of_mem variant.2
    simp
    omega

/-- Merges a replacement with the stored fields that only other contracts know. -/
def Contract.preserve_unknown_fields (contract : Contract) (stored replacement : CanonicalValue) :
    Except ValidationError CanonicalValue := do
  contract.validate_value replacement
  contract.preserve_unknown_fields_at stored replacement

/-- Checks a definition at a depth and, from the nodes counted so far, counts on. -/
def Contract.validate_definition_at (contract : Contract) (depth nodes : Nat) : Except ContractError Nat :=
  let nodes := nodes + 1
  if depth > CONTRACT_MAX_DEPTH || nodes > CONTRACT_MAX_NODES then .error .LimitExceeded
  else
    match contract with
    | .Int64 minimum maximum => do
      validate_bounds (minimum.map (·.toInt)) (maximum.map (·.toInt))
      .ok nodes
    | .Float64 minimum maximum => do
      validate_bounds (minimum.map (·.units)) (maximum.map (·.units))
      .ok nodes
    | .String minimum_bytes maximum_bytes | .Bytes minimum_bytes maximum_bytes => do
      validate_bounds (minimum_bytes.map (·.toNat)) (maximum_bytes.map (·.toNat))
      .ok nodes
    | .TypedId kind =>
      if kind.any fun kind => kind == "" || (as_bytes kind).length > 16
          || !(as_bytes kind).all fun byte => is_ascii_lowercase byte || is_ascii_digit byte then
        .error .InvalidDefinition
      else .ok nodes
    | .DocumentId table => if valid_logical_name table then .ok nodes else .error .InvalidDefinition
    | .Array items minimum_items maximum_items => do
      validate_bounds (minimum_items.map (·.toNat)) (maximum_items.map (·.toNat))
      items.validate_definition_at (depth + 1) nodes
    | .Object fields optional =>
      if fields.length > OBJECT_MAX_FIELDS || optional.any (fun key => (fields.lookup key).isNone)
          || fields.any (fun field => !valid_field_name field.1) then .error .InvalidDefinition
      else fields.attach.foldlM (fun nodes field => field.1.2.validate_definition_at (depth + 1) nodes) nodes
    | .Union variants =>
      if variants.length < 2 || variants.length > UNION_MAX_VARIANTS then .error .InvalidDefinition
      else do
        let nodes ← variants.attach.foldlM
          (fun nodes variant => variant.1.validate_definition_at (depth + 1) nodes) nodes
        -- Different contracts have different encodings.
        if variants.Nodup then .ok nodes else .error .InvalidDefinition
    | .Any | .Null | .Boolean | .Timestamp => .ok nodes
termination_by sizeOf contract
decreasing_by
  · simp
    omega
  · obtain ⟨⟨name, contract⟩, hmem⟩ := field
    have := sizeOf_lt_of_mem_fields hmem
    simp
    omega
  · have := List.sizeOf_lt_of_mem variant.2
    simp
    omega

/-- Checks the shape, the bounds and the limits of a definition. -/
def Contract.validate_definition (contract : Contract) : Except ContractError Unit := do
  let _ ← contract.validate_definition_at 0 0
  .ok ()

/-- The keys of every object stand in strictly ascending order, as in the source's maps and sets. -/
def Contract.ordered : Contract → Bool
  | .Array items _ _ => items.ordered
  | .Object fields optional =>
    decide (Ascending fields) && decide (optional.Pairwise (· < ·)) &&
      fields.attach.all fun field => field.1.2.ordered
  | .Union variants => variants.attach.all fun variant => variant.1.ordered
  | _ => true
termination_by contract => sizeOf contract
decreasing_by
  · simp
    omega
  · obtain ⟨⟨name, contract⟩, hmem⟩ := field
    have := sizeOf_lt_of_mem_fields hmem
    simp
    omega
  · have := List.sizeOf_lt_of_mem variant.2
    simp
    omega

/-- A contract with a valid definition. -/
structure Definition where
  contract : Contract
  ordered : contract.ordered = true
  valid : contract.validate_definition = .ok ()

structure DocumentTableContract where
  id : TableId
  name : String
  document_contract : Contract
  deriving DecidableEq

structure DocumentSchemaV1 where
  tables : List DocumentTableContract

/-- The table with an identifier. The source finds it by binary search, as the tables stand in identifier order. -/
def DocumentSchemaV1.table (schema : DocumentSchemaV1) (table_id : TableId) :
    Except ValidationError DocumentTableContract :=
  match schema.tables.find? fun table => table.id = table_id with
  | some table => .ok table
  | none => .error .UnknownTable

def DocumentSchemaV1.validate_document (schema : DocumentSchemaV1) (table_id : TableId) (value : CanonicalValue) :
    Except ValidationError Unit := do
  (← schema.table table_id).document_contract.validate_value value

def DocumentSchemaV1.project_document (schema : DocumentSchemaV1) (table_id : TableId) (value : CanonicalValue) :
    Except ValidationError CanonicalValue := do
  (← schema.table table_id).document_contract.project_value value

def DocumentSchemaV1.preserve_unknown_document_fields (schema : DocumentSchemaV1) (table_id : TableId)
    (stored replacement : CanonicalValue) : Except ValidationError CanonicalValue := do
  (← schema.table table_id).document_contract.preserve_unknown_fields stored replacement

end runku.contracts
