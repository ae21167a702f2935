import Runku.Value.Canonical

/-! `runku-value/src/stored.rs`. -/

namespace runku.value

open bytes

inductive StoredValueError
  | InvalidMagic
  | UnsupportedVersion
  | UnknownTag
  | Truncated
  | TrailingBytes
  | InvalidUtf8
  | ValueTooLarge
  | DepthExceeded
  | ContainerTooLarge
  | ObjectKeyTooLong
  | ObjectKeysNotSorted
  | FloatNonFinite
  | NonCanonicalFloat
  | TypedIdInvalid
  deriving DecidableEq

def STORED_VALUE_FORMAT_VERSION : UInt8 := 1
def STORED_VALUE_MAX_BYTES : Nat := 1024 * 1024
def MAX_DEPTH : Nat := 64
def MAX_CONTAINER_ITEMS : Nat := 10000
def MAX_OBJECT_KEY_BYTES : Nat := 256

/-- The envelope magic `RV`. -/
def STORED_VALUE_MAGIC : List UInt8 := [0x52, 0x56]

def checked_sum (left right : Nat) : Except StoredValueError Nat :=
  if left + right ≤ STORED_VALUE_MAX_BYTES then .ok (left + right) else .error .ValueTooLarge

def ensure_variable_length (length : Nat) : Except StoredValueError Unit :=
  if length > STORED_VALUE_MAX_BYTES then .error .ValueTooLarge else .ok ()

def ensure_container_count (count : Nat) : Except StoredValueError Unit :=
  if count > MAX_CONTAINER_ITEMS then .error .ContainerTooLarge else .ok ()

/-- The check every measured value ends with. -/
def ensure_body_length (length : Nat) : Except StoredValueError Nat :=
  if length > STORED_VALUE_MAX_BYTES then .error .ValueTooLarge else .ok length

mutual

/-- The length of a value's body, or the first limit it breaks. -/
def encoded_body_len (value : CanonicalValue) (depth : Nat) : Except StoredValueError Nat :=
  if depth > MAX_DEPTH then .error .DepthExceeded
  else do
    let length ← match value with
      | .Null | .Boolean _ => pure 1
      | .Int64 _ | .Float64 _ | .Timestamp _ => pure 9
      | .String value => do
        ensure_variable_length (as_bytes value).length
        checked_sum 5 (as_bytes value).length
      | .Bytes value => do
        ensure_variable_length value.length
        checked_sum 5 value.length
      | .TypedId value =>
        if (as_bytes value.to_string).length > MAX_TYPED_ID_BYTES then .error .TypedIdInvalid
        else checked_sum 3 (as_bytes value.to_string).length
      | .Array values => do
        ensure_container_count values.length
        encoded_values_len values depth 5
      | .Object fields => do
        ensure_container_count fields.length
        encoded_fields_len fields depth 5
    ensure_body_length length

/-- The loop over the items of an array, from the length so far. -/
def encoded_values_len (values : List CanonicalValue) (depth length : Nat) : Except StoredValueError Nat :=
  match values with
  | [] => .ok length
  | item :: values => do
    let body ← encoded_body_len item (depth + 1)
    let length ← checked_sum length body
    encoded_values_len values depth length

/-- The loop over the fields of an object, from the length so far. -/
def encoded_fields_len (fields : Fields) (depth length : Nat) : Except StoredValueError Nat :=
  match fields with
  | [] => .ok length
  | (key, item) :: fields =>
    if (as_bytes key).length > MAX_OBJECT_KEY_BYTES then .error .ObjectKeyTooLong
    else do
      let length ← checked_sum length 2
      let length ← checked_sum length (as_bytes key).length
      let body ← encoded_body_len item (depth + 1)
      let length ← checked_sum length body
      encoded_fields_len fields depth length

end

/-- Appends a 16-bit length. -/
def push_u16 (value : Nat) : Except StoredValueError (List UInt8) :=
  if value < 2 ^ 16 then .ok (to_be_bytes 2 value) else .error .ValueTooLarge

/-- Appends a 32-bit length. -/
def push_u32 (value : Nat) : Except StoredValueError (List UInt8) :=
  if value < 2 ^ 32 then .ok (to_be_bytes 4 value) else .error .ValueTooLarge

mutual

/-- The bytes of a value's body. -/
def encode_body (value : CanonicalValue) : Except StoredValueError (List UInt8) :=
  match value with
  | .Null => .ok [0x00]
  | .Boolean false => .ok [0x01]
  | .Boolean true => .ok [0x02]
  | .Int64 value => .ok (0x10 :: to_be_bytes 8 value.toUInt64.toNat)
  | .Float64 value => .ok (0x11 :: to_be_bytes 8 value.to_bits.toNat)
  | .String value => do
    let length ← push_u32 (as_bytes value).length
    return 0x20 :: length ++ as_bytes value
  | .Bytes value => do
    let length ← push_u32 value.length
    return 0x21 :: length ++ value
  | .Timestamp value => .ok (0x22 :: to_be_bytes 8 value.toUInt64.toNat)
  | .TypedId value => do
    let length ← push_u16 (as_bytes value.to_string).length
    return 0x23 :: length ++ as_bytes value.to_string
  | .Array values => do
    let count ← push_u32 values.length
    let items ← encode_values values
    return 0x30 :: count ++ items
  | .Object fields => do
    let count ← push_u32 fields.length
    let items ← encode_fields fields
    return 0x31 :: count ++ items

def encode_values (values : List CanonicalValue) : Except StoredValueError (List UInt8) :=
  match values with
  | [] => .ok []
  | item :: values => do
    let item ← encode_body item
    let items ← encode_values values
    return item ++ items

def encode_fields (fields : Fields) : Except StoredValueError (List UInt8) :=
  match fields with
  | [] => .ok []
  | (key, item) :: fields => do
    let length ← push_u16 (as_bytes key).length
    let item ← encode_body item
    let items ← encode_fields fields
    return length ++ as_bytes key ++ item ++ items

end

/-- Measures a value against the limits, then writes the envelope and the body. -/
def encode_stored_value (value : CanonicalValue) : Except StoredValueError (List UInt8) := do
  let body_len ← encoded_body_len value 0
  if STORED_VALUE_MAGIC.length + 1 + body_len > STORED_VALUE_MAX_BYTES then .error .ValueTooLarge
  else do
    let body ← encode_body value
    return STORED_VALUE_MAGIC ++ [STORED_VALUE_FORMAT_VERSION] ++ body

end runku.value
