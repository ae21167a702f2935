import Runku.Lib.Json
import Runku.Value.StoredBody

/-! `runku-protocol/src/value.rs`. -/

namespace runku.protocol

open runku.value bytes

inductive ProtocolError
  | InvalidRequest
  | LimitExceeded
  deriving DecidableEq

inductive WireValueV1
  | Null
  | Boolean (value : Bool)
  | Int64 (value : String)
  | Float64 (value : String)
  | String (value : String)
  | Bytes (value : String)
  | Timestamp (value : String)
  | TypedId (value : String)
  | Array (value : List WireValueV1)
  | Object (value : List (String × WireValueV1))

/-- A key and its value. -/
abbrev WireObjectEntryV1 := String × WireValueV1

/-- Sixteen hexadecimal digits of a word. -/
def format_016x (bits : UInt64) : String :=
  String.ofList ((radix.digits 16 16 bits.toNat).map fun digit => Char.ofNat (json.hex_digit digit).toNat)

/-- The characters of the URL-safe Base64 alphabet, in the order of their values. -/
def URL_SAFE : List Char := "ABCDEFGHIJKLMNOPQRSTUVWXYZabcdefghijklmnopqrstuvwxyz0123456789-_".toList

def base64_char (n : Nat) : Char := URL_SAFE.getD (n % 64) 'A'

/-- Unpadded Base64: three bytes give four characters. -/
def url_safe_no_pad : List UInt8 → List Char
  | a :: b :: c :: rest =>
    let n := from_be_bytes [a, b, c]
    base64_char (n / 2 ^ 18) :: base64_char (n / 2 ^ 12) :: base64_char (n / 2 ^ 6) :: base64_char n ::
      url_safe_no_pad rest
  | [a, b] =>
    let n := from_be_bytes [a, b] * 2 ^ 2
    [base64_char (n / 2 ^ 12), base64_char (n / 2 ^ 6), base64_char n]
  | [a] =>
    let n := from_be_bytes [a] * 2 ^ 4
    [base64_char (n / 2 ^ 6), base64_char n]
  | [] => []

mutual

def WireValueV1.from_canonical_inner (value : CanonicalValue) (depth : Nat) : Except ProtocolError WireValueV1 :=
  if depth > MAX_DEPTH then .error .LimitExceeded
  else
    match value with
    | .Null => .ok .Null
    | .Boolean value => .ok (.Boolean value)
    | .Int64 value => .ok (.Int64 (toString value.toInt))
    | .Float64 value => .ok (.Float64 (format_016x value.to_bits))
    | .String value => .ok (.String value)
    | .Bytes value => .ok (.Bytes (String.ofList (url_safe_no_pad value)))
    | .Timestamp value => .ok (.Timestamp (toString value.toInt))
    | .TypedId value => .ok (.TypedId value.to_string)
    | .Array values => do
      let values ← WireValueV1.from_canonical_values values depth
      return .Array values
    | .Object fields => do
      let entries ← WireValueV1.from_canonical_fields fields depth
      return .Object entries

def WireValueV1.from_canonical_values (values : List CanonicalValue) (depth : Nat) :
    Except ProtocolError (List WireValueV1) :=
  match values with
  | [] => .ok []
  | value :: values => do
    let wire ← WireValueV1.from_canonical_inner value (depth + 1)
    let wires ← WireValueV1.from_canonical_values values depth
    return wire :: wires

def WireValueV1.from_canonical_fields (fields : Fields) (depth : Nat) :
    Except ProtocolError (List WireObjectEntryV1) :=
  match fields with
  | [] => .ok []
  | (key, value) :: fields => do
    let wire ← WireValueV1.from_canonical_inner value (depth + 1)
    let wires ← WireValueV1.from_canonical_fields fields depth
    return (key, wire) :: wires

end

/-- Projects a value that can be stored. -/
def WireValueV1.from_canonical (value : CanonicalValue) : Except ProtocolError WireValueV1 :=
  match encode_stored_value value with
  | .error _ => .error .LimitExceeded
  | .ok _ => WireValueV1.from_canonical_inner value 0

/-- The object of a variant with its tag and its value. -/
def tagged (tag : String) (value : List UInt8) : List UInt8 :=
  json.object [("type", json.string tag), ("value", value)]

mutual

/-- The bytes `serde_json::to_vec` writes. -/
def WireValueV1.to_vec : WireValueV1 → List UInt8
  | .Null => json.object [("type", json.string "null")]
  | .Boolean value => tagged "boolean" (as_bytes (if value then "true" else "false"))
  | .Int64 value => tagged "int64" (json.string value)
  | .Float64 value => tagged "float64" (json.string value)
  | .String value => tagged "string" (json.string value)
  | .Bytes value => tagged "bytes" (json.string value)
  | .Timestamp value => tagged "timestamp" (json.string value)
  | .TypedId value => tagged "typed_id" (json.string value)
  | .Array values => tagged "array" (json.array (WireValueV1.values_to_vec values))
  | .Object entries => tagged "object" (json.array (WireValueV1.entries_to_vec entries))

def WireValueV1.values_to_vec : List WireValueV1 → List (List UInt8)
  | [] => []
  | value :: values => value.to_vec :: WireValueV1.values_to_vec values

def WireValueV1.entries_to_vec : List WireObjectEntryV1 → List (List UInt8)
  | [] => []
  | (key, value) :: entries =>
    json.object [("key", json.string key), ("value", value.to_vec)] :: WireValueV1.entries_to_vec entries

end

section
variable {levels depth : Nat}

theorem from_canonical_values_isOk {values : List CanonicalValue}
    (hitems : ∀ item ∈ values, ∃ wire, WireValueV1.from_canonical_inner item (depth + 1) = .ok wire) :
    ∃ wires, WireValueV1.from_canonical_values values depth = .ok wires := by
  induction values with
  | nil => exact ⟨[], rfl⟩
  | cons value values ih =>
    rw [List.forall_mem_cons] at hitems
    obtain ⟨wire, hwire⟩ := hitems.1
    obtain ⟨wires, hwires⟩ := ih hitems.2
    exact ⟨wire :: wires, by simp [WireValueV1.from_canonical_values, hwire, hwires]⟩

theorem from_canonical_fields_isOk {fields : Fields}
    (hitems : ∀ field ∈ fields, ∃ wire, WireValueV1.from_canonical_inner field.2 (depth + 1) = .ok wire) :
    ∃ wires, WireValueV1.from_canonical_fields fields depth = .ok wires := by
  induction fields with
  | nil => exact ⟨[], rfl⟩
  | cons field fields ih =>
    obtain ⟨key, value⟩ := field
    rw [List.forall_mem_cons] at hitems
    obtain ⟨wire, hwire⟩ := hitems.1
    obtain ⟨wires, hwires⟩ := ih hitems.2
    exact ⟨(key, wire) :: wires, by simp [WireValueV1.from_canonical_fields, hwire, hwires]⟩

theorem from_canonical_inner_isOk {value : CanonicalValue} (hvalue : Nested Small levels value)
    (hdepth : levels + depth = MAX_DEPTH + 1) : ∃ wire, WireValueV1.from_canonical_inner value depth = .ok wire := by
  induction levels generalizing value depth with
  | zero => exact hvalue.elim
  | succ levels ih =>
    have hitems : ∀ item ∈ value.items, ∃ wire, WireValueV1.from_canonical_inner item (depth + 1) = .ok wire :=
      fun item hitem => ih (hvalue.2 item hitem) (by omega)
    unfold WireValueV1.from_canonical_inner
    rw [if_neg (by omega)]
    cases value with
    | Array values =>
      rw [CanonicalValue.items] at hitems
      obtain ⟨wires, hwires⟩ := from_canonical_values_isOk hitems
      exact ⟨.Array wires, by simp [hwires]⟩
    | Object fields =>
      rw [CanonicalValue.items, List.forall_mem_map] at hitems
      obtain ⟨wires, hwires⟩ := from_canonical_fields_isOk hitems
      exact ⟨.Object wires, by simp [hwires]⟩
    | _ => exact ⟨_, rfl⟩

/-- Every value within the limits of Stored Value v1 has a wire form. -/
theorem from_canonical_isOk {value : CanonicalValue} (hlimits : value.WithinLimits) :
    ∃ wire, WireValueV1.from_canonical value = .ok wire := by
  unfold WireValueV1.from_canonical
  rw [encode_stored_value_eq_ok_iff.mpr ⟨hlimits, rfl⟩]
  exact from_canonical_inner_isOk hlimits.1 rfl

end

end runku.protocol
