import Mathlib.Data.Nat.Bitwise
import Runku.Lib.Fallible
import Runku.Value.Canonical

/-! `runku-value/src/index.rs`. -/

namespace runku.value

open bytes fallible

inductive IndexKeyError
  | InvalidMagic
  | UnsupportedVersion
  | Empty
  | TooManyComponents
  | TooLarge
  | ValueTypeUnsupported
  | Truncated
  | UnknownTag
  | InvalidEscape
  | InvalidUtf8
  | FloatNonFinite
  | TypedIdInvalid
  | NonCanonical
  | PrefixComponentCountInvalid
  | PrefixHasNoSuccessor
  deriving DecidableEq

/-- The magic `RK` and the format version every key starts with. -/
def INDEX_KEY_HEADER : List UInt8 := [0x52, 0x4b, 1]

def MAX_COMPONENTS : Nat := 16
def MAX_ENCODED_BYTES : Nat := 4 * 1024

/-- The sign bit of a 64-bit word. -/
def SIGN_BIT : UInt64 := 0x8000000000000000

inductive IndexValue
  | Null
  | Boolean (value : Bool)
  | Int64 (value : Int64)
  | Float64 (value : FiniteF64)
  | Timestamp (value : TimestampMicros)
  | String (value : String)
  | Bytes (value : List UInt8)
  | TypedId (value : TypedId)
  deriving DecidableEq

/-- Scalars are indexable, containers are not. -/
def IndexValue.try_from : CanonicalValue → Except IndexKeyError IndexValue
  | .Null => .ok .Null
  | .Boolean value => .ok (.Boolean value)
  | .Int64 value => .ok (.Int64 value)
  | .Float64 value => .ok (.Float64 value)
  | .Timestamp value => .ok (.Timestamp value)
  | .String value => .ok (.String value)
  | .Bytes value => .ok (.Bytes value)
  | .TypedId value => .ok (.TypedId value)
  | .Array _ | .Object _ => .error .ValueTypeUnsupported

def validate_component_count (count : Nat) : Except IndexKeyError Unit :=
  if count = 0 then .error .Empty
  else if count > MAX_COMPONENTS then .error .TooManyComponents
  else .ok ()

def ensure_key_size (length : Nat) : Except IndexKeyError Unit :=
  if length > MAX_ENCODED_BYTES then .error .TooLarge else .ok ()

/-- Integers and timestamps: flipping the sign bit makes unsigned order signed order. -/
def ordered_int_bits (value : Int64) : UInt64 := value.toUInt64 ^^^ SIGN_BIT

def ordered_float_bits (value : FiniteF64) : UInt64 :=
  if value.to_bits &&& SIGN_BIT ≠ 0 then ~~~value.to_bits else value.to_bits ^^^ SIGN_BIT

/-- Escapes zero bytes and ends with two of them. -/
def encode_escaped (input : List UInt8) : List UInt8 :=
  input.flatMap (fun byte => if byte = 0 then [0, 0xff] else [byte]) ++ [0, 0]

/-- The tag and payload of one component. -/
def encode_component : IndexValue → List UInt8
  | .Null => [0x10]
  | .Boolean false => [0x20]
  | .Boolean true => [0x21]
  | .Int64 value => 0x30 :: to_be_bytes 8 (ordered_int_bits value).toNat
  | .Float64 value => 0x31 :: to_be_bytes 8 (ordered_float_bits value).toNat
  | .Timestamp value => 0x40 :: to_be_bytes 8 (ordered_int_bits value).toNat
  | .String value => 0x50 :: encode_escaped (as_bytes value)
  | .Bytes value => 0x60 :: encode_escaped value
  | .TypedId value => 0x70 :: encode_escaped (as_bytes value.to_string)

/-- Appends the components to `output`, checking the key size after each. -/
def encode_components : List IndexValue → List UInt8 → Except IndexKeyError (List UInt8)
  | [], output => .ok output
  | value :: values, output => do
    ensure_key_size (output ++ encode_component value).length
    encode_components values (output ++ encode_component value)

/-- The bytes of the key with the given components. -/
def encode_key (values : List IndexValue) : Except IndexKeyError (List UInt8) := do
  validate_component_count values.length
  let encoded ← encode_components values INDEX_KEY_HEADER
  ensure_key_size encoded.length
  return encoded

/-- A key: components and their canonical bytes. -/
structure IndexKey where
  encoded : List UInt8
  components : List IndexValue
  canonical : encode_key components = .ok encoded
  deriving DecidableEq

def IndexKey.encode (values : List IndexValue) : Except IndexKeyError IndexKey :=
  match h : encode_key values with
  | .error error => .error error
  | .ok encoded => .ok ⟨encoded, values, h⟩

def IndexKey.as_bytes (key : IndexKey) : List UInt8 := key.encoded

/-- Takes the eight bytes of a word off the input. -/
def take_u64 (input : List UInt8) : Except IndexKeyError (UInt64 × List UInt8) :=
  if input.length < 8 then .error .Truncated
  else .ok (UInt64.ofNat (from_be_bytes (input.take 8)), input.drop 8)

def decode_escaped : List UInt8 → List UInt8 → Except IndexKeyError (List UInt8 × List UInt8)
  | [], _ => .error .Truncated
  | byte :: input, output =>
    if byte ≠ 0 then decode_escaped input (output ++ [byte])
    else
      match input with
      | [] => .error .Truncated
      | escape :: input =>
        if escape = 0 then .ok (output, input)
        else if escape = 0xff then
          if (output ++ [0]).length > MAX_ENCODED_BYTES then .error .TooLarge
          else decode_escaped input (output ++ [0])
        else .error .InvalidEscape

/-- Undoes `ordered_float_bits`. -/
def float_bits_of_ordered (ordered : UInt64) : UInt64 :=
  if ordered &&& SIGN_BIT = 0 then ~~~ordered else ordered ^^^ SIGN_BIT

/-- Takes one component off the input. -/
def decode_component : List UInt8 → Except IndexKeyError (IndexValue × List UInt8)
  | [] => .error .Truncated
  | tag :: input =>
    if tag = 0x10 then .ok (.Null, input)
    else if tag = 0x20 then .ok (.Boolean false, input)
    else if tag = 0x21 then .ok (.Boolean true, input)
    else if tag = 0x30 then do
      let (ordered, input) ← take_u64 input
      return (.Int64 (ordered ^^^ SIGN_BIT).toInt64, input)
    else if tag = 0x31 then do
      let (ordered, input) ← take_u64 input
      match FiniteF64.new (float_bits_of_ordered ordered) with
      | .error _ => .error .FloatNonFinite
      | .ok value =>
        if value.to_bits ≠ float_bits_of_ordered ordered then .error .NonCanonical
        else return (.Float64 value, input)
    else if tag = 0x40 then do
      let (ordered, input) ← take_u64 input
      return (.Timestamp (ordered ^^^ SIGN_BIT).toInt64, input)
    else if tag = 0x50 then do
      let (text, input) ← decode_escaped input []
      match from_utf8 text with
      | none => .error .InvalidUtf8
      | some value => return (.String value, input)
    else if tag = 0x60 then do
      let (value, input) ← decode_escaped input []
      return (.Bytes value, input)
    else if tag = 0x70 then do
      let (text, input) ← decode_escaped input []
      match from_utf8 text with
      | none => .error .TypedIdInvalid
      | some wire =>
        match TypedId.from_str wire with
        | .error _ => .error .TypedIdInvalid
        | .ok id => return (.TypedId id, input)
    else .error .UnknownTag

/-- The component loop; `room` is how many more components the limit admits. -/
def decode_component_loop : Nat → List UInt8 → Except IndexKeyError (List IndexValue)
  | _, [] => .ok []
  | 0, _ :: _ => .error .TooManyComponents
  | room + 1, byte :: input => do
    let (value, rest) ← decode_component (byte :: input)
    let values ← decode_component_loop room rest
    return value :: values

def decode_components (input : List UInt8) : Except IndexKeyError (List IndexValue) := do
  ensure_key_size input.length
  if input.length < 2 then .error .Truncated
  else if input.take 2 ≠ INDEX_KEY_HEADER.take 2 then .error .InvalidMagic
  else if input.length < 3 then .error .Truncated
  else if input.take 3 ≠ INDEX_KEY_HEADER then .error .UnsupportedVersion
  else do
    let values ← decode_component_loop MAX_COMPONENTS (input.drop 3)
    validate_component_count values.length
    return values

def IndexKey.decode (encoded : List UInt8) : Except IndexKeyError IndexKey := do
  let components ← decode_components encoded
  let canonical ← IndexKey.encode components
  if canonical.encoded ≠ encoded then .error .NonCanonical else return canonical

theorem and_sign_bit_eq_zero_iff (x : UInt64) : x &&& SIGN_BIT = 0 ↔ x.toNat < 2 ^ 63 := by
  have hsign : SIGN_BIT.toNat = 2 ^ 63 := by decide
  have hzero : (0 : UInt64).toNat = 0 := rfl
  have hlt := x.toNat_lt
  rw [← UInt64.toNat_inj, UInt64.toNat_and, hsign, hzero, Nat.and_two_pow,
    Nat.testBit_eq_decide_div_mod_eq]
  by_cases h : x.toNat < 2 ^ 63
  · rw [Nat.div_eq_of_lt h]
    simpa using h
  · have hdiv : x.toNat / 2 ^ 63 = 1 := by omega
    rw [hdiv]
    simpa using h

@[simp]
theorem xor_sign_bit_xor_sign_bit (x : UInt64) : x ^^^ SIGN_BIT ^^^ SIGN_BIT = x := by
  rw [UInt64.xor_assoc, UInt64.xor_self, UInt64.xor_zero]

/-- The sign bit tells which of the two float transformations was applied. -/
theorem float_bits_of_ordered_ordered_float_bits (value : FiniteF64) :
    float_bits_of_ordered (ordered_float_bits value) = value.to_bits := by
  by_cases hsign : value.to_bits &&& SIGN_BIT = 0
  · have hflip : (value.to_bits ^^^ SIGN_BIT) &&& SIGN_BIT ≠ 0 := by
      have hdistrib : (value.to_bits ^^^ SIGN_BIT) &&& SIGN_BIT =
          (value.to_bits &&& SIGN_BIT) ^^^ SIGN_BIT := by
        rw [← UInt64.toBitVec_inj]
        refine BitVec.eq_of_getLsbD_eq fun i hi => ?_
        simp [Bool.and_xor_distrib_right]
      rw [hdistrib, hsign]
      decide
    simp [ordered_float_bits, float_bits_of_ordered, hsign, hflip]
  · have hclear : ~~~value.to_bits &&& SIGN_BIT = 0 := by
      rw [and_sign_bit_eq_zero_iff] at hsign ⊢
      have hlt := value.to_bits.toNat_lt
      have hsize : UInt64.size = 2 ^ 64 := rfl
      rw [UInt64.toNat_not, hsize]
      omega
    simp [ordered_float_bits, float_bits_of_ordered, hsign, hclear]

@[simp]
theorem ordered_int_bits_xor_sign_bit (value : Int64) : (ordered_int_bits value ^^^ SIGN_BIT).toInt64 = value := by
  rw [ordered_int_bits, xor_sign_bit_xor_sign_bit, Int64.toInt64_toUInt64]

theorem take_u64_to_be_bytes (x : UInt64) (rest : List UInt8) :
    take_u64 (to_be_bytes 8 x.toNat ++ rest) = .ok (x, rest) := by
  have hfrom : from_be_bytes (to_be_bytes 8 x.toNat) = x.toNat :=
    from_be_bytes_to_be_bytes (by have := x.toNat_lt; omega)
  simp [take_u64, hfrom]

@[simp]
theorem encode_escaped_nil : encode_escaped [] = [0, 0] := rfl

@[simp]
theorem encode_escaped_cons (byte : UInt8) (input : List UInt8) : encode_escaped (byte :: input) =
      (if byte = 0 then [0, 0xff] else [byte]) ++ encode_escaped input := by
  simp [encode_escaped]

theorem length_lt_length_encode_escaped (input : List UInt8) : input.length < (encode_escaped input).length := by
  induction input with
  | nil => decide
  | cons byte input ih =>
    rw [encode_escaped_cons, List.length_append, List.length_cons]
    split <;> simp only [List.length_cons, List.length_nil] <;> omega

/-- Unescaping stops exactly at the terminator the encoder wrote. -/
theorem decode_escaped_encode_escaped {input : List UInt8} (rest output : List UInt8)
    (hlen : output.length + input.length ≤ MAX_ENCODED_BYTES) :
    decode_escaped (encode_escaped input ++ rest) output = .ok (output ++ input, rest) := by
  induction input generalizing output with
  | nil => simp [decode_escaped]
  | cons byte input ih =>
    rw [List.length_cons] at hlen
    have hroom : (output ++ [byte]).length + input.length ≤ MAX_ENCODED_BYTES := by
      simp only [List.length_append, List.length_cons, List.length_nil]
      omega
    have ih := ih (output ++ [byte]) hroom
    rw [List.append_assoc, List.singleton_append] at ih
    by_cases hzero : byte = 0
    · have hfull : ¬MAX_ENCODED_BYTES < output.length + 1 := by omega
      subst hzero
      simpa [decode_escaped, hfull] using ih
    · rw [encode_escaped_cons, if_neg hzero, List.append_assoc, List.singleton_append]
      unfold decode_escaped
      exact (if_pos hzero).trans ih

/-- One component is read back and the input after it is left alone. -/
theorem decode_component_encode_component {value : IndexValue} (rest : List UInt8)
    (hlen : (encode_component value).length ≤ MAX_ENCODED_BYTES) :
    decode_component (encode_component value ++ rest) = .ok (value, rest) := by
  -- Only the escaped payloads depend on the size bound.
  have hescaped : ∀ payload : List UInt8, (encode_escaped payload).length ≤ MAX_ENCODED_BYTES →
      decode_escaped (encode_escaped payload ++ rest) [] = .ok (payload, rest) := by
    intro payload hpayload
    have := length_lt_length_encode_escaped payload
    exact @decode_escaped_encode_escaped payload rest [] (by simp only [List.length_nil]; omega)
  cases value with
  | Null => simp [encode_component, decode_component]
  | Boolean value => cases value <;> simp [encode_component, decode_component]
  | Int64 value | Timestamp value =>
    simp [encode_component, decode_component, take_u64_to_be_bytes, -UInt64.toInt64_xor]
  | Float64 value =>
    simp [encode_component, decode_component, take_u64_to_be_bytes,
      float_bits_of_ordered_ordered_float_bits, FiniteF64.new_to_bits]
  | String value | Bytes value | TypedId value =>
    rw [encode_component, List.length_cons] at hlen
    simp [encode_component, decode_component, hescaped _ (Nat.le_of_succ_le hlen)]

theorem ensure_key_size_eq_ok_iff {length : Nat} {u : Unit} :
    ensure_key_size length = .ok u ↔ length ≤ MAX_ENCODED_BYTES := by
  simp [ensure_key_size]

theorem encode_component_ne_nil (value : IndexValue) : encode_component value ≠ [] := by
  cases value with
  | Boolean value => cases value <;> simp [encode_component]
  | _ => simp [encode_component]

/-- What a successful component encoding appended, and that each piece is within the limit. -/
theorem encode_components_eq_ok {values : List IndexValue} {output encoded : List UInt8}
    (h : encode_components values output = .ok encoded) : encoded = output ++ values.flatMap encode_component ∧
      ∀ value ∈ values, (encode_component value).length ≤ MAX_ENCODED_BYTES := by
  induction values generalizing output with
  | nil =>
    simp only [encode_components, Except.ok.injEq] at h
    simp [h]
  | cons value values ih =>
    simp only [encode_components, bind_eq_ok_iff, ensure_key_size_eq_ok_iff] at h
    obtain ⟨_, hsize, h⟩ := h
    obtain ⟨hencoded, hall⟩ := ih h
    refine ⟨by simp [hencoded], ?_⟩
    rw [List.forall_mem_cons]
    refine ⟨?_, hall⟩
    rw [List.length_append] at hsize
    omega

theorem decode_component_loop_flatMap {values : List IndexValue} {room : Nat} (hroom : values.length ≤ room)
    (hsize : ∀ value ∈ values, (encode_component value).length ≤ MAX_ENCODED_BYTES) :
    decode_component_loop room (values.flatMap encode_component) = .ok values := by
  induction values generalizing room with
  | nil => cases room <;> rfl
  | cons value values ih =>
    obtain ⟨room, rfl⟩ : ∃ n, room = n + 1 := ⟨room - 1, by simp at hroom; omega⟩
    rw [List.forall_mem_cons] at hsize
    have hcomponent := decode_component_encode_component (values.flatMap encode_component) hsize.1
    have hrest := ih (Nat.le_of_succ_le_succ hroom) hsize.2
    obtain ⟨byte, payload, hcons⟩ := List.exists_cons_of_ne_nil (encode_component_ne_nil value)
    rw [hcons] at hcomponent
    rw [List.flatMap_cons, hcons, List.cons_append, decode_component_loop, ← List.cons_append,
      hcomponent]
    simp [hrest]

/-- A tuple is encoded by the one key that has its components. -/
theorem IndexKey.encode_eq_ok_iff {values : List IndexValue} {key : IndexKey} :
    IndexKey.encode values = .ok key ↔ key.components = values := by
  unfold IndexKey.encode
  constructor
  · intro h
    split at h
    · cases h
    · rw [← Except.ok.inj h]
  · rintro rfl
    obtain ⟨encoded, components, hcanonical⟩ := key
    dsimp only
    split
    · rename_i herror
      rw [hcanonical] at herror
      cases herror
    · rename_i encoded' hencoded
      rw [hcanonical] at hencoded
      cases hencoded
      rfl

/-- Decoding the bytes of a key gives the key back. -/
@[simp]
theorem IndexKey.decode_as_bytes (key : IndexKey) : IndexKey.decode key.as_bytes = .ok key := by
  obtain ⟨encoded, components, hcanonical⟩ := key
  have hkey := hcanonical
  simp only [encode_key, bind_eq_ok_iff] at hkey
  obtain ⟨_, hcount, bytes, hbytes, _, hsize, hencoded⟩ := hkey
  obtain rfl : bytes = encoded := by simpa using hencoded
  obtain ⟨happend, hall⟩ := encode_components_eq_ok hbytes
  have hroom : components.length ≤ MAX_COMPONENTS := by
    simp only [validate_component_count, ite_error_eq_ok_iff] at hcount
    omega
  have hcomponents : decode_components bytes = .ok components := by
    have hloop := decode_component_loop_flatMap hroom hall
    have hheader : 3 ≤ bytes.length := by simp [happend, INDEX_KEY_HEADER]
    have hlen2 : ¬bytes.length < 2 := by omega
    have hlen3 : ¬bytes.length < 3 := by omega
    rw [decode_components, hsize, ok_bind, if_neg hlen2, if_neg hlen3]
    simp [happend, INDEX_KEY_HEADER, hloop, hcount]
  have hencode : IndexKey.encode components = .ok ⟨bytes, components, hcanonical⟩ :=
    IndexKey.encode_eq_ok_iff.mpr rfl
  simp [IndexKey.decode, IndexKey.as_bytes, hcomponents, hencode]

theorem IndexKey.as_bytes_inj {a b : IndexKey} (h : a.as_bytes = b.as_bytes) : a = b := by
  have hab := congrArg IndexKey.decode h
  rwa [IndexKey.decode_as_bytes, IndexKey.decode_as_bytes, Except.ok.injEq] at hab

end runku.value
