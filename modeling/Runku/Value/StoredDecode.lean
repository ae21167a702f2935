import Runku.Value.StoredBody
import Runku.Lib.ByteReader

namespace runku.value

open bytes fallible parser

/-- A reader over the rest of the input. -/
abbrev Cursor := Parser StoredValueError UInt8

def Cursor.byte : Cursor UInt8 := do
  let taken ← take .Truncated 1
  return taken.headD 0

def Cursor.u16_length : Cursor Nat := do
  let taken ← take .Truncated 2
  return from_be_bytes taken

def Cursor.u32_length : Cursor Nat := do
  let taken ← take .Truncated 4
  return from_be_bytes taken

/-- The next eight bytes as a word. -/
def Cursor.u64 : Cursor UInt64 := do
  let taken ← take .Truncated 8
  return UInt64.ofNat (from_be_bytes taken)

/-- Text of a known length, or `error` if it is not UTF-8. -/
def Cursor.text (length : Nat) (error : StoredValueError) : Cursor String := do
  let taken ← take .Truncated length
  lift ((from_utf8 taken).elim (.error error) .ok)

def decode_float (bits : UInt64) : Except StoredValueError FiniteF64 :=
  match FiniteF64.new bits with
  | .error _ => .error .FloatNonFinite
  | .ok value => if value.to_bits ≠ bits then .error .NonCanonicalFloat else .ok value

def decode_int64 : Cursor CanonicalValue := do
  let word ← Cursor.u64
  return .Int64 word.toInt64

def decode_timestamp : Cursor CanonicalValue := do
  let word ← Cursor.u64
  return .Timestamp word.toInt64

def decode_float64 : Cursor CanonicalValue := do
  let bits ← Cursor.u64
  let value ← lift (decode_float bits)
  return .Float64 value

def decode_string : Cursor CanonicalValue := do
  let length ← Cursor.u32_length
  lift (ensure_variable_length length)
  let value ← Cursor.text length .InvalidUtf8
  return .String value

def decode_bytes : Cursor CanonicalValue := do
  let length ← Cursor.u32_length
  lift (ensure_variable_length length)
  let value ← take .Truncated length
  return .Bytes value

def decode_typed_id : Cursor CanonicalValue := do
  let length ← Cursor.u16_length
  lift (if length > MAX_TYPED_ID_BYTES then .error .TypedIdInvalid else .ok ())
  let wire ← Cursor.text length .TypedIdInvalid
  let id ← lift ((TypedId.from_str wire).mapError fun _ => .TypedIdInvalid)
  return .TypedId id

/-- Rejects a count that the rest of the input cannot hold, at `width` bytes for each item. -/
def ensure_remaining (count width : Nat) : Cursor Unit := do
  let remaining ← remaining
  lift (if count > remaining / width then .error .Truncated else .ok ())

section
variable (item : Cursor CanonicalValue)

def decode_array : Cursor CanonicalValue := do
  let count ← Cursor.u32_length
  lift (ensure_container_count count)
  ensure_remaining count 1
  let values ← many item count
  return .Array values

def decode_key : Cursor String := do
  let key_length ← Cursor.u16_length
  lift (if key_length > MAX_OBJECT_KEY_BYTES then .error .ObjectKeyTooLong else .ok ())
  Cursor.text key_length .InvalidUtf8

/-- The loop over the fields of an object, with the key before. -/
def decode_fields : Nat → Option String → Cursor Fields
  | 0, _ => pure []
  | count + 1, previous => do
    let key ← decode_key
    lift (if previous.any fun last => as_bytes key ≤ as_bytes last then .error .ObjectKeysNotSorted else .ok ())
    let value ← item
    let fields ← decode_fields count (some key)
    -- the keys ascend, so inserting into the map extends it at its end
    return (key, value) :: fields

def decode_object : Cursor CanonicalValue := do
  let count ← Cursor.u32_length
  lift (ensure_container_count count)
  ensure_remaining count 3
  let fields ← decode_fields item count none
  return .Object fields

/-- What a tag announces, with `item` reading the values inside. -/
def decode_payload (tag : UInt8) : Cursor CanonicalValue :=
  if tag = 0x00 then pure .Null
  else if tag = 0x01 then pure (.Boolean false)
  else if tag = 0x02 then pure (.Boolean true)
  else if tag = 0x10 then decode_int64
  else if tag = 0x11 then decode_float64
  else if tag = 0x20 then decode_string
  else if tag = 0x21 then decode_bytes
  else if tag = 0x22 then decode_timestamp
  else if tag = 0x23 then decode_typed_id
  else if tag = 0x30 then decode_array item
  else if tag = 0x31 then decode_object item
  else lift (.error .UnknownTag)

end

/-- Reads a value with at most `levels` levels: the source counts the depth up from zero to its limit. -/
def decode_body : Nat → Cursor CanonicalValue
  | 0 => lift (.error .DepthExceeded)
  | levels + 1 => do
    let tag ← Cursor.byte
    decode_payload (decode_body levels) tag

def decode_stored_value (input : List UInt8) : Except StoredValueError CanonicalValue :=
  if input.length > STORED_VALUE_MAX_BYTES then .error .ValueTooLarge
  else do
    let (magic, input) ← (take .Truncated 2 : Cursor (List UInt8)).run input
    if magic ≠ STORED_VALUE_MAGIC then .error .InvalidMagic
    else do
      let (version, input) ← Cursor.byte.run input
      if version ≠ STORED_VALUE_FORMAT_VERSION then .error .UnsupportedVersion
      else do
        let (value, input) ← (decode_body (MAX_DEPTH + 1)).run input
        if !input.isEmpty then .error .TrailingBytes else .ok value

section
variable {input rest : List UInt8} {value : CanonicalValue}

theorem byte_eq_ok_iff {byte : UInt8} : Cursor.byte.run input = .ok (byte, rest) ↔ input = byte :: rest :=
  (reads_byte input byte rest).trans (iff_of_eq (true_and _))

theorem u16_length_eq_ok_iff {n : Nat} :
    Cursor.u16_length.run input = .ok (n, rest) ↔ n < 256 ^ 2 ∧ input = to_be_bytes 2 n ++ rest :=
  reads_word input n rest

theorem u32_length_eq_ok_iff {n : Nat} :
    Cursor.u32_length.run input = .ok (n, rest) ↔ n < 256 ^ 4 ∧ input = to_be_bytes 4 n ++ rest :=
  reads_word input n rest

theorem u64_eq_ok_iff {word : UInt64} :
    Cursor.u64.run input = .ok (word, rest) ↔ input = to_be_bytes 8 word.toNat ++ rest := by
  simp only [Cursor.u64, run_bind_iff, run_take_iff, run_pure_iff]
  constructor
  · rintro ⟨taken, _, ⟨htaken, rfl⟩, rfl, rfl⟩
    have hlt := from_be_bytes_lt taken
    have hbytes := to_be_bytes_from_be_bytes taken
    rw [htaken] at hlt hbytes
    rw [UInt64.toNat_ofNat_of_lt' hlt, hbytes]
  · rintro rfl
    refine ⟨_, rest, ⟨length_to_be_bytes 8 _, rfl⟩, ?_, rfl⟩
    rw [from_be_bytes_to_be_bytes word.toNat_lt, UInt64.ofNat_toNat]

theorem text_eq_ok_iff {length : Nat} {error : StoredValueError} {text : String} :
    (Cursor.text length error).run input = .ok (text, rest) ↔
      (as_bytes text).length = length ∧ input = as_bytes text ++ rest :=
  reads_utf8 input text rest

theorem decode_float_eq_ok_iff {bits : UInt64} {float : FiniteF64} :
    decode_float bits = .ok float ↔ float.to_bits = bits := by
  unfold decode_float
  constructor
  · intro h
    split at h
    · cases h
    · obtain ⟨hbits, h⟩ := ite_error_eq_ok_iff.mp h
      cases h
      exact not_not.mp hbits
  · rintro rfl
    rw [FiniteF64.new_to_bits]
    exact if_neg (not_not.mpr rfl)

/-- The values that are one signed word. -/
theorem decode_signed_eq_ok_iff {make : Int64 → CanonicalValue}
    (hpayload : ∀ word, (make word).payload = to_be_bytes 8 word.toUInt64.toNat) :
    (do let word ← Cursor.u64; return make word.toInt64 : Cursor CanonicalValue).run input = .ok (value, rest) ↔
      ∃ word, value = make word ∧ input = value.payload ++ rest := by
  simp only [run_bind_iff, u64_eq_ok_iff, run_pure_iff]
  constructor
  · rintro ⟨word, _, rfl, rfl, rfl⟩
    exact ⟨_, rfl, by rw [hpayload, UInt64.toUInt64_toInt64]⟩
  · rintro ⟨word, rfl, rfl⟩
    exact ⟨_, rest, by rw [hpayload], by simp, rfl⟩

theorem decode_int64_eq_ok_iff : decode_int64.run input = .ok (value, rest) ↔
    ∃ word, value = .Int64 word ∧ input = value.payload ++ rest :=
  decode_signed_eq_ok_iff fun word => by rw [CanonicalValue.payload]

theorem decode_timestamp_eq_ok_iff : decode_timestamp.run input = .ok (value, rest) ↔
    ∃ word, value = .Timestamp word ∧ input = value.payload ++ rest :=
  decode_signed_eq_ok_iff fun word => by rw [CanonicalValue.payload]

theorem decode_float64_eq_ok_iff : decode_float64.run input = .ok (value, rest) ↔
    ∃ float, value = .Float64 float ∧ input = value.payload ++ rest := by
  simp only [decode_float64, run_bind_iff, u64_eq_ok_iff, run_lift_iff, decode_float_eq_ok_iff, run_pure_iff]
  constructor
  · rintro ⟨_, _, rfl, float, _, ⟨rfl, rfl⟩, rfl, rfl⟩
    exact ⟨float, rfl, by rw [CanonicalValue.payload]⟩
  · rintro ⟨float, rfl, rfl⟩
    exact ⟨_, rest, by rw [CanonicalValue.payload], float, rest, ⟨rfl, rfl⟩, rfl, rfl⟩

/-- The values that are a length and so many bytes. -/
theorem decode_counted_eq_ok_iff {α : Type} {read : Nat → Cursor α} {write : α → List UInt8} {make : α → CanonicalValue}
    (hread : ∀ length, Reads (read length) (fun a => (write a).length = length) write)
    (hpayload : ∀ a, (make a).payload = to_be_bytes 4 (write a).length ++ write a) :
    (do let length ← Cursor.u32_length
        lift (ensure_variable_length length)
        let a ← read length
        return make a : Cursor CanonicalValue).run input = .ok (value, rest) ↔
      ∃ a, value = make a ∧ (write a).length ≤ STORED_VALUE_MAX_BYTES ∧ input = value.payload ++ rest := by
  simp only [run_bind_iff, u32_length_eq_ok_iff, run_lift_iff, ensure_variable_length_eq_ok_iff, hread _ _ _ _,
    run_pure_iff]
  constructor
  · rintro ⟨_, _, ⟨_, rfl⟩, _, _, ⟨hle, rfl⟩, a, _, ⟨rfl, rfl⟩, rfl, rfl⟩
    exact ⟨a, rfl, hle, by rw [hpayload, List.append_assoc]⟩
  · rintro ⟨a, rfl, hle, rfl⟩
    refine ⟨_, _, ⟨Nat.lt_of_le_of_lt hle (by decide), ?_⟩, (), _, ⟨hle, rfl⟩, a, _, ⟨rfl, rfl⟩, rfl, rfl⟩
    rw [hpayload, List.append_assoc]

theorem decode_string_eq_ok_iff : decode_string.run input = .ok (value, rest) ↔
    ∃ text, value = .String text ∧ (as_bytes text).length ≤ STORED_VALUE_MAX_BYTES ∧ input = value.payload ++ rest :=
  decode_counted_eq_ok_iff (fun _ => reads_utf8) fun text => by rw [CanonicalValue.payload]

theorem decode_bytes_eq_ok_iff : decode_bytes.run input = .ok (value, rest) ↔
    ∃ text, value = .Bytes text ∧ text.length ≤ STORED_VALUE_MAX_BYTES ∧ input = value.payload ++ rest :=
  decode_counted_eq_ok_iff (fun _ => reads_take) fun text => by rw [CanonicalValue.payload]

theorem parse_typed_id_eq_ok_iff {wire : String} {id : TypedId} :
    (TypedId.from_str wire).mapError (fun _ => StoredValueError.TypedIdInvalid) = .ok id ↔ id.to_string = wire := by
  constructor
  · intro h
    cases hparsed : TypedId.from_str wire with
    | error e =>
      rw [hparsed] at h
      cases h
    | ok id' =>
      rw [hparsed] at h
      cases h
      exact TypedId.to_string_of_from_str hparsed
  · rintro rfl
    rw [TypedId.from_str_to_string]
    rfl

theorem decode_typed_id_eq_ok_iff : decode_typed_id.run input = .ok (value, rest) ↔
    ∃ id, value = .TypedId id ∧ input = value.payload ++ rest := by
  simp only [decode_typed_id, run_bind_iff, u16_length_eq_ok_iff, run_lift_iff, ite_error_eq_ok_iff,
    text_eq_ok_iff, parse_typed_id_eq_ok_iff, run_pure_iff]
  constructor
  · rintro ⟨_, _, ⟨_, rfl⟩, _, _, ⟨_, rfl⟩, _, _, ⟨rfl, rfl⟩, id, _, ⟨rfl, rfl⟩, rfl, rfl⟩
    exact ⟨id, rfl, by rw [CanonicalValue.payload, List.append_assoc]⟩
  · rintro ⟨id, rfl, rfl⟩
    have hle := length_to_string_le id
    refine ⟨_, _, ⟨Nat.lt_of_le_of_lt hle (by decide), ?_⟩, (), _, ⟨⟨Nat.not_lt.mpr hle, trivial⟩, rfl⟩,
      _, _, ⟨rfl, rfl⟩, id, _, ⟨rfl, rfl⟩, rfl, rfl⟩
    rw [CanonicalValue.payload, List.append_assoc]

theorem ensure_remaining_eq_ok_iff {count width : Nat} {u : Unit} :
    (ensure_remaining count width).run input = .ok (u, rest) ↔ count ≤ input.length / width ∧ rest = input := by
  simp only [ensure_remaining, run_bind_iff, run_remaining_iff, run_lift_iff, ite_error_eq_ok_iff]
  constructor
  · rintro ⟨_, _, ⟨rfl, rfl⟩, ⟨hle, _⟩, rfl⟩
    exact ⟨Nat.le_of_not_lt hle, rfl⟩
  · rintro ⟨hle, rfl⟩
    exact ⟨_, _, ⟨rfl, rfl⟩, ⟨Nat.not_lt.mpr hle, trivial⟩, rfl⟩

end

/-- A node as the decoder accepts it. -/
def Readable (value : CanonicalValue) : Prop := Short value ∧ Ascending (object_keys value)

section
variable {item : Cursor CanonicalValue} {valid : CanonicalValue → Prop} {input rest : List UInt8}
  {value : CanonicalValue}

theorem decode_array_eq_ok_iff (hitem : Reads item valid CanonicalValue.body) :
    (decode_array item).run input = .ok (value, rest) ↔
      ∃ values, value = .Array values ∧ values.length ≤ MAX_CONTAINER_ITEMS ∧ (∀ item ∈ values, valid item) ∧
        input = value.payload ++ rest := by
  simp only [decode_array, run_bind_iff, u32_length_eq_ok_iff, run_lift_iff, ensure_container_count_eq_ok_iff,
    ensure_remaining_eq_ok_iff, hitem.many, run_pure_iff]
  constructor
  · rintro ⟨_, _, ⟨_, rfl⟩, _, _, ⟨hle, rfl⟩, _, _, ⟨_, rfl⟩, values, _, ⟨rfl, hvalid, rfl⟩, rfl, rfl⟩
    refine ⟨values, rfl, hle, hvalid, ?_⟩
    rw [CanonicalValue.payload, values_payload_eq_flatMap, List.append_assoc]
  · rintro ⟨values, rfl, hle, hvalid, rfl⟩
    -- every item takes a byte, so the count never exceeds what remains
    have hremaining : values.length ≤ (values.flatMap CanonicalValue.body ++ rest).length / 1 := by
      have hbody : ∀ value : CanonicalValue, 1 ≤ value.body.length := fun value => Nat.le_add_left 1 _
      have := @length_mul_le_length_flatMap _ _ _ _ values hbody
      rw [List.length_append]
      omega
    refine ⟨_, _, ⟨Nat.lt_of_le_of_lt hle (by decide), ?_⟩, (), _, ⟨hle, rfl⟩, (), _, ⟨hremaining, rfl⟩,
      values, _, ⟨rfl, hvalid, rfl⟩, rfl, rfl⟩
    rw [CanonicalValue.payload, values_payload_eq_flatMap, List.append_assoc]

theorem decode_key_eq_ok_iff {key : String} : decode_key.run input = .ok (key, rest) ↔
    (as_bytes key).length ≤ MAX_OBJECT_KEY_BYTES ∧
      input = to_be_bytes 2 (as_bytes key).length ++ as_bytes key ++ rest := by
  simp only [decode_key, run_bind_iff, u16_length_eq_ok_iff, run_lift_iff, ite_error_eq_ok_iff, text_eq_ok_iff]
  constructor
  · rintro ⟨_, _, ⟨_, rfl⟩, _, _, ⟨⟨hle, _⟩, rfl⟩, rfl, rfl⟩
    exact ⟨Nat.le_of_not_lt hle, (List.append_assoc _ _ _).symm⟩
  · rintro ⟨hle, rfl⟩
    exact ⟨_, _, ⟨Nat.lt_of_le_of_lt hle (by decide), List.append_assoc _ _ _⟩, (), _,
      ⟨⟨Nat.not_lt.mpr hle, trivial⟩, rfl⟩, rfl, rfl⟩

/-- The keys read so far ascend when the next key is above the one before. -/
theorem ascending_from_cons {previous : Option String} {key : String} {keys : List String} :
    Ascending (previous.toList ++ key :: keys) ↔
      ¬(previous.any fun last => as_bytes key ≤ as_bytes last) = true ∧ Ascending (key :: keys) := by
  cases previous with
  | none => simp [Ascending]
  | some last => simp [Ascending, List.isChain_cons_cons]

theorem decode_fields_eq_ok_iff (hitem : Reads item valid CanonicalValue.body) {count : Nat}
    {previous : Option String} {fields : Fields} :
    (decode_fields item count previous).run input = .ok (fields, rest) ↔
      fields.length = count ∧ Ascending (previous.toList ++ fields.map Prod.fst) ∧
      (∀ field ∈ fields, (as_bytes field.1).length ≤ MAX_OBJECT_KEY_BYTES ∧ valid field.2) ∧
      input = fields.flatMap field_body ++ rest := by
  induction count generalizing previous input fields rest with
  | zero =>
    rw [decode_fields, run_pure_iff, List.length_eq_zero_iff]
    constructor
    · rintro ⟨rfl, rfl⟩
      refine ⟨rfl, ?_, nofun, rfl⟩
      cases previous <;> simp [Ascending]
    · rintro ⟨rfl, _, _, rfl⟩
      exact ⟨rfl, rfl⟩
  | succ count ih =>
    simp only [decode_fields, run_bind_iff, decode_key_eq_ok_iff, run_lift_iff, ite_error_eq_ok_iff, hitem _ _ _, ih,
      run_pure_iff]
    constructor
    · rintro ⟨key, _, ⟨hkey, rfl⟩, _, _, ⟨⟨hprevious, _⟩, rfl⟩, value, _, ⟨hvalue, rfl⟩,
        fields, _, ⟨rfl, hchain, hfields, rfl⟩, rfl, rfl⟩
      refine ⟨rfl, ascending_from_cons.mpr ⟨hprevious, hchain⟩, List.forall_mem_cons.mpr ⟨⟨hkey, hvalue⟩, hfields⟩, ?_⟩
      simp only [List.flatMap_cons, field_body, List.append_assoc]
    · rintro ⟨hlen, hchain, hfields, rfl⟩
      obtain ⟨⟨key, value⟩, fields, rfl⟩ := List.exists_cons_of_length_eq_add_one hlen
      rw [List.forall_mem_cons] at hfields
      obtain ⟨hprevious, hchain⟩ := ascending_from_cons.mp hchain
      refine ⟨key, _, ⟨hfields.1.1, ?_⟩, (), _, ⟨⟨hprevious, trivial⟩, rfl⟩, value, _, ⟨hfields.1.2, rfl⟩,
        fields, rest, ⟨Nat.succ.inj hlen, hchain, hfields.2, rfl⟩, rfl, rfl⟩
      simp only [List.flatMap_cons, field_body, List.append_assoc]

theorem decode_object_eq_ok_iff (hitem : Reads item valid CanonicalValue.body) :
    (decode_object item).run input = .ok (value, rest) ↔
      ∃ fields, value = .Object fields ∧ fields.length ≤ MAX_CONTAINER_ITEMS ∧ Ascending (fields.map Prod.fst) ∧
        (∀ field ∈ fields, (as_bytes field.1).length ≤ MAX_OBJECT_KEY_BYTES ∧ valid field.2) ∧
        input = value.payload ++ rest := by
  simp only [decode_object, run_bind_iff, u32_length_eq_ok_iff, run_lift_iff, ensure_container_count_eq_ok_iff,
    ensure_remaining_eq_ok_iff, decode_fields_eq_ok_iff hitem, Option.toList_none, List.nil_append, run_pure_iff]
  constructor
  · rintro ⟨_, _, ⟨_, rfl⟩, _, _, ⟨hle, rfl⟩, _, _, ⟨_, rfl⟩, fields, _, ⟨rfl, hchain, hvalid, rfl⟩, rfl, rfl⟩
    refine ⟨fields, rfl, hle, hchain, hvalid, ?_⟩
    rw [CanonicalValue.payload, fields_payload_eq_flatMap, List.append_assoc]
  · rintro ⟨fields, rfl, hle, hchain, hvalid, rfl⟩
    -- the length of the key and the tag of the value take three bytes
    have hremaining : fields.length ≤ (fields.flatMap field_body ++ rest).length / 3 := by
      have hbody : ∀ field, 3 ≤ (field_body field).length := by
        intro field
        simp only [field_body, CanonicalValue.body, List.length_append, length_to_be_bytes, List.length_cons]
        omega
      have := @length_mul_le_length_flatMap _ _ _ _ fields hbody
      rw [List.length_append]
      omega
    refine ⟨_, _, ⟨Nat.lt_of_le_of_lt hle (by decide), ?_⟩, (), _, ⟨hle, rfl⟩, (), _, ⟨hremaining, rfl⟩,
      fields, _, ⟨rfl, hchain, hvalid, rfl⟩, rfl, rfl⟩
    rw [CanonicalValue.payload, fields_payload_eq_flatMap, List.append_assoc]

theorem readable_of_scalar (hitems : value.items = []) (hkeys : object_keys value = [])
    (htext : value.text.length ≤ STORED_VALUE_MAX_BYTES) : Readable value ∧ ∀ item ∈ value.items, valid item := by
  rw [Readable, Short, Small, hitems, hkeys]
  exact ⟨⟨⟨⟨Nat.zero_le _, List.forall_mem_nil _⟩, htext⟩, .nil⟩, List.forall_mem_nil _⟩

/-- What is read after a tag is written for a value of this tag. -/
theorem decode_payload_eq_ok {tag : UInt8} (hitem : Reads item valid CanonicalValue.body)
    (h : (decode_payload item tag).run input = .ok (value, rest)) :
    value.tag = tag ∧ (Readable value ∧ ∀ item ∈ value.items, valid item) ∧ input = value.payload ++ rest := by
  -- the tags in the order the source matches them
  unfold decode_payload at h
  rcases run_ite_iff.mp h with ⟨htag, h⟩ | ⟨-, h⟩
  · obtain ⟨rfl, rfl⟩ := run_pure_iff.mp h
    exact ⟨htag.symm, readable_of_scalar rfl rfl (Nat.zero_le _), by rw [CanonicalValue.payload, List.nil_append]⟩
  rcases run_ite_iff.mp h with ⟨htag, h⟩ | ⟨-, h⟩
  · obtain ⟨rfl, rfl⟩ := run_pure_iff.mp h
    exact ⟨htag.symm, readable_of_scalar rfl rfl (Nat.zero_le _), by rw [CanonicalValue.payload, List.nil_append]⟩
  rcases run_ite_iff.mp h with ⟨htag, h⟩ | ⟨-, h⟩
  · obtain ⟨rfl, rfl⟩ := run_pure_iff.mp h
    exact ⟨htag.symm, readable_of_scalar rfl rfl (Nat.zero_le _), by rw [CanonicalValue.payload, List.nil_append]⟩
  rcases run_ite_iff.mp h with ⟨htag, h⟩ | ⟨-, h⟩
  · obtain ⟨word, rfl, hinput⟩ := decode_int64_eq_ok_iff.mp h
    exact ⟨htag.symm, readable_of_scalar rfl rfl (Nat.zero_le _), hinput⟩
  rcases run_ite_iff.mp h with ⟨htag, h⟩ | ⟨-, h⟩
  · obtain ⟨word, rfl, hinput⟩ := decode_float64_eq_ok_iff.mp h
    exact ⟨htag.symm, readable_of_scalar rfl rfl (Nat.zero_le _), hinput⟩
  rcases run_ite_iff.mp h with ⟨htag, h⟩ | ⟨-, h⟩
  · obtain ⟨text, rfl, hle, hinput⟩ := decode_string_eq_ok_iff.mp h
    exact ⟨htag.symm, readable_of_scalar rfl rfl hle, hinput⟩
  rcases run_ite_iff.mp h with ⟨htag, h⟩ | ⟨-, h⟩
  · obtain ⟨text, rfl, hle, hinput⟩ := decode_bytes_eq_ok_iff.mp h
    exact ⟨htag.symm, readable_of_scalar rfl rfl hle, hinput⟩
  rcases run_ite_iff.mp h with ⟨htag, h⟩ | ⟨-, h⟩
  · obtain ⟨word, rfl, hinput⟩ := decode_timestamp_eq_ok_iff.mp h
    exact ⟨htag.symm, readable_of_scalar rfl rfl (Nat.zero_le _), hinput⟩
  rcases run_ite_iff.mp h with ⟨htag, h⟩ | ⟨-, h⟩
  · obtain ⟨word, rfl, hinput⟩ := decode_typed_id_eq_ok_iff.mp h
    exact ⟨htag.symm, readable_of_scalar rfl rfl (Nat.zero_le _), hinput⟩
  rcases run_ite_iff.mp h with ⟨htag, h⟩ | ⟨-, h⟩
  · obtain ⟨values, rfl, hle, hvalues, hinput⟩ := (decode_array_eq_ok_iff hitem).mp h
    exact ⟨htag.symm, ⟨⟨⟨⟨hle, List.forall_mem_nil _⟩, Nat.zero_le _⟩, .nil⟩, hvalues⟩, hinput⟩
  rcases run_ite_iff.mp h with ⟨htag, h⟩ | ⟨-, h⟩
  · obtain ⟨fields, rfl, hle, hchain, hfields, hinput⟩ := (decode_object_eq_ok_iff hitem).mp h
    refine ⟨htag.symm, ⟨⟨⟨⟨?_, ?_⟩, Nat.zero_le _⟩, hchain⟩, ?_⟩, hinput⟩
    · rwa [CanonicalValue.items, List.length_map]
    · exact List.forall_mem_map.mpr fun field hfield => (hfields field hfield).1
    · exact List.forall_mem_map.mpr fun field hfield => (hfields field hfield).2
  · cases (run_lift_iff.mp h).1

/-- The reader a value's tag selects. -/
def CanonicalValue.reader (item : Cursor CanonicalValue) : CanonicalValue → Cursor CanonicalValue
  | .Null => pure .Null
  | .Boolean value => pure (.Boolean value)
  | .Int64 _ => decode_int64
  | .Float64 _ => decode_float64
  | .String _ => decode_string
  | .Bytes _ => decode_bytes
  | .Timestamp _ => decode_timestamp
  | .TypedId _ => decode_typed_id
  | .Array _ => decode_array item
  | .Object _ => decode_object item

theorem decode_payload_tag (value : CanonicalValue) : decode_payload item value.tag = value.reader item := by
  cases value with
  | Boolean value => cases value <;> rfl
  | _ => rfl

/-- Every value is read back from what follows its tag. -/
theorem decode_payload_payload (hitem : Reads item valid CanonicalValue.body) (hvalue : Readable value)
    (hitems : ∀ item ∈ value.items, valid item) (rest : List UInt8) :
    (decode_payload item value.tag).run (value.payload ++ rest) = .ok (value, rest) := by
  obtain ⟨⟨⟨hcount, hkeys⟩, htext⟩, hchain⟩ := hvalue
  rw [decode_payload_tag]
  cases value with
  | Null | Boolean value => rfl
  | Int64 value => exact decode_int64_eq_ok_iff.mpr ⟨value, rfl, rfl⟩
  | Timestamp value => exact decode_timestamp_eq_ok_iff.mpr ⟨value, rfl, rfl⟩
  | Float64 value => exact decode_float64_eq_ok_iff.mpr ⟨value, rfl, rfl⟩
  | String text => exact decode_string_eq_ok_iff.mpr ⟨text, rfl, htext, rfl⟩
  | Bytes text => exact decode_bytes_eq_ok_iff.mpr ⟨text, rfl, htext, rfl⟩
  | TypedId id => exact decode_typed_id_eq_ok_iff.mpr ⟨id, rfl, rfl⟩
  | Array values => exact (decode_array_eq_ok_iff hitem).mpr ⟨values, rfl, hcount, hitems, rfl⟩
  | Object fields =>
    rw [CanonicalValue.items, List.length_map] at hcount
    refine (decode_object_eq_ok_iff hitem).mpr ⟨fields, rfl, hcount, hchain, fun field hfield => ⟨?_, ?_⟩, rfl⟩
    · exact hkeys field.1 (List.mem_map_of_mem hfield)
    · exact hitems field.2 (List.mem_map_of_mem hfield)

end

/-- The decoder of bodies inverts the encoder, for the values that are at most `levels` deep. -/
theorem decode_body_reads (levels : Nat) : Reads (decode_body levels) (Nested Readable levels) CanonicalValue.body := by
  intro input value rest
  induction levels generalizing input value rest with
  | zero => simp [decode_body, run_lift_iff, Nested]
  | succ levels ih =>
    simp only [decode_body, run_bind_iff, byte_eq_ok_iff, Nested]
    constructor
    · rintro ⟨tag, _, rfl, h⟩
      obtain ⟨rfl, hvalue, rfl⟩ := decode_payload_eq_ok ih h
      exact ⟨hvalue, rfl⟩
    · rintro ⟨hvalue, rfl⟩
      exact ⟨value.tag, _, rfl, decode_payload_payload ih hvalue.1 hvalue.2 rest⟩

variable {value : CanonicalValue} {encoded : List UInt8}

/-- The decoder accepts exactly what the encoder writes. -/
theorem decode_stored_value_eq_ok_iff : decode_stored_value encoded = .ok value ↔
      Nested Readable (MAX_DEPTH + 1) value ∧ encoded.length ≤ STORED_VALUE_MAX_BYTES ∧ encoded = value.encoding := by
  simp only [decode_stored_value, fallible.bind_eq_ok_iff, ite_error_eq_ok_iff, Prod.exists, run_take_iff,
    byte_eq_ok_iff, decode_body_reads _ _ _ _, Nat.not_lt, not_not]
  constructor
  · rintro ⟨hle, magic, _, ⟨_, rfl⟩, rfl, version, _, rfl, rfl, value', rest, ⟨hvalue, rfl⟩, hrest, h⟩
    cases h
    rw [Bool.not_eq_true, Bool.not_eq_false', List.isEmpty_iff] at hrest
    subst hrest
    rw [List.append_nil] at hle ⊢
    exact ⟨hvalue, hle, rfl⟩
  · rintro ⟨hvalue, hle, rfl⟩
    refine ⟨hle, _, _, ⟨rfl, rfl⟩, rfl, _, _, rfl, rfl, value, [], ⟨hvalue, ?_⟩, by simp, rfl⟩
    rw [List.append_nil]

/-- For the values of the source the decoder accepts what the encoder accepts. -/
theorem nested_readable_iff (hlen : value.encoding.length ≤ STORED_VALUE_MAX_BYTES) :
    Nested Readable (MAX_DEPTH + 1) value ↔ value.WithinLimits ∧ value.Sorted := by
  constructor
  · intro h
    exact ⟨⟨h.mono fun _ hnode => hnode.1.1, hlen⟩, (h.mono fun _ hnode => hnode.2).everywhere⟩
  · rintro ⟨⟨hsmall, _⟩, hsorted⟩
    have hbody : value.body.length ≤ STORED_VALUE_MAX_BYTES := by
      simp only [CanonicalValue.encoding, List.length_append, List.length_cons] at hlen
      omega
    exact (hsmall.short hbody).and hsorted

theorem decode_stored_value_eq_ok
    (h : decode_stored_value encoded = .ok value) : value.Sorted ∧ encode_stored_value value = .ok encoded := by
  obtain ⟨hreadable, hle, rfl⟩ := decode_stored_value_eq_ok_iff.mp h
  obtain ⟨hlimits, hsorted⟩ := (nested_readable_iff hle).mp hreadable
  exact ⟨hsorted, encode_stored_value_eq_ok_iff.mpr ⟨hlimits, rfl⟩⟩

/-- A value whose object fields are in order is read back from its encoding. -/
theorem decode_stored_value_of_encode (hsorted : value.Sorted)
    (h : encode_stored_value value = .ok encoded) : decode_stored_value encoded = .ok value := by
  obtain ⟨hlimits, rfl⟩ := encode_stored_value_eq_ok_iff.mp h
  have hreadable := (nested_readable_iff hlimits.2).mpr ⟨hlimits, hsorted⟩
  exact decode_stored_value_eq_ok_iff.mpr ⟨hreadable, hlimits.2, rfl⟩

/-- Stored Value v1 is a canonical bijection between the values within its limits and the byte strings its
decoder accepts. -/
theorem stored_value_bijective :
    (∀ value, (∃ encoded, encode_stored_value value = .ok encoded) ↔ value.WithinLimits) ∧
    (∀ value encoded, value.Sorted → encode_stored_value value = .ok encoded →
      decode_stored_value encoded = .ok value) ∧ (∀ encoded value, decode_stored_value encoded = .ok value →
      value.Sorted ∧ encode_stored_value value = .ok encoded) ∧
    (∀ encoded encoded' value, decode_stored_value encoded = .ok value → decode_stored_value encoded' = .ok value →
      encoded = encoded') := by
  refine ⟨fun value => ?_, fun _ _ => decode_stored_value_of_encode, fun _ _ => decode_stored_value_eq_ok,
    fun encoded encoded' value h h' => ?_⟩
  · simp only [encode_stored_value_eq_ok_iff, exists_and_left, exists_eq, and_true]
  · have hencoded := (decode_stored_value_eq_ok h).2
    rw [(decode_stored_value_eq_ok h').2] at hencoded
    exact (Except.ok.inj hencoded).symm

/-- An object with an array inside is read back from its encoding. -/
theorem decode_encoded_object : decode_stored_value [0x52, 0x56, 1, 0x31, 0, 0, 0, 2, 0, 1, 97, 0x30, 0, 0, 0, 1,
    0x10, 0, 0, 0, 0, 0, 0, 0, 5, 0, 1, 98, 0x02] =
      .ok (.Object [("a", .Array [.Int64 5]), ("b", .Boolean true)]) := by
  refine stored_value_bijective.2.1 _ _ ?_ (by decide +kernel)
  have hscalar : ∀ value : CanonicalValue, value.items = [] → object_keys value = [] → value.Sorted := by
    intro value hitems hkeys
    refine .intro ?_ ?_
    · rw [hkeys]
      exact .nil
    · rw [hitems]
      exact nofun
  refine .intro (.cons_cons (by decide +kernel) (.singleton _)) ?_
  refine List.forall_mem_cons.mpr ⟨.intro .nil ?_, List.forall_mem_singleton.mpr (hscalar _ rfl rfl)⟩
  exact List.forall_mem_singleton.mpr (hscalar _ rfl rfl)

end runku.value
