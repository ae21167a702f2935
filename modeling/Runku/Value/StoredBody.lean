import Runku.Value.Stored
import Runku.Lib.Fallible

namespace runku.value

open bytes fallible

/-- The values directly inside a value. -/
def CanonicalValue.items : CanonicalValue → List CanonicalValue
  | .Array values => values
  | .Object fields => fields.map Prod.snd
  | _ => []

/-- The keys of an object. -/
def object_keys : CanonicalValue → List String
  | .Object fields => fields.map Prod.fst
  | _ => []

/-- The bytes of variable length a scalar holds. -/
def CanonicalValue.text : CanonicalValue → List UInt8
  | .String value => as_bytes value
  | .Bytes value => value
  | _ => []

def CanonicalValue.tag : CanonicalValue → UInt8
  | .Null => 0x00
  | .Boolean false => 0x01
  | .Boolean true => 0x02
  | .Int64 _ => 0x10
  | .Float64 _ => 0x11
  | .String _ => 0x20
  | .Bytes _ => 0x21
  | .Timestamp _ => 0x22
  | .TypedId _ => 0x23
  | .Array _ => 0x30
  | .Object _ => 0x31

mutual

/-- What follows the tag of a value. -/
def CanonicalValue.payload : CanonicalValue → List UInt8
  | .Null | .Boolean _ => []
  | .Int64 value | .Timestamp value => to_be_bytes 8 value.toUInt64.toNat
  | .Float64 value => to_be_bytes 8 value.to_bits.toNat
  | .String value => to_be_bytes 4 (as_bytes value).length ++ as_bytes value
  | .Bytes value => to_be_bytes 4 value.length ++ value
  | .TypedId value => to_be_bytes 2 (as_bytes value.to_string).length ++ as_bytes value.to_string
  | .Array values => to_be_bytes 4 values.length ++ CanonicalValue.values_payload values
  | .Object fields => to_be_bytes 4 fields.length ++ CanonicalValue.fields_payload fields

def CanonicalValue.values_payload : List CanonicalValue → List UInt8
  | [] => []
  | item :: values => item.tag :: item.payload ++ CanonicalValue.values_payload values

def CanonicalValue.fields_payload : Fields → List UInt8
  | [] => []
  | (key, item) :: fields =>
    to_be_bytes 2 (as_bytes key).length ++ as_bytes key ++ item.tag :: item.payload ++
      CanonicalValue.fields_payload fields

end

/-- The bytes of a value without the envelope. -/
def CanonicalValue.body (value : CanonicalValue) : List UInt8 := value.tag :: value.payload

/-- The bytes of one field of an object. -/
def field_body (field : String × CanonicalValue) : List UInt8 :=
  to_be_bytes 2 (as_bytes field.1).length ++ as_bytes field.1 ++ field.2.body

theorem values_payload_eq_flatMap (values : List CanonicalValue) :
    CanonicalValue.values_payload values = values.flatMap CanonicalValue.body := by
  induction values with
  | nil => simp [CanonicalValue.values_payload]
  | cons item values ih => simp [CanonicalValue.values_payload, CanonicalValue.body, ih]

theorem fields_payload_eq_flatMap (fields : Fields) :
    CanonicalValue.fields_payload fields = fields.flatMap field_body := by
  induction fields with
  | nil => simp [CanonicalValue.fields_payload]
  | cons field fields ih =>
    obtain ⟨key, item⟩ := field
    simp [CanonicalValue.fields_payload, field_body, CanonicalValue.body, ih]

theorem body_array (values : List CanonicalValue) : (CanonicalValue.Array values).body =
    0x30 :: (to_be_bytes 4 values.length ++ values.flatMap CanonicalValue.body) := by
  rw [CanonicalValue.body, CanonicalValue.payload, values_payload_eq_flatMap]
  rfl

theorem body_object (fields : Fields) : (CanonicalValue.Object fields).body =
    0x31 :: (to_be_bytes 4 fields.length ++ fields.flatMap field_body) := by
  rw [CanonicalValue.body, CanonicalValue.payload, fields_payload_eq_flatMap]
  rfl

/-- What is inside a value takes no more bytes than the value. -/
theorem length_body_le_of_mem_items {value item : CanonicalValue} (hitem : item ∈ value.items) :
    item.body.length ≤ value.body.length := by
  cases value with
  | Array values =>
    rw [CanonicalValue.items] at hitem
    have hle := (List.sublist_flatten_of_mem (List.mem_map_of_mem (f := CanonicalValue.body) hitem)).length_le
    rw [← List.flatMap_def] at hle
    simp only [body_array, List.length_cons, List.length_append]
    omega
  | Object fields =>
    obtain ⟨field, hfield, rfl⟩ := List.mem_map.mp hitem
    have hle := (List.sublist_flatten_of_mem (List.mem_map_of_mem (f := field_body) hfield)).length_le
    rw [← List.flatMap_def] at hle
    simp only [field_body, List.length_append] at hle
    simp only [body_object, List.length_cons, List.length_append]
    omega
  | _ => cases hitem

/-- A condition on every node of a value that is at most `levels` deep. -/
def Nested (node : CanonicalValue → Prop) : Nat → CanonicalValue → Prop
  | 0, _ => False
  | levels + 1, value => node value ∧ ∀ item ∈ value.items, Nested node levels item

/-- A condition on every node of a value. -/
inductive Everywhere (node : CanonicalValue → Prop) : CanonicalValue → Prop
  | intro {value : CanonicalValue} (hnode : node value) (hitems : ∀ item ∈ value.items, Everywhere node item) :
      Everywhere node value

section
variable {p q : CanonicalValue → Prop} {levels : Nat} {value : CanonicalValue}

theorem Nested.mono (hpq : ∀ value, p value → q value) (h : Nested p levels value) : Nested q levels value := by
  induction levels generalizing value with
  | zero => exact h
  | succ levels ih => exact ⟨hpq value h.1, fun item hitem => ih (h.2 item hitem)⟩

theorem Nested.everywhere (h : Nested p levels value) : Everywhere p value := by
  induction levels generalizing value with
  | zero => exact h.elim
  | succ levels ih => exact .intro h.1 fun item hitem => ih (h.2 item hitem)

theorem Nested.and (h : Nested p levels value) (hq : Everywhere q value) :
    Nested (fun value => p value ∧ q value) levels value := by
  induction levels generalizing value with
  | zero => exact h
  | succ levels ih =>
    obtain ⟨hnode, hitems⟩ := hq
    exact ⟨⟨h.1, hnode⟩, fun item hitem => ih (h.2 item hitem) (hitems item hitem)⟩

end

/-- The limits on one node: the number of its items and the length of its keys. -/
def Small (value : CanonicalValue) : Prop :=
  value.items.length ≤ MAX_CONTAINER_ITEMS ∧ ∀ key ∈ object_keys value, (as_bytes key).length ≤ MAX_OBJECT_KEY_BYTES

/-- Keys in the strict byte order of a `BTreeMap`. -/
def Ascending (keys : List String) : Prop := keys.IsChain fun a b => as_bytes a < as_bytes b

/-- The values of the source: every object is a map, so its keys ascend. -/
def CanonicalValue.Sorted (value : CanonicalValue) : Prop := Everywhere (fun node => Ascending (object_keys node)) value

/-- The bytes of an encoded value: the envelope and the body. -/
def CanonicalValue.encoding (value : CanonicalValue) : List UInt8 :=
  STORED_VALUE_MAGIC ++ STORED_VALUE_FORMAT_VERSION :: value.body

/-- The limits of the format: the items and keys of every node, the depth and the size. -/
def CanonicalValue.WithinLimits (value : CanonicalValue) : Prop :=
  Nested Small (MAX_DEPTH + 1) value ∧ value.encoding.length ≤ STORED_VALUE_MAX_BYTES

/-- A node whose variable bytes are no longer than a whole value. -/
def Short (value : CanonicalValue) : Prop := Small value ∧ value.text.length ≤ STORED_VALUE_MAX_BYTES

theorem length_text_le (value : CanonicalValue) : value.text.length ≤ value.body.length := by
  cases value with
  | String value | Bytes value =>
    simp only [CanonicalValue.text, CanonicalValue.body, CanonicalValue.payload, List.length_cons, List.length_append]
    omega
  | _ => exact Nat.zero_le _

variable {levels : Nat} {value : CanonicalValue}

/-- Every text inside a value that fits is short. -/
theorem Nested.short (h : Nested Small levels value)
    (hlen : value.body.length ≤ STORED_VALUE_MAX_BYTES) : Nested Short levels value := by
  induction levels generalizing value with
  | zero => exact h
  | succ levels ih =>
    refine ⟨⟨h.1, (length_text_le value).trans hlen⟩, fun item hitem => ?_⟩
    exact ih (h.2 item hitem) ((length_body_le_of_mem_items hitem).trans hlen)

theorem checked_sum_eq_ok_iff {left right n : Nat} :
    checked_sum left right = .ok n ↔ n = left + right ∧ n ≤ STORED_VALUE_MAX_BYTES := by
  unfold checked_sum
  split
  · constructor
    · intro h
      cases h
      exact ⟨rfl, ‹_›⟩
    · rintro ⟨rfl, _⟩
      rfl
  · simp only [reduceCtorEq, false_iff, not_and]
    rintro rfl
    assumption

theorem ensure_container_count_eq_ok_iff {count : Nat} {u : Unit} :
    ensure_container_count count = .ok u ↔ count ≤ MAX_CONTAINER_ITEMS := by
  simp [ensure_container_count]

theorem ensure_variable_length_eq_ok_iff {length : Nat} {u : Unit} :
    ensure_variable_length length = .ok u ↔ length ≤ STORED_VALUE_MAX_BYTES := by
  simp [ensure_variable_length]

theorem ensure_body_length_eq_ok_iff {length n : Nat} :
    ensure_body_length length = .ok n ↔ n = length ∧ n ≤ STORED_VALUE_MAX_BYTES := by
  rw [ensure_body_length, ite_error_eq_ok_iff, Except.ok.injEq, Nat.not_lt]
  constructor
  · rintro ⟨hle, rfl⟩
    exact ⟨rfl, hle⟩
  · rintro ⟨rfl, hle⟩
    exact ⟨hle, rfl⟩

/-- The measure of one value at a depth that leaves `levels` levels. -/
def Measures (levels depth : Nat) (value : CanonicalValue) : Prop :=
  ∀ n, encoded_body_len value depth = .ok n ↔
    Nested Small levels value ∧ n = value.body.length ∧ n ≤ STORED_VALUE_MAX_BYTES

theorem encoded_values_len_eq_ok_iff {levels depth length n : Nat} {values : List CanonicalValue}
    (hitems : ∀ item ∈ values, Measures levels (depth + 1) item) (hlength : length ≤ STORED_VALUE_MAX_BYTES) :
    encoded_values_len values depth length = .ok n ↔ (∀ item ∈ values, Nested Small levels item) ∧
      n = length + (values.flatMap CanonicalValue.body).length ∧ n ≤ STORED_VALUE_MAX_BYTES := by
  induction values generalizing length with
  | nil =>
    simp only [encoded_values_len, Except.ok.injEq, List.not_mem_nil, false_implies, implies_true, true_and,
      List.flatMap_nil, List.length_nil, Nat.add_zero]
    constructor
    · rintro rfl
      exact ⟨rfl, hlength⟩
    · rintro ⟨rfl, _⟩
      rfl
  | cons item values ih =>
    rw [List.forall_mem_cons] at hitems
    simp only [encoded_values_len, bind_eq_ok_iff, hitems.1 _, checked_sum_eq_ok_iff, List.forall_mem_cons,
      List.flatMap_cons, List.length_append]
    constructor
    · rintro ⟨body, ⟨hitem, rfl, _⟩, sum, ⟨rfl, hsum⟩, h⟩
      obtain ⟨hvalues, hn, hle⟩ := (ih hitems.2 hsum).mp h
      exact ⟨⟨hitem, hvalues⟩, by omega, hle⟩
    · rintro ⟨⟨hitem, hvalues⟩, hn, hle⟩
      refine ⟨_, ⟨hitem, rfl, by omega⟩, _, ⟨rfl, by omega⟩, (ih hitems.2 (by omega)).mpr ⟨hvalues, by omega, hle⟩⟩

theorem encoded_fields_len_eq_ok_iff {levels depth length n : Nat} {fields : Fields}
    (hitems : ∀ field ∈ fields, Measures levels (depth + 1) field.2) (hlength : length ≤ STORED_VALUE_MAX_BYTES) :
    encoded_fields_len fields depth length = .ok n ↔
      (∀ field ∈ fields, (as_bytes field.1).length ≤ MAX_OBJECT_KEY_BYTES ∧ Nested Small levels field.2) ∧
      n = length + (fields.flatMap field_body).length ∧ n ≤ STORED_VALUE_MAX_BYTES := by
  induction fields generalizing length with
  | nil =>
    simp only [encoded_fields_len, Except.ok.injEq, List.not_mem_nil, false_implies, implies_true, true_and,
      List.flatMap_nil, List.length_nil, Nat.add_zero]
    constructor
    · rintro rfl
      exact ⟨rfl, hlength⟩
    · rintro ⟨rfl, _⟩
      rfl
  | cons field fields ih =>
    obtain ⟨key, item⟩ := field
    rw [List.forall_mem_cons] at hitems
    simp only [encoded_fields_len, ite_error_eq_ok_iff, bind_eq_ok_iff, hitems.1 _, checked_sum_eq_ok_iff,
      List.forall_mem_cons, List.flatMap_cons, List.length_append, field_body, length_to_be_bytes, Nat.not_lt]
    constructor
    · rintro ⟨hkey, _, ⟨rfl, _⟩, _, ⟨rfl, _⟩, body, ⟨hitem, rfl, _⟩, sum, ⟨rfl, hsum⟩, h⟩
      obtain ⟨hfields, hn, hle⟩ := (ih hitems.2 hsum).mp h
      exact ⟨⟨⟨hkey, hitem⟩, hfields⟩, by omega, hle⟩
    · rintro ⟨⟨⟨hkey, hitem⟩, hfields⟩, hn, hle⟩
      refine ⟨hkey, _, ⟨rfl, by omega⟩, _, ⟨rfl, by omega⟩, _, ⟨hitem, rfl, by omega⟩, _, ⟨rfl, by omega⟩, ?_⟩
      exact (ih hitems.2 (by omega)).mpr ⟨hfields, by omega, hle⟩

/-- A node with nothing inside is small. -/
theorem nested_small_of_items_eq_nil (hitems : value.items = [])
    (hkeys : object_keys value = []) : Nested Small (levels + 1) value := by
  refine ⟨⟨?_, ?_⟩, ?_⟩
  · rw [hitems]
    exact Nat.zero_le _
  · rw [hkeys]
    exact nofun
  · rw [hitems]
    exact nofun

theorem nested_small_array {values : List CanonicalValue} : Nested Small (levels + 1) (.Array values) ↔
      values.length ≤ MAX_CONTAINER_ITEMS ∧ ∀ item ∈ values, Nested Small levels item := by
  simp [Nested, Small, CanonicalValue.items, object_keys]

theorem nested_small_object {fields : Fields} :
    Nested Small (levels + 1) (.Object fields) ↔ fields.length ≤ MAX_CONTAINER_ITEMS ∧
      ∀ field ∈ fields, (as_bytes field.1).length ≤ MAX_OBJECT_KEY_BYTES ∧ Nested Small levels field.2 := by
  simp only [Nested, Small, CanonicalValue.items, object_keys, List.length_map, List.forall_mem_map, and_assoc,
    forall_and]

/-- A typed identifier is never too long for its encoding. -/
theorem length_to_string_le (id : TypedId) : (as_bytes id.to_string).length ≤ MAX_TYPED_ID_BYTES := by
  have hparsed := id.from_str_to_string
  unfold TypedId.from_str at hparsed
  split at hparsed
  · cases hparsed
  · exact Nat.le_of_not_lt ‹_›

/-- The measure of a value is the length of its body, for the values within the limits. -/
theorem encoded_body_len_measures {levels depth : Nat} (hdepth : levels + depth = MAX_DEPTH + 1)
    (value : CanonicalValue) : Measures levels depth value := by
  intro n
  induction levels generalizing depth value n with
  | zero =>
    rw [encoded_body_len, if_pos (by omega)]
    simp [Nested]
  | succ levels ih =>
    have hitems : ∀ item, Measures levels (depth + 1) item := fun item n => ih (by omega) item n
    have hscalar : value.items = [] → object_keys value = [] → Nested Small (levels + 1) value :=
      nested_small_of_items_eq_nil
    rw [encoded_body_len, if_neg (by omega)]
    cases value with
    | Array values =>
      have hiff := fun n => @encoded_values_len_eq_ok_iff levels depth 5 n values
        (fun item (_ : item ∈ values) => hitems item) (by decide)
      simp only [bind_eq_ok_iff, ensure_body_length_eq_ok_iff, ensure_container_count_eq_ok_iff, hiff, nested_small_array, body_array,
        List.length_cons, List.length_append, length_to_be_bytes]
      grind
    | Object fields =>
      have hiff := fun n => @encoded_fields_len_eq_ok_iff levels depth 5 n fields
        (fun field (_ : field ∈ fields) => hitems field.2) (by decide)
      simp only [bind_eq_ok_iff, ensure_body_length_eq_ok_iff, ensure_container_count_eq_ok_iff, hiff, nested_small_object, body_object,
        List.length_cons, List.length_append, length_to_be_bytes]
      grind
    | TypedId id =>
      have hlen := length_to_string_le id
      have hsmall := hscalar rfl rfl
      simp only [bind_eq_ok_iff, ensure_body_length_eq_ok_iff, if_neg (Nat.not_lt.mpr hlen), checked_sum_eq_ok_iff, hsmall, CanonicalValue.body,
        CanonicalValue.payload, List.length_cons, List.length_append, length_to_be_bytes]
      grind
    | String text | Bytes text =>
      have hsmall := hscalar rfl rfl
      simp only [bind_eq_ok_iff, ensure_body_length_eq_ok_iff, ensure_variable_length_eq_ok_iff, checked_sum_eq_ok_iff, hsmall,
        CanonicalValue.body, CanonicalValue.payload, List.length_cons, List.length_append, length_to_be_bytes]
      grind
    | Null | Boolean | Int64 | Float64 | Timestamp =>
      have hsmall := hscalar rfl rfl
      simp [ensure_body_length_eq_ok_iff, hsmall, CanonicalValue.body, CanonicalValue.payload]

theorem push_u32_of_le {value limit : Nat} (hle : value ≤ limit) (hlimit : limit < 2 ^ 32) :
    push_u32 value = .ok (to_be_bytes 4 value) := if_pos (Nat.lt_of_le_of_lt hle hlimit)

theorem push_u16_of_le {value limit : Nat} (hle : value ≤ limit) (hlimit : limit < 2 ^ 16) :
    push_u16 value = .ok (to_be_bytes 2 value) := if_pos (Nat.lt_of_le_of_lt hle hlimit)

theorem encode_values_eq_ok {values : List CanonicalValue}
    (hitems : ∀ item ∈ values, encode_body item = .ok item.body) :
    encode_values values = .ok (values.flatMap CanonicalValue.body) := by
  induction values with
  | nil => rfl
  | cons item values ih =>
    rw [List.forall_mem_cons] at hitems
    simp [encode_values, hitems.1, ih hitems.2]

theorem encode_fields_eq_ok {fields : Fields}
    (hkeys : ∀ field ∈ fields, (as_bytes field.1).length ≤ MAX_OBJECT_KEY_BYTES)
    (hitems : ∀ field ∈ fields, encode_body field.2 = .ok field.2.body) :
    encode_fields fields = .ok (fields.flatMap field_body) := by
  induction fields with
  | nil => rfl
  | cons field fields ih =>
    obtain ⟨key, item⟩ := field
    rw [List.forall_mem_cons] at hkeys hitems
    have hkey := push_u16_of_le hkeys.1 (by decide)
    simp [encode_fields, hkey, hitems.1, ih hkeys.2 hitems.2, field_body]

/-- The encoder writes the body of every value within the limits. -/
theorem encode_body_eq_ok (h : Nested Short levels value) : encode_body value = .ok value.body := by
  induction levels generalizing value with
  | zero => exact h.elim
  | succ levels ih =>
    obtain ⟨⟨⟨hcount, hkeys⟩, htext⟩, hitems⟩ := h
    cases value with
    | Array values =>
      have hlen := push_u32_of_le hcount (by decide)
      have hvalues := encode_values_eq_ok fun item hitem => ih (hitems item hitem)
      simp only [CanonicalValue.items] at hlen hvalues
      simp [encode_body, hlen, hvalues, body_array]
    | Object fields =>
      simp only [CanonicalValue.items, object_keys, List.length_map, List.forall_mem_map] at hcount hkeys hitems
      have hlen := push_u32_of_le hcount (by decide)
      have hfields := encode_fields_eq_ok hkeys fun field hfield => ih (hitems field hfield)
      simp [encode_body, hlen, hfields, body_object]
    | String text | Bytes text =>
      have hlen := push_u32_of_le htext (by decide)
      rw [CanonicalValue.text] at hlen
      simp [encode_body, hlen, CanonicalValue.body, CanonicalValue.payload, CanonicalValue.tag]
    | TypedId id =>
      have hlen := push_u16_of_le (length_to_string_le id) (by decide)
      simp [encode_body, hlen, CanonicalValue.body, CanonicalValue.payload, CanonicalValue.tag]
    | Boolean value => cases value <;> rfl
    | _ => rfl

/-- The encoder accepts exactly the values within the limits, and writes their encoding. -/
theorem encode_stored_value_eq_ok_iff {encoded : List UInt8} :
    encode_stored_value value = .ok encoded ↔ value.WithinLimits ∧ encoded = value.encoding := by
  have hmeasure := @encoded_body_len_measures (MAX_DEPTH + 1) 0 rfl value
  have hlength : value.encoding.length = STORED_VALUE_MAGIC.length + 1 + value.body.length := by
    simp only [CanonicalValue.encoding, List.length_append, List.length_cons]
    omega
  simp only [encode_stored_value, bind_eq_ok_iff, hmeasure _, ite_error_eq_ok_iff, CanonicalValue.WithinLimits,
    hlength]
  constructor
  · rintro ⟨_, ⟨hsmall, rfl, hle⟩, hfits, body, hbody, h⟩
    rw [encode_body_eq_ok (hsmall.short hle)] at hbody
    cases hbody
    exact ⟨⟨hsmall, Nat.le_of_not_lt hfits⟩, (Except.ok.inj h).symm.trans (List.append_assoc _ _ _)⟩
  · rintro ⟨⟨hsmall, hfits⟩, rfl⟩
    have hle : value.body.length ≤ STORED_VALUE_MAX_BYTES := (Nat.le_add_left _ _).trans hfits
    refine ⟨_, ⟨hsmall, rfl, hle⟩, Nat.not_lt.mpr hfits, _, encode_body_eq_ok (hsmall.short hle), ?_⟩
    exact congrArg Except.ok (List.append_assoc _ _ _)

end runku.value
