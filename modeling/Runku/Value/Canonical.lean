import Mathlib.Algebra.Group.Int.Defs
import Runku.Core.Id

/-! `runku-value/src/value.rs`. -/

namespace runku.value

open runku.core bytes

/-- Whether the IEEE-754 double with these bits is finite: its exponent field is not all ones. -/
def is_finite (bits : UInt64) : Bool := (bits >>> 52) &&& 0x7ff != 0x7ff

/-- The bits of negative zero. -/
def NEGATIVE_ZERO : UInt64 := 0x8000000000000000

/-- The one way a double is not canonical. -/
inductive FloatError
  | NonFinite
  deriving DecidableEq

/-- A finite double, held by its bits, with one representation of zero. -/
structure FiniteF64 where
  to_bits : UInt64
  finite : is_finite to_bits = true
  normalized : to_bits ≠ NEGATIVE_ZERO
  deriving DecidableEq

/-- Validates a double given by its bits and replaces negative zero by zero. -/
def FiniteF64.new (bits : UInt64) : Except FloatError FiniteF64 :=
  if hfinite : is_finite bits = true then
    if hzero : bits = NEGATIVE_ZERO then .ok ⟨0, by decide, by decide⟩
    else .ok ⟨bits, hfinite, hzero⟩
  else .error .NonFinite

theorem FiniteF64.new_to_bits (value : FiniteF64) : FiniteF64.new value.to_bits = .ok value := by
  simp [FiniteF64.new, value.finite, value.normalized]

/-- Microseconds since the Unix epoch. -/
abbrev TimestampMicros := Int64

/-- `now + delay`, unless the delay or the sum leaves the range of a signed 64-bit integer. -/
def checked_add_micros (now : TimestampMicros) (delay : Nat) : Option TimestampMicros :=
  if delay < 2 ^ 63 ∧ now.toInt + delay < 2 ^ 63 then some (Int64.ofInt (now.toInt + delay)) else none

def MAX_ID_KIND_BYTES : Nat := 16

def MAX_TYPED_ID_BYTES : Nat := MAX_ID_KIND_BYTES + 1 + 26

inductive ParseTypedIdError
  | MissingSeparator
  | EmptyKind
  | TooLong
  | InvalidKind
  | InvalidUlid
  deriving DecidableEq

def validate_kind (kind : String) : Except ParseTypedIdError Unit :=
  if kind.isEmpty then .error .EmptyKind
  else if (as_bytes kind).length > MAX_ID_KIND_BYTES then .error .TooLong
  else if !(as_bytes kind).all fun character =>
      is_ascii_lowercase character || is_ascii_digit character then .error .InvalidKind
  else .ok ()

/-- An identifier of an application-chosen kind; only valid kinds exist. -/
structure TypedId where
  kind : String
  ulid : Ulid
  valid_kind : validate_kind kind = .ok ()
  deriving DecidableEq

def TypedId.to_string (id : TypedId) : String := id.kind ++ "_" ++ id.ulid.to_string

/-- Splits at the first underscore. -/
def split_once : List Char → Option (List Char × List Char)
  | [] => none
  | c :: cs => if c = '_' then some ([], cs) else (split_once cs).map fun p => (c :: p.1, p.2)

def TypedId.from_str (value : String) : Except ParseTypedIdError TypedId :=
  if (as_bytes value).length > MAX_TYPED_ID_BYTES then .error .TooLong
  else
    match split_once value.toList with
    | none => .error .MissingSeparator
    | some (kind, payload) =>
      match hkind : validate_kind (String.ofList kind) with
      | .error error => .error error
      | .ok () =>
        match Ulid.from_string (String.ofList payload) with
        | none => .error .InvalidUlid
        | some ulid =>
          if ulid.to_string ≠ String.ofList payload then .error .InvalidUlid
          else .ok ⟨String.ofList kind, ulid, hkind⟩

theorem split_once_append {kind : List Char} (hkind : '_' ∉ kind) (payload : List Char) :
    split_once (kind ++ '_' :: payload) = some (kind, payload) := by
  induction kind with
  | nil => simp [split_once]
  | cons c kind ih =>
    rw [List.mem_cons, not_or] at hkind
    simp [split_once, Ne.symm hkind.1, ih hkind.2]

/-- What a valid kind is made of. -/
theorem validate_kind_eq_ok {kind : String} (h : validate_kind kind = .ok ()) :
    (as_bytes kind).length ≤ MAX_ID_KIND_BYTES ∧
      ∀ c ∈ as_bytes kind, (is_ascii_lowercase c || is_ascii_digit c) = true := by
  unfold validate_kind at h
  split at h
  · cases h
  · split at h
    · cases h
    · rename_i hlen
      split at h
      · cases h
      · rename_i hall
        rw [Bool.not_eq_true, Bool.not_eq_false', List.all_eq_true] at hall
        exact ⟨not_lt.mp hlen, hall⟩

/-- A valid kind has nothing that splits the text elsewhere. -/
theorem underscore_notMem_of_validate_kind {kind : String} (h : validate_kind kind = .ok ()) : '_' ∉ kind.toList := by
  intro hmem
  have hbyte : (95 : UInt8) ∈ as_bytes kind := by
    rw [as_bytes_eq_flatMap, List.mem_flatMap]
    exact ⟨'_', hmem, by decide⟩
  exact absurd ((validate_kind_eq_ok h).2 95 hbyte) (by decide)

/-- Every typed identifier is read back from its text. -/
@[simp]
theorem TypedId.from_str_to_string (id : TypedId) : TypedId.from_str id.to_string = .ok id := by
  have hsplit : split_once id.to_string.toList = some (id.kind.toList, id.ulid.to_string.toList) := by
    have htext : id.to_string.toList = id.kind.toList ++ '_' :: id.ulid.to_string.toList := by
      simp [TypedId.to_string]
    rw [htext, split_once_append (underscore_notMem_of_validate_kind id.valid_kind)]
  have hlen : (as_bytes id.to_string).length ≤ MAX_TYPED_ID_BYTES := by
    have := (validate_kind_eq_ok id.valid_kind).1
    simp only [TypedId.to_string, as_bytes_append, List.length_append,
      id.ulid.length_as_bytes_to_string, MAX_TYPED_ID_BYTES]
    have hsep : (as_bytes "_").length = 1 := by decide
    omega
  unfold TypedId.from_str
  rw [if_neg (not_lt.mpr hlen), hsplit]
  dsimp only
  split
  · rename_i hkind
    rw [String.ofList_toList, id.valid_kind] at hkind
    cases hkind
  · simp

theorem eq_append_of_split_once {text kind payload : List Char} (h : split_once text = some (kind, payload)) :
    text = kind ++ '_' :: payload := by
  induction text generalizing kind with
  | nil => cases h
  | cons c text ih =>
    rw [split_once] at h
    split at h
    · rename_i hc
      cases h
      rw [hc, List.nil_append]
    · obtain ⟨⟨kind', payload'⟩, hsplit, hpair⟩ := Option.map_eq_some_iff.mp h
      cases hpair
      rw [List.cons_append, ← ih hsplit]

/-- Only the text of an identifier is read as that identifier. -/
theorem TypedId.to_string_of_from_str {value : String} {id : TypedId} (h : TypedId.from_str value = .ok id) :
    id.to_string = value := by
  unfold TypedId.from_str at h
  split at h
  · cases h
  · split at h
    · cases h
    · rename_i kind payload hsplit
      split at h
      · cases h
      · split at h
        · cases h
        · split at h
          · cases h
          · rename_i hulid
            cases h
            rw [TypedId.to_string, not_not.mp hulid]
            apply String.toList_injective
            rw [eq_append_of_split_once hsplit]
            simp

/-- The values an application can store. Object fields stand in ascending key order. -/
inductive CanonicalValue
  | Null
  | Boolean (value : Bool)
  | Int64 (value : Int64)
  | Float64 (value : FiniteF64)
  | String (value : String)
  | Bytes (value : List UInt8)
  | Timestamp (value : TimestampMicros)
  | TypedId (value : TypedId)
  | Array (values : List CanonicalValue)
  | Object (fields : List (String × CanonicalValue))

/-- The fields of an object, a `BTreeMap` from names to values. -/
abbrev Fields := List (String × CanonicalValue)

mutual

def CanonicalValue.beq : CanonicalValue → CanonicalValue → Bool
  | .Null, .Null => true
  | .Boolean a, .Boolean b => a == b
  | .Int64 a, .Int64 b => a == b
  | .Float64 a, .Float64 b => a == b
  | .String a, .String b => a == b
  | .Bytes a, .Bytes b => a == b
  | .Timestamp a, .Timestamp b => a == b
  | .TypedId a, .TypedId b => a == b
  | .Array a, .Array b => CanonicalValue.beq_values a b
  | .Object a, .Object b => CanonicalValue.beq_fields a b
  | _, _ => false

def CanonicalValue.beq_values : List CanonicalValue → List CanonicalValue → Bool
  | [], [] => true
  | a :: as, b :: bs => CanonicalValue.beq a b && CanonicalValue.beq_values as bs
  | _, _ => false

def CanonicalValue.beq_fields : Fields → Fields → Bool
  | [], [] => true
  | (k, a) :: as, (l, b) :: bs => k == l && CanonicalValue.beq a b && CanonicalValue.beq_fields as bs
  | _, _ => false

end

mutual

theorem CanonicalValue.beq_iff (a b : CanonicalValue) : a.beq b = true ↔ a = b := by
  cases a <;> cases b <;>
    simp [CanonicalValue.beq, CanonicalValue.beq_values_iff, CanonicalValue.beq_fields_iff]

theorem CanonicalValue.beq_values_iff (as bs : List CanonicalValue) :
    CanonicalValue.beq_values as bs = true ↔ as = bs := by
  cases as with
  | nil => cases bs <;> simp [CanonicalValue.beq_values]
  | cons a as =>
    cases bs with
    | nil => simp [CanonicalValue.beq_values]
    | cons b bs =>
      simp [CanonicalValue.beq_values, CanonicalValue.beq_iff a b, CanonicalValue.beq_values_iff as bs]

theorem CanonicalValue.beq_fields_iff (as bs : Fields) : CanonicalValue.beq_fields as bs = true ↔ as = bs := by
  cases as with
  | nil => cases bs <;> simp [CanonicalValue.beq_fields]
  | cons a as =>
    obtain ⟨k, a⟩ := a
    cases bs with
    | nil => simp [CanonicalValue.beq_fields]
    | cons b bs =>
      obtain ⟨l, b⟩ := b
      simp [CanonicalValue.beq_fields, CanonicalValue.beq_iff a b, CanonicalValue.beq_fields_iff as bs]

end

instance : DecidableEq CanonicalValue := fun a b =>
  decidable_of_iff (a.beq b = true) (CanonicalValue.beq_iff a b)

/-- The value of a field. -/
def Fields.get (fields : Fields) (key : String) : Option CanonicalValue :=
  List.lookup key fields

end runku.value
