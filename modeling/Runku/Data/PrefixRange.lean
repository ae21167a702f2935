import Runku.Data.Model
import Runku.Lib.PrefixOrder
import Runku.Value.IndexOrder

namespace runku.value

open bytes prefix_order

/-- The bytes of the first components of a key. -/
structure IndexKeyPrefix where
  encoded : List UInt8
  deriving DecidableEq

/-- The start of a key up to a number of components. -/
def IndexKey.prefix_of (key : IndexKey) (component_count : Nat) : Except IndexKeyError IndexKeyPrefix :=
  if component_count = 0 ∨ component_count > key.components.length then .error .PrefixComponentCountInvalid
  else do
    let encoded ← encode_components (key.components.take component_count) INDEX_KEY_HEADER
    return ⟨encoded⟩

def IndexKeyPrefix.inclusive_start (start : IndexKeyPrefix) : List UInt8 := start.encoded

/-- Drops the full bytes from the end and raises the last byte that is left. -/
def prefix_successor (start : List UInt8) : Option (List UInt8) := successor start

def IndexKeyPrefix.exclusive_end (start : IndexKeyPrefix) : Except IndexKeyError (List UInt8) :=
  match prefix_successor start.encoded with
  | none => .error .PrefixHasNoSuccessor
  | some stop => .ok stop

/-- The components of a key are within the bound on its bytes, and so are the first of them. -/
theorem encode_components_of_length {values : List IndexValue} {output : List UInt8}
    (h : (output ++ values.flatMap encode_component).length ≤ MAX_ENCODED_BYTES) :
    encode_components values output = .ok (output ++ values.flatMap encode_component) := by
  induction values generalizing output with
  | nil => simp [encode_components]
  | cons value values ih =>
    rw [List.flatMap_cons, ← List.append_assoc] at h ⊢
    have hsize : ensure_key_size (output ++ encode_component value).length = .ok () := by
      rw [ensure_key_size_eq_ok_iff]
      rw [List.length_append] at h
      omega
    rw [encode_components, hsize, fallible.ok_bind, ih h]

theorem IndexKey.length_as_bytes_le (key : IndexKey) : key.as_bytes.length ≤ MAX_ENCODED_BYTES := by
  have hkey := key.canonical
  simp only [encode_key, fallible.bind_eq_ok_iff, ensure_key_size_eq_ok_iff] at hkey
  obtain ⟨_, _, encoded, _, _, hsize, h⟩ := hkey
  rw [IndexKey.as_bytes, ← Except.ok.inj h]
  exact hsize

theorem IndexKey.length_component_le (key : IndexKey) {value : IndexValue} (h : value ∈ key.components) :
    (encode_component value).length ≤ MAX_ENCODED_BYTES := by
  have hkey := key.canonical
  simp only [encode_key, fallible.bind_eq_ok_iff] at hkey
  obtain ⟨_, _, encoded, hencoded, _⟩ := hkey
  exact (encode_components_eq_ok hencoded).2 value h

/-- The bytes of a number of leading components. -/
theorem IndexKey.prefix_of_eq_ok (key : IndexKey) {n : Nat} (hpos : 1 ≤ n) (hle : n ≤ key.components.length) :
    key.prefix_of n = .ok ⟨INDEX_KEY_HEADER ++ (key.components.take n).flatMap encode_component⟩ := by
  have hbytes : (INDEX_KEY_HEADER ++ (key.components.take n).flatMap encode_component).length ≤ MAX_ENCODED_BYTES := by
    have hkey := key.length_as_bytes_le
    rw [key.as_bytes_eq, ← List.take_append_drop n key.components, List.flatMap_append, ← List.append_assoc,
      List.length_append] at hkey
    omega
  have hcount : ¬(n = 0 ∨ n > key.components.length) := by omega
  rw [IndexKey.prefix_of, if_neg hcount, encode_components_of_length hbytes]
  rfl

/-- No component starts another one. -/
theorem encode_component_append_inj {a b : IndexValue} {u v : List UInt8}
    (ha : (encode_component a).length ≤ MAX_ENCODED_BYTES) (hb : (encode_component b).length ≤ MAX_ENCODED_BYTES)
    (h : encode_component a ++ u = encode_component b ++ v) : a = b ∧ u = v := by
  have hdecode := decode_component_encode_component u ha
  rw [h, decode_component_encode_component v hb] at hdecode
  cases hdecode
  exact ⟨rfl, rfl⟩

/-- The bytes of a key start with those of leading components exactly when the key starts with the components. -/
theorem IndexKey.prefix_iff (key other : IndexKey) {n : Nat} (hle : n ≤ key.components.length) :
    INDEX_KEY_HEADER ++ (key.components.take n).flatMap encode_component <+: other.as_bytes ↔
      n ≤ other.components.length ∧ other.components.take n = key.components.take n := by
  have hcomponents : (key.components.take n).flatMap encode_component <+: other.components.flatMap encode_component ↔
      key.components.take n <+: other.components :=
    flatMap_prefix_iff (p := fun value => (encode_component value).length ≤ MAX_ENCODED_BYTES)
      (fun value hmem => key.length_component_le (List.mem_of_mem_take hmem))
      (fun value hmem => other.length_component_le hmem) (fun value _ => encode_component_ne_nil value)
      fun a b u v ha hb => encode_component_append_inj ha hb
  have hlen : (key.components.take n).length = n := by rw [List.length_take, min_eq_left hle]
  rw [other.as_bytes_eq, List.prefix_append_right_inj, hcomponents, List.prefix_iff_eq_take, hlen]
  constructor
  · intro h
    have := congrArg List.length h
    rw [hlen, List.length_take] at this
    exact ⟨by omega, h.symm⟩
  · rintro ⟨_, h⟩
    exact h.symm

/-- A scan by leading components of a key reads exactly the keys that start with them, and always has an end. -/
theorem prefix_scan_exact (key : IndexKey) {n : Nat} (hpos : 1 ≤ n) (hle : n ≤ key.components.length) :
    ∃ start stop, key.prefix_of n = .ok start ∧ start.exclusive_end = .ok stop ∧
      ∀ other : IndexKey, (start.inclusive_start ≤ other.as_bytes ∧ other.as_bytes < stop) ↔
        n ≤ other.components.length ∧ other.components.take n = key.components.take n := by
  obtain ⟨stop, hstop⟩ := @exists_successor 0x52 (by decide)
    ([0x4b, 1] ++ (key.components.take n).flatMap encode_component)
  have hend : prefix_successor (INDEX_KEY_HEADER ++ (key.components.take n).flatMap encode_component) = some stop := hstop
  refine ⟨_, stop, key.prefix_of_eq_ok hpos hle, ?_, fun other => ?_⟩
  · rw [IndexKeyPrefix.exclusive_end, hend]
  · rw [IndexKeyPrefix.inclusive_start, between_iff hend]
    exact key.prefix_iff other hle

theorem text_key_canonical : encode_key [.String "a", .Boolean true] = .ok [0x52, 0x4b, 1, 0x50, 97, 0, 0, 0x21] := by
  decide +kernel

/-- The scan of all keys whose first component is the text `a` leaves out the text `a` followed by a zero byte. -/
theorem text_scan_exact : ∃ start stop,
      IndexKey.prefix_of ⟨[0x52, 0x4b, 1, 0x50, 97, 0, 0, 0x21], [.String "a", .Boolean true], text_key_canonical⟩ 1 =
        .ok start ∧ start.exclusive_end = .ok stop ∧
      ¬(start.inclusive_start ≤ [0x52, 0x4b, 1, 0x50, 97, 0, 0xff, 0, 0] ∧
        [0x52, 0x4b, 1, 0x50, 97, 0, 0xff, 0, 0] < stop) := by
  obtain ⟨start, stop, hstart, hstop, hscan⟩ := prefix_scan_exact
    ⟨[0x52, 0x4b, 1, 0x50, 97, 0, 0, 0x21], [.String "a", .Boolean true], text_key_canonical⟩ (n := 1) (by decide)
    (by decide)
  refine ⟨start, stop, hstart, hstop, fun h => ?_⟩
  have hother := (hscan ⟨[0x52, 0x4b, 1, 0x50, 97, 0, 0xff, 0, 0], [.String "a\x00"], by decide +kernel⟩).mp h
  exact absurd hother.2 (by decide +kernel)

end runku.value

