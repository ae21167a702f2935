import Runku.Lib.OrderCode
import Runku.Value.Index

namespace runku.value

open bytes order_code

/-- The bytewise comparison of byte strings. -/
def compare_bytes (a b : List UInt8) : Ordering := List.compareLex compare a b

/-- The magnitude of the double with these low bits, in units of the smallest positive double. -/
def magnitude_units (low : Nat) : Nat :=
  if low / 2 ^ 52 = 0 then low % 2 ^ 52 else (2 ^ 52 + low % 2 ^ 52) * 2 ^ (low / 2 ^ 52 - 1)

/-- The numeric value of a finite double, in units of the smallest positive double. A finite double with one
zero is ordered by IEEE 754 as its numeric value. -/
def FiniteF64.units (value : FiniteF64) : Int :=
  if value.to_bits.toNat < 2 ^ 63 then magnitude_units value.to_bits.toNat
  else -magnitude_units (value.to_bits.toNat - 2 ^ 63)

/-- The order of the types of components. -/
def IndexValue.type_order : IndexValue → Nat
  | .Null => 0
  | .Boolean _ => 1
  | .Int64 _ => 2
  | .Float64 _ => 3
  | .Timestamp _ => 4
  | .String _ => 5
  | .Bytes _ => 6
  | .TypedId _ => 7

/-- The order of components: values of one type by value, others by type. -/
def IndexValue.cmp : IndexValue → IndexValue → Ordering
  | .Null, .Null => .eq
  | .Boolean a, .Boolean b => compare a b
  | .Int64 a, .Int64 b => compare a.toInt b.toInt
  | .Float64 a, .Float64 b => compare a.units b.units
  | .Timestamp a, .Timestamp b => compare a.toInt b.toInt
  | .String a, .String b => compare_bytes (as_bytes a) (as_bytes b)
  | .Bytes a, .Bytes b => compare_bytes a b
  | .TypedId a, .TypedId b => compare_bytes (as_bytes a.to_string) (as_bytes b.to_string)
  | a, b => compare a.type_order b.type_order

/-- Flipping the sign bit moves the two halves of the words past each other. -/
theorem toNat_xor_sign_bit (word : UInt64) :
    (word ^^^ SIGN_BIT).toNat = if word.toNat < 2 ^ 63 then word.toNat + 2 ^ 63 else word.toNat - 2 ^ 63 := by
  have hsign : SIGN_BIT.toNat = 2 ^ 63 := by decide
  have hlt := word.toNat_lt
  have hdiv := Nat.xor_div_two_pow (a := word.toNat) (b := 2 ^ 63) (n := 63)
  have hmod := Nat.xor_mod_two_pow (a := word.toNat) (b := 2 ^ 63) (n := 63)
  rw [Nat.mod_self, Nat.xor_zero] at hmod
  rw [Nat.div_self (by decide)] at hdiv
  rw [UInt64.toNat_xor, hsign]
  split
  · rename_i hlow
    rw [Nat.div_eq_of_lt hlow, Nat.zero_xor] at hdiv
    omega
  · have hhigh : word.toNat / 2 ^ 63 = 1 := by omega
    rw [hhigh, Nat.xor_self] at hdiv
    omega

theorem compare_ordered_int_bits (a b : Int64) :
    compare (ordered_int_bits a).toNat (ordered_int_bits b).toNat = compare a.toInt b.toInt := by
  have hoffset : ∀ value : Int64, ((ordered_int_bits value).toNat : Int) = value.toInt + 2 ^ 63 := by
    intro value
    have hbits : value.toInt = if 2 * value.toUInt64.toNat < 2 ^ 64 then (value.toUInt64.toNat : Int)
        else value.toUInt64.toNat - 2 ^ 64 := BitVec.toInt_eq_toNat_cond value.toBitVec
    have hlt := value.toUInt64.toNat_lt
    rw [ordered_int_bits, toNat_xor_sign_bit, hbits]
    split <;> split <;> omega
  have ha := hoffset a
  have hb := hoffset b
  exact compare_congr (by omega) (by omega)

theorem strictMono_magnitude_units : StrictMono magnitude_units := by
  refine strictMono_nat_of_lt_succ fun low => ?_
  unfold magnitude_units
  by_cases hcarry : low % 2 ^ 52 + 1 = 2 ^ 52
  · -- the fraction is full, so the next double has the next exponent and no fraction
    have hdiv : (low + 1) / 2 ^ 52 = low / 2 ^ 52 + 1 := by omega
    have hmod : (low + 1) % 2 ^ 52 = 0 := by omega
    have hmod' : low % 2 ^ 52 = 2 ^ 52 - 1 := by omega
    rw [hdiv, hmod, hmod', if_neg (Nat.succ_ne_zero _), Nat.add_sub_cancel, Nat.add_zero]
    split
    · rename_i hzero
      rw [hzero]
      decide
    · obtain ⟨exponent, hexponent⟩ := Nat.exists_eq_succ_of_ne_zero ‹_›
      rw [hexponent, Nat.succ_sub_one, Nat.pow_succ 2 exponent, ← Nat.mul_assoc, Nat.mul_right_comm]
      exact Nat.mul_lt_mul_of_pos_right (by decide) (Nat.two_pow_pos exponent)
  · have hdiv : (low + 1) / 2 ^ 52 = low / 2 ^ 52 := by omega
    have hmod : (low + 1) % 2 ^ 52 = low % 2 ^ 52 + 1 := by omega
    rw [hdiv, hmod]
    split
    · exact Nat.lt_succ_self _
    · exact Nat.mul_lt_mul_of_pos_right (by omega) (Nat.two_pow_pos _)

/-- The ordered bits of a double on either side of zero. -/
theorem toNat_ordered_float_bits (value : FiniteF64) : (ordered_float_bits value).toNat =
    if value.to_bits.toNat < 2 ^ 63 then value.to_bits.toNat + 2 ^ 63 else 2 ^ 64 - 1 - value.to_bits.toNat := by
  unfold ordered_float_bits
  by_cases hlow : value.to_bits.toNat < 2 ^ 63
  · rw [if_neg (not_not.mpr ((and_sign_bit_eq_zero_iff _).mpr hlow)), toNat_xor_sign_bit, if_pos hlow, if_pos hlow]
  · rw [if_pos (fun hzero => hlow ((and_sign_bit_eq_zero_iff _).mp hzero)), UInt64.toNat_not, if_neg hlow]
    rfl

/-- The encoded bits of doubles compare as their values. -/
theorem compare_ordered_float_bits (a b : FiniteF64) :
    compare (ordered_float_bits a).toNat (ordered_float_bits b).toNat = compare a.units b.units := by
  have hmono := fun m n => strictMono_magnitude_units.lt_iff_lt (a := m) (b := n)
  -- a negative double is below zero, because zero has no negative representation
  have hnegative : ∀ value : FiniteF64, ¬value.to_bits.toNat < 2 ^ 63 →
      magnitude_units 0 < magnitude_units (value.to_bits.toNat - 2 ^ 63) := by
    intro value hhigh
    have hzero : value.to_bits.toNat ≠ 2 ^ 63 := fun h => value.normalized (UInt64.toNat_inj.mp h)
    exact strictMono_magnitude_units (by omega)
  have hpositive : ∀ low, magnitude_units 0 ≤ magnitude_units low := fun low =>
    strictMono_magnitude_units.monotone (Nat.zero_le low)
  have hbits : a.to_bits.toNat < 2 ^ 64 ∧ b.to_bits.toNat < 2 ^ 64 := ⟨a.to_bits.toNat_lt, b.to_bits.toNat_lt⟩
  rw [toNat_ordered_float_bits, toNat_ordered_float_bits, FiniteF64.units, FiniteF64.units]
  by_cases ha : a.to_bits.toNat < 2 ^ 63 <;> by_cases hb : b.to_bits.toNat < 2 ^ 63
  · have hab := hmono a.to_bits.toNat b.to_bits.toNat
    have hba := hmono b.to_bits.toNat a.to_bits.toNat
    rw [if_pos ha, if_pos hb, if_pos ha, if_pos hb]
    exact compare_congr (by omega) (by omega)
  · have hbound := hnegative b hb
    have hbound' := hpositive a.to_bits.toNat
    rw [if_pos ha, if_neg hb, if_pos ha, if_neg hb]
    exact compare_congr (by omega) (by omega)
  · have hbound := hnegative a ha
    have hbound' := hpositive b.to_bits.toNat
    rw [if_neg ha, if_pos hb, if_neg ha, if_pos hb]
    exact compare_congr (by omega) (by omega)
  · have hab := hmono (a.to_bits.toNat - 2 ^ 63) (b.to_bits.toNat - 2 ^ 63)
    have hba := hmono (b.to_bits.toNat - 2 ^ 63) (a.to_bits.toNat - 2 ^ 63)
    rw [if_neg ha, if_neg hb, if_neg ha, if_neg hb]
    exact compare_congr (by omega) (by omega)

/-- Escaped strings compare as the strings: the terminator is below every escaped byte. -/
theorem encode_escaped_preserves (a b : List UInt8) : Preserves compare compare_bytes encode_escaped a b := by
  intro rest rest'
  induction a generalizing b with
  | nil =>
    cases b with
    | nil => rfl
    | cons y b =>
      rw [encode_escaped_nil, encode_escaped_cons]
      by_cases hy : y = 0
      · rw [if_pos hy]
        rfl
      · have hlt : compare (0 : UInt8) y = .lt := compare_lt_iff_lt.mpr (UInt8.pos_iff_ne_zero.mpr hy)
        rw [if_neg hy]
        simp [compare_bytes, List.compareLex_cons_cons, List.compareLex_nil_cons, hlt]
  | cons x a ih =>
    cases b with
    | nil =>
      rw [encode_escaped_nil, encode_escaped_cons]
      by_cases hx : x = 0
      · rw [if_pos hx]
        rfl
      · have hgt : compare x (0 : UInt8) = .gt := compare_gt_iff_gt.mpr (UInt8.pos_iff_ne_zero.mpr hx)
        rw [if_neg hx]
        simp [compare_bytes, List.compareLex_cons_cons, List.compareLex_cons_nil, hgt]
    | cons y b =>
      have ih := ih b
      rw [compare_bytes] at ih
      rw [encode_escaped_cons, encode_escaped_cons, compare_bytes, List.compareLex_cons_cons, Ordering.then_assoc,
        ← ih]
      by_cases hx : x = 0 <;> by_cases hy : y = 0
      · rw [if_pos hx, if_pos hy, hx, hy]
        rfl
      · have hlt : compare (0 : UInt8) y = .lt := compare_lt_iff_lt.mpr (UInt8.pos_iff_ne_zero.mpr hy)
        rw [if_pos hx, if_neg hy, hx]
        simp [List.compareLex_cons_cons, hlt]
      · have hgt : compare x (0 : UInt8) = .gt := compare_gt_iff_gt.mpr (UInt8.pos_iff_ne_zero.mpr hx)
        rw [if_neg hx, if_pos hy, hy]
        simp [List.compareLex_cons_cons, hgt]
      · rw [if_neg hx, if_neg hy]
        simp [List.compareLex_cons_cons]

/-- Words written after one tag compare as the numbers they hold. -/
theorem compareLex_tagged_word (tag : UInt8) (a b : UInt64) (rest rest' : List UInt8) :
    List.compareLex compare (tag :: to_be_bytes 8 a.toNat ++ rest) (tag :: to_be_bytes 8 b.toNat ++ rest') =
      (compare a.toNat b.toNat).then (List.compareLex compare rest rest') := by
  rw [List.cons_append, List.cons_append, List.compareLex_cons_cons, compare_eq_iff_eq.mpr rfl, Ordering.eq_then]
  exact compareLex_to_be_bytes a.toNat_lt b.toNat_lt rest rest'

theorem compareLex_tagged_escaped (tag : UInt8) (a b rest rest' : List UInt8) :
    List.compareLex compare (tag :: encode_escaped a ++ rest) (tag :: encode_escaped b ++ rest') =
      (compare_bytes a b).then (List.compareLex compare rest rest') := by
  rw [List.cons_append, List.cons_append, List.compareLex_cons_cons, compare_eq_iff_eq.mpr rfl, Ordering.eq_then]
  exact encode_escaped_preserves a b rest rest'

/-- Encoded components compare as the components: tags ascend with the order of types. -/
theorem encode_component_preserves (a b : IndexValue) : Preserves compare IndexValue.cmp encode_component a b := by
  intro rest rest'
  cases a with
  | Null =>
    cases b with
    | Boolean b => cases b <;> rfl
    | _ => rfl
  | Boolean a =>
    cases b with
    | Boolean b => cases a <;> cases b <;> rfl
    | _ => cases a <;> rfl
  | Int64 a =>
    cases b with
    | Int64 b => exact (compareLex_tagged_word 0x30 _ _ rest rest').trans (by rw [compare_ordered_int_bits]; rfl)
    | Boolean b => cases b <;> rfl
    | _ => rfl
  | Float64 a =>
    cases b with
    | Float64 b => exact (compareLex_tagged_word 0x31 _ _ rest rest').trans (by rw [compare_ordered_float_bits]; rfl)
    | Boolean b => cases b <;> rfl
    | _ => rfl
  | Timestamp a =>
    cases b with
    | Timestamp b => exact (compareLex_tagged_word 0x40 _ _ rest rest').trans (by rw [compare_ordered_int_bits]; rfl)
    | Boolean b => cases b <;> rfl
    | _ => rfl
  | String a =>
    cases b with
    | String b => exact compareLex_tagged_escaped 0x50 _ _ rest rest'
    | Boolean b => cases b <;> rfl
    | _ => rfl
  | Bytes a =>
    cases b with
    | Bytes b => exact compareLex_tagged_escaped 0x60 _ _ rest rest'
    | Boolean b => cases b <;> rfl
    | _ => rfl
  | TypedId a =>
    cases b with
    | TypedId b => exact compareLex_tagged_escaped 0x70 _ _ rest rest'
    | Boolean b => cases b <;> rfl
    | _ => rfl

/-- The bytes of a key. -/
theorem IndexKey.as_bytes_eq (key : IndexKey) :
    key.as_bytes = INDEX_KEY_HEADER ++ key.components.flatMap encode_component := by
  have hkey := key.canonical
  simp only [encode_key, fallible.bind_eq_ok_iff] at hkey
  obtain ⟨_, _, encoded, hencoded, _, _, h⟩ := hkey
  rw [IndexKey.as_bytes, ← Except.ok.inj h, (encode_components_eq_ok hencoded).1]

/-- `Ord for IndexKey`. -/
def IndexKey.cmp (a b : IndexKey) : Ordering := compare_bytes a.encoded b.encoded

/-- Keys compare as their tuples of components, and the bytes of a key are the one encoding of its components. -/
theorem index_key_preserves_order : (∀ s t ks kt, IndexKey.encode s = .ok ks → IndexKey.encode t = .ok kt →
      ks.cmp kt = List.compareLex IndexValue.cmp s t) ∧
    (∀ s key, IndexKey.encode s = .ok key → IndexKey.decode key.as_bytes = .ok key ∧ key.components = s) ∧
    (∀ encoded key, IndexKey.decode encoded = .ok key →
      key.as_bytes = encoded ∧ IndexKey.encode key.components = .ok key) := by
  refine ⟨fun s t ks kt hs ht => ?_, fun s key h => ?_, fun encoded key h => ?_⟩
  · obtain rfl := IndexKey.encode_eq_ok_iff.mp hs
    obtain rfl := IndexKey.encode_eq_ok_iff.mp ht
    have hks := ks.as_bytes_eq
    have hkt := kt.as_bytes_eq
    rw [IndexKey.as_bytes] at hks hkt
    rw [IndexKey.cmp, compare_bytes, hks, hkt, compareLex_append_left fun _ => compare_eq_iff_eq.mpr rfl]
    exact compareLex_flatMap encode_component_preserves encode_component_ne_nil ks.components kt.components
  · exact ⟨key.decode_as_bytes, IndexKey.encode_eq_ok_iff.mp h⟩
  · simp only [IndexKey.decode, fallible.bind_eq_ok_iff, fallible.ite_error_eq_ok_iff, not_not] at h
    obtain ⟨components, _, canonical, _, hbytes, h⟩ := h
    cases h
    exact ⟨hbytes, IndexKey.encode_eq_ok_iff.mpr rfl⟩

/-- A text with a zero byte is above the shorter text, whatever follows. -/
theorem cmp_escaped_key :
    IndexKey.cmp ⟨[0x52, 0x4b, 1, 0x50, 97, 0, 0xff, 0, 0, 0x10], [.String "a\x00", .Null], by decide +kernel⟩
      ⟨[0x52, 0x4b, 1, 0x50, 97, 0, 0, 0x21], [.String "a", .Boolean true], by decide +kernel⟩ = .gt := by
  refine (index_key_preserves_order.1 [.String "a\x00", .Null] [.String "a", .Boolean true] _ _ ?_ ?_).trans ?_
  · exact IndexKey.encode_eq_ok_iff.mpr rfl
  · exact IndexKey.encode_eq_ok_iff.mpr rfl
  · decide +kernel

end runku.value
