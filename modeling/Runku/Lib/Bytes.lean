import Mathlib.Data.String.Basic
import Runku.Lib.Radix

namespace bytes

instance instLinearOrderUInt8 : LinearOrder UInt8 where
  le_refl _ := UInt8.le_refl _
  le_trans _ _ _ := UInt8.le_trans
  lt_iff_le_not_ge _ _ := by
    rw [UInt8.lt_iff_toNat_lt, UInt8.le_iff_toNat_le, UInt8.le_iff_toNat_le]
    omega
  le_antisymm _ _ := UInt8.le_antisymm
  le_total := UInt8.le_total
  toDecidableLE := inferInstance
  toDecidableEq := inferInstance
  toDecidableLT := inferInstance

instance instLawfulBEqUInt8 : LawfulBEq UInt8 := inferInstance

/-- The big-endian bytes of the low `8 * w` bits of `n`. -/
def to_be_bytes (w n : Nat) : List UInt8 :=
  (radix.digits 256 w n).map UInt8.ofNat

/-- The number whose big-endian bytes are given. -/
def from_be_bytes (bs : List UInt8) : Nat :=
  radix.value 256 (bs.map UInt8.toNat)

@[simp]
theorem length_to_be_bytes (w n : Nat) : (to_be_bytes w n).length = w := by
  simp [to_be_bytes]

/-- Reading a word back recovers it when it fits the width. -/
theorem from_be_bytes_to_be_bytes {w n : Nat} (hn : n < 256 ^ w) : from_be_bytes (to_be_bytes w n) = n := by
  have hmap : (radix.digits 256 w n).map (UInt8.toNat ∘ UInt8.ofNat) = radix.digits 256 w n := by
    refine (List.map_congr_left fun d hd => ?_).trans (List.map_id _)
    have hlt : d < 256 := radix.lt_of_mem_digits (by decide) hd
    simp [Nat.mod_eq_of_lt hlt]
  rw [from_be_bytes, to_be_bytes, List.map_map, hmap, radix.value_digits hn]

theorem from_be_bytes_lt (bs : List UInt8) : from_be_bytes bs < 256 ^ bs.length := by
  rw [← List.length_map UInt8.toNat]
  refine radix.value_lt fun d hd => ?_
  obtain ⟨b, _, rfl⟩ := List.mem_map.mp hd
  exact b.toNat_lt

/-- The leading bytes are the quotient by the weight of the others. -/
theorem from_be_bytes_append_div (bs cs : List UInt8) :
    from_be_bytes (bs ++ cs) / 256 ^ cs.length = from_be_bytes bs := by
  have hrest : radix.value 256 (cs.map UInt8.toNat) / 256 ^ cs.length = 0 := Nat.div_eq_of_lt (from_be_bytes_lt cs)
  rw [from_be_bytes, List.map_append, radix.value_append, List.length_map, Nat.mul_comm,
    Nat.mul_add_div (Nat.pow_pos (by decide)), hrest, Nat.add_zero]
  rfl

/-- Writing a word back recovers its bytes. -/
theorem to_be_bytes_from_be_bytes (bs : List UInt8) : to_be_bytes bs.length (from_be_bytes bs) = bs := by
  have hbyte : ∀ d ∈ bs.map UInt8.toNat, d < 256 := by
    intro d hd
    obtain ⟨byte, _, rfl⟩ := List.mem_map.mp hd
    exact byte.toNat_lt
  have hdigits := radix.digits_value hbyte
  rw [List.length_map] at hdigits
  rw [to_be_bytes, from_be_bytes, hdigits, List.map_map]
  exact (List.map_congr_left fun byte _ => UInt8.ofNat_toNat).trans (List.map_id _)

theorem to_be_bytes_inj {w m n : Nat} (hm : m < 256 ^ w) (hn : n < 256 ^ w)
    (h : to_be_bytes w m = to_be_bytes w n) : m = n := by
  rw [← from_be_bytes_to_be_bytes hm, h, from_be_bytes_to_be_bytes hn]

def is_ascii_lowercase (c : UInt8) : Bool := 97 ≤ c && c ≤ 122

def is_ascii_uppercase (c : UInt8) : Bool := 65 ≤ c && c ≤ 90

def is_ascii_digit (c : UInt8) : Bool := 48 ≤ c && c ≤ 57

def is_ascii_alphabetic (c : UInt8) : Bool := is_ascii_lowercase c || is_ascii_uppercase c

def is_ascii_alphanumeric (c : UInt8) : Bool := is_ascii_alphabetic c || is_ascii_digit c

/-- The UTF-8 bytes of a text. -/
def as_bytes (text : String) : List UInt8 :=
  text.toUTF8.data.toList

/-- The text with the given UTF-8 bytes, if they are valid UTF-8. -/
def from_utf8 (bs : List UInt8) : Option String :=
  String.fromUTF8? ⟨bs.toArray⟩

@[simp]
theorem from_utf8_as_bytes (text : String) : from_utf8 (as_bytes text) = some text := by
  simp [from_utf8, as_bytes, String.fromUTF8?, text.isValidUTF8, String.fromUTF8]

/-- A text that was read from bytes has these bytes. -/
theorem as_bytes_of_from_utf8 {bs : List UInt8} {text : String} (h : from_utf8 bs = some text) :
    as_bytes text = bs := by
  unfold from_utf8 String.fromUTF8? at h
  split at h
  · rw [← Option.some.inj h]
    rfl
  · cases h

theorem as_bytes_eq_flatMap (text : String) : as_bytes text = text.toList.flatMap String.utf8EncodeChar := by
  rw [as_bytes, String.toUTF8_eq_toByteArray, ← String.utf8Encode_toList, List.utf8Encode,
    List.data_toByteArray]

theorem as_bytes_append (a b : String) : as_bytes (a ++ b) = as_bytes a ++ as_bytes b := by
  simp [as_bytes_eq_flatMap]

/-- ASCII text has one byte for each character. -/
theorem length_as_bytes_of_ascii {text : String} (h : ∀ c ∈ text.toList, c.utf8Size = 1) :
    (as_bytes text).length = text.toList.length := by
  rw [as_bytes_eq_flatMap, List.length_flatMap, List.map_congr_left (g := fun _ => 1)]
  · simp
  · intro c hc
    rw [String.length_utf8EncodeChar, h c hc]

/-- There are texts of every length. -/
theorem exists_text_of_length (n : Nat) : ∃ text, (as_bytes text).length = n := by
  refine ⟨String.ofList (List.replicate n 'a'), ?_⟩
  rw [length_as_bytes_of_ascii, String.toList_ofList, List.length_replicate]
  intro c hc
  rw [String.toList_ofList] at hc
  rw [List.eq_of_mem_replicate hc]
  rfl

theorem as_bytes_inj {a b : String} (h : as_bytes a = as_bytes b) : a = b := by
  have hab := congrArg from_utf8 h
  rwa [from_utf8_as_bytes, from_utf8_as_bytes, Option.some.injEq] at hab

/-- Items that show where they end can be told apart in front of anything that does not look like an item. -/
theorem flatMap_delimited_inj {α β : Type*} {item : α → List β} {xs ys : List α} {s t : List β}
    (hitem : ∀ a b u v, item a ++ u = item b ++ v → a = b ∧ u = v) (hs : ∀ a u, s ≠ item a ++ u)
    (ht : ∀ a u, t ≠ item a ++ u) (h : xs.flatMap item ++ s = ys.flatMap item ++ t) : xs = ys ∧ s = t := by
  induction xs generalizing ys with
  | nil =>
    cases ys with
    | nil => exact ⟨rfl, h⟩
    | cons y ys =>
      rw [List.flatMap_cons, List.append_assoc] at h
      exact absurd h (hs y _)
  | cons x xs ih =>
    cases ys with
    | nil =>
      rw [List.flatMap_cons, List.append_assoc] at h
      exact absurd h.symm (ht x _)
    | cons y ys =>
      rw [List.flatMap_cons, List.flatMap_cons, List.append_assoc, List.append_assoc] at h
      obtain ⟨rfl, hrest⟩ := hitem x y _ _ h
      obtain ⟨rfl, htail⟩ := ih hrest
      exact ⟨rfl, htail⟩

end bytes
