import Runku.Lib.Bytes

namespace order_code

variable {α β : Type} {cmp : β → β → Ordering} {order : α → α → Ordering} {write : α → List β}

/-- Strings that start with the encodings of `a` and `b` compare as `a` and `b`, and then as their rests. -/
def Preserves (cmp : β → β → Ordering) (order : α → α → Ordering) (write : α → List β) (a b : α) : Prop :=
  ∀ rest rest', List.compareLex cmp (write a ++ rest) (write b ++ rest') =
    (order a b).then (List.compareLex cmp rest rest')

/-- Concatenated encodings compare as the lists of values, a proper prefix first. -/
theorem compareLex_flatMap (hwrite : ∀ a b, Preserves cmp order write a b) (hne : ∀ a, write a ≠ [])
    (as bs : List α) : List.compareLex cmp (as.flatMap write) (bs.flatMap write) = List.compareLex order as bs := by
  induction as generalizing bs with
  | nil =>
    cases bs with
    | nil => rfl
    | cons b bs =>
      obtain ⟨byte, payload, hcons⟩ := List.exists_cons_of_ne_nil (hne b)
      rw [List.flatMap_nil, List.flatMap_cons, hcons, List.cons_append, List.compareLex_nil_cons,
        List.compareLex_nil_cons]
  | cons a as ih =>
    cases bs with
    | nil =>
      obtain ⟨byte, payload, hcons⟩ := List.exists_cons_of_ne_nil (hne a)
      rw [List.flatMap_nil, List.flatMap_cons, hcons, List.cons_append, List.compareLex_cons_nil,
        List.compareLex_cons_nil]
    | cons b bs => rw [List.flatMap_cons, List.flatMap_cons, hwrite, List.compareLex_cons_cons, ih]

/-- A common start does not change a comparison. -/
theorem compareLex_append_left (hrefl : ∀ x, cmp x x = .eq) (start as bs : List β) :
    List.compareLex cmp (start ++ as) (start ++ bs) = List.compareLex cmp as bs := by
  induction start with
  | nil => rfl
  | cons x start ih => rw [List.cons_append, List.cons_append, List.compareLex_cons_cons, hrefl, ih, Ordering.eq_then]

/-- Two pairs that are ordered alike compare alike. -/
theorem compare_congr {σ τ : Type} [LinearOrder σ] [LinearOrder τ] {a b : σ} {c d : τ} (hlt : a < b ↔ c < d)
    (hgt : b < a ↔ d < c) : compare a b = compare c d := by
  rcases lt_trichotomy c d with h | h | h
  · rw [compare_lt_iff_lt.mpr h]
    exact compare_lt_iff_lt.mpr (hlt.mpr h)
  · rw [compare_eq_iff_eq.mpr h]
    refine compare_eq_iff_eq.mpr (le_antisymm ?_ ?_)
    · exact not_lt.mp fun hba => (hgt.mp hba).ne h.symm
    · exact not_lt.mp fun hab => (hlt.mp hab).ne h
  · rw [compare_gt_iff_gt.mpr h]
    exact compare_gt_iff_gt.mpr (hgt.mpr h)

/-- A comparison of numbers goes by the quotients first. -/
theorem compare_eq_div_then_mod (b m n : Nat) :
    compare m n = (compare (m / b) (n / b)).then (compare (m % b) (n % b)) := by
  rcases Nat.lt_trichotomy (m / b) (n / b) with h | h | h
  · rw [compare_lt_iff_lt.mpr h, Ordering.lt_then]
    exact compare_lt_iff_lt.mpr (Nat.lt_of_div_lt_div h)
  · have hm := Nat.div_add_mod m b
    have hn := Nat.div_add_mod n b
    rw [h] at hm
    rw [compare_eq_iff_eq.mpr h, Ordering.eq_then]
    exact compare_congr (by omega) (by omega)
  · rw [compare_gt_iff_gt.mpr h, Ordering.gt_then]
    exact compare_gt_iff_gt.mpr (Nat.lt_of_div_lt_div h)

theorem compare_ofNat_uint8 {m n : Nat} (hm : m < 256) (hn : n < 256) :
    compare (UInt8.ofNat m) (UInt8.ofNat n) = compare m n := by
  refine compare_congr ?_ ?_ <;> rw [UInt8.lt_iff_toNat_lt, UInt8.toNat_ofNat_of_lt' hm, UInt8.toNat_ofNat_of_lt' hn]

/-- Big-endian words of one width compare as the numbers they hold. -/
theorem compareLex_to_be_bytes {w m n : Nat} (hm : m < 256 ^ w) (hn : n < 256 ^ w) (rest rest' : List UInt8) :
    List.compareLex compare (bytes.to_be_bytes w m ++ rest) (bytes.to_be_bytes w n ++ rest') =
      (compare m n).then (List.compareLex compare rest rest') := by
  induction w generalizing m n rest rest' with
  | zero =>
    obtain rfl : m = 0 := by omega
    obtain rfl : n = 0 := by omega
    rfl
  | succ w ih =>
    have hstep : ∀ k, bytes.to_be_bytes (w + 1) k = bytes.to_be_bytes w (k / 256) ++ [UInt8.ofNat (k % 256)] := by
      intro k
      rw [bytes.to_be_bytes, radix.digits, List.map_append]
      rfl
    have hbyte := compare_ofNat_uint8 (Nat.mod_lt m (by decide : 0 < 256)) (Nat.mod_lt n (by decide : 0 < 256))
    rw [hstep, hstep, List.append_assoc, List.append_assoc, ih (by omega) (by omega), List.singleton_append,
      List.singleton_append, List.compareLex_cons_cons, hbyte, compare_eq_div_then_mod 256 m n, Ordering.then_assoc]

end order_code
