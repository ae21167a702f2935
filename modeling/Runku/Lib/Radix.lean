import Mathlib.Algebra.Group.Nat.Defs
import Mathlib.Data.List.Induction
import Mathlib.Data.List.Lex

namespace radix

/-- The last `w` base-`b` digits of `n`, most significant first. -/
def digits (b : Nat) : Nat → Nat → List Nat
  | 0, _ => []
  | w + 1, n => digits b w (n / b) ++ [n % b]

/-- The number a digit string denotes. -/
def value (b : Nat) (ds : List Nat) : Nat :=
  ds.foldl (fun acc d => acc * b + d) 0

@[simp]
theorem length_digits (b w n : Nat) : (digits b w n).length = w := by
  induction w generalizing n with
  | zero => rfl
  | succ w ih => simp [digits, ih]

theorem value_append_singleton (b : Nat) (ds : List Nat) (d : Nat) : value b (ds ++ [d]) = value b ds * b + d := by
  simp [value]

theorem value_append (b : Nat) (ds es : List Nat) : value b (ds ++ es) = value b ds * b ^ es.length + value b es := by
  induction es using List.reverseRecOn with
  | nil => simp [value]
  | append_singleton es e ih =>
    rw [← List.append_assoc, value_append_singleton, value_append_singleton, ih, List.length_append,
      List.length_singleton, Nat.pow_succ, Nat.add_mul, Nat.mul_assoc, Nat.add_assoc]

theorem value_lt {b : Nat} {ds : List Nat} (hds : ∀ d ∈ ds, d < b) : value b ds < b ^ ds.length := by
  induction ds using List.reverseRecOn with
  | nil => simp [value]
  | append_singleton ds d ih =>
    rw [List.forall_mem_append, List.forall_mem_singleton] at hds
    have hvalue := ih hds.1
    rw [value_append_singleton, List.length_append, List.length_singleton, Nat.pow_succ]
    calc value b ds * b + d < value b ds * b + b := Nat.add_lt_add_left hds.2 _
      _ = (value b ds + 1) * b := by rw [Nat.succ_mul]
      _ ≤ b ^ ds.length * b := Nat.mul_le_mul_right b hvalue

theorem value_digits {b w n : Nat} (hn : n < b ^ w) : value b (digits b w n) = n := by
  induction w generalizing n with
  | zero => rw [Nat.pow_zero, Nat.lt_one_iff] at hn; simp [digits, value, hn]
  | succ w ih =>
    have hdiv : n / b < b ^ w := Nat.div_lt_of_lt_mul (by rwa [Nat.pow_succ'] at hn)
    rw [digits, value_append_singleton, ih hdiv]
    exact Nat.div_add_mod' n b

/-- The digits of a number that was read from digits are these digits. -/
theorem digits_value {b : Nat} {ds : List Nat} (hds : ∀ d ∈ ds, d < b) : digits b ds.length (value b ds) = ds := by
  induction ds using List.reverseRecOn with
  | nil => rfl
  | append_singleton ds d ih =>
    rw [List.forall_mem_append, List.forall_mem_singleton] at hds
    have hpos : 0 < b := Nat.lt_of_le_of_lt (Nat.zero_le d) hds.2
    have hdiv : value b (ds ++ [d]) / b = value b ds := by
      rw [value_append_singleton, Nat.mul_comm, Nat.mul_add_div hpos, Nat.div_eq_of_lt hds.2, Nat.add_zero]
    have hmod : value b (ds ++ [d]) % b = d := by
      rw [value_append_singleton, Nat.mul_comm, Nat.mul_add_mod, Nat.mod_eq_of_lt hds.2]
    rw [List.length_append, List.length_singleton, digits, hdiv, hmod, ih hds.1]

theorem digits_inj {b w m n : Nat} (hm : m < b ^ w) (hn : n < b ^ w) (h : digits b w m = digits b w n) : m = n := by
  rw [← value_digits hm, h, value_digits hn]

theorem lt_of_mem_digits {b w n d : Nat} (hb : 0 < b) (hd : d ∈ digits b w n) : d < b := by
  induction w generalizing n with
  | zero => simp [digits] at hd
  | succ w ih =>
    rcases List.mem_append.mp hd with hd | hd
    · exact ih hd
    · rw [List.mem_singleton.mp hd]
      exact Nat.mod_lt n hb

/-- Digit strings of one length compare first on what precedes the last digit. -/
private theorem append_singleton_lt_iff {ds es : List Nat} (hlen : ds.length = es.length) (d e : Nat) :
    ds ++ [d] < es ++ [e] ↔ ds < es ∨ ds = es ∧ d < e := by
  induction ds generalizing es with
  | nil =>
    obtain rfl := List.eq_nil_of_length_eq_zero hlen.symm
    simp [List.cons_lt_cons_iff]
  | cons x ds ih =>
    obtain ⟨y, es, rfl⟩ := List.exists_cons_of_length_eq_add_one hlen.symm
    have hlen' : ds.length = es.length := by simpa using hlen
    simp only [List.cons_append, List.cons_lt_cons_iff, ih hlen', List.cons.injEq]
    tauto

/-- Numerals of one width compare, digit by digit, as the numbers they denote. -/
theorem digits_lt_digits_iff {b w m n : Nat} (hm : m < b ^ w) (hn : n < b ^ w) :
    digits b w m < digits b w n ↔ m < n := by
  induction w generalizing m n with
  | zero => rw [Nat.pow_zero, Nat.lt_one_iff] at hm hn; simp [hm, hn]
  | succ w ih =>
    have hmd : m / b < b ^ w := Nat.div_lt_of_lt_mul (by rwa [Nat.pow_succ'] at hm)
    have hnd : n / b < b ^ w := Nat.div_lt_of_lt_mul (by rwa [Nat.pow_succ'] at hn)
    rw [digits, digits, append_singleton_lt_iff (by simp), ih hmd hnd]
    have hmn := Nat.div_add_mod m b
    have hnm := Nat.div_add_mod n b
    constructor
    · rintro (hlt | ⟨heq, hlt⟩)
      · exact Nat.lt_of_div_lt_div hlt
      · rw [digits_inj hmd hnd heq] at hmn
        omega
    · intro hlt
      rcases Nat.lt_or_eq_of_le (Nat.div_le_div_right (c := b) hlt.le) with h | h
      · exact Or.inl h
      · refine Or.inr ⟨by rw [h], ?_⟩
        rw [h] at hmn
        omega

end radix
