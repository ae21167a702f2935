import Runku.Lib.Fallible

namespace parser

variable {ε β α γ : Type}

def Parser (ε β α : Type) := List β → Except ε (α × List β)

def Parser.run (p : Parser ε β α) (input : List β) : Except ε (α × List β) := p input

instance instMonadParser : Monad (Parser ε β) where
  pure a := fun input => .ok (a, input)
  bind p f := fun input =>
    match p input with
    | .ok (a, rest) => f a rest
    | .error e => .error e

/-- A check that reads nothing. -/
def lift (x : Except ε α) : Parser ε β α := fun input => x.map fun a => (a, input)

/-- The next items, or `e` if there are not as many. -/
def take (e : ε) (n : Nat) : Parser ε β (List β) := fun input =>
  if input.length < n then .error e else .ok (input.take n, input.drop n)

/-- How many items are left. -/
def remaining : Parser ε β Nat := fun input => .ok (input.length, input)

/-- A loop that runs one parser a number of times. -/
def many (p : Parser ε β α) : Nat → Parser ε β (List α)
  | 0 => pure []
  | n + 1 => do
    let a ← p
    let as ← many p n
    return a :: as

/-- The parser accepts exactly what is written for valid values. -/
def Reads (p : Parser ε β α) (valid : α → Prop) (write : α → List β) : Prop :=
  ∀ input a rest, p.run input = .ok (a, rest) ↔ valid a ∧ input = write a ++ rest

section
variable {p : Parser ε β α} {f : α → Parser ε β γ} {input rest : List β} {a : α} {b : γ}

theorem run_bind_iff :
    (p >>= f).run input = .ok (b, rest) ↔ ∃ a mid, p.run input = .ok (a, mid) ∧ (f a).run mid = .ok (b, rest) := by
  simp only [Bind.bind, Parser.run]
  cases p input with
  | error e => simp
  | ok result =>
    obtain ⟨a, mid⟩ := result
    simp

theorem run_pure_iff {c : α} : (pure c : Parser ε β α).run input = .ok (a, rest) ↔ a = c ∧ rest = input := by
  simp only [Pure.pure, Parser.run, Except.ok.injEq, Prod.mk.injEq, eq_comm]

theorem run_lift_iff {x : Except ε α} :
    (lift x : Parser ε β α).run input = .ok (a, rest) ↔ x = .ok a ∧ rest = input := by
  cases x with
  | error e => simp [lift, Parser.run, Except.map]
  | ok c => simp [lift, Parser.run, Except.map, eq_comm]

theorem run_ite_iff {c : Prop} [Decidable c] {q : Parser ε β α} {result : α × List β} :
    (if c then p else q).run input = .ok result ↔ c ∧ p.run input = .ok result ∨ ¬c ∧ q.run input = .ok result := by
  by_cases hc : c <;> simp [hc]

theorem run_remaining_iff {n : Nat} :
    (remaining : Parser ε β Nat).run input = .ok (n, rest) ↔ n = input.length ∧ rest = input := by
  simp only [remaining, Parser.run, Except.ok.injEq, Prod.mk.injEq, eq_comm]

theorem run_take_iff {e : ε} {n : Nat} {taken : List β} :
    (take e n).run input = .ok (taken, rest) ↔ taken.length = n ∧ input = taken ++ rest := by
  simp only [take, Parser.run]
  constructor
  · intro h
    split at h
    · cases h
    · rename_i hlen
      cases h
      exact ⟨List.length_take_of_le (Nat.le_of_not_lt hlen), (List.take_append_drop n input).symm⟩
  · rintro ⟨rfl, rfl⟩
    rw [if_neg (by simp), List.take_left, List.drop_left]

/-- A loop reads values written one after the other. -/
theorem Reads.many {valid : α → Prop} {write : α → List β} (h : Reads p valid write) {n : Nat} {as : List α} :
    (parser.many p n).run input = .ok (as, rest) ↔
      as.length = n ∧ (∀ a ∈ as, valid a) ∧ input = as.flatMap write ++ rest := by
  induction n generalizing input rest as with
  | zero =>
    rw [parser.many, run_pure_iff, List.length_eq_zero_iff]
    constructor
    · rintro ⟨rfl, rfl⟩
      exact ⟨rfl, nofun, rfl⟩
    · rintro ⟨rfl, _, rfl⟩
      exact ⟨rfl, rfl⟩
  | succ n ih =>
    simp only [parser.many, run_bind_iff, run_pure_iff, h input, ih]
    constructor
    · rintro ⟨a, mid, ⟨hvalid, rfl⟩, as', mid', ⟨rfl, hall, rfl⟩, rfl, rfl⟩
      refine ⟨rfl, List.forall_mem_cons.mpr ⟨hvalid, hall⟩, ?_⟩
      rw [List.flatMap_cons, List.append_assoc]
    · rintro ⟨hlen, hall, rfl⟩
      obtain ⟨a, as', rfl⟩ := List.exists_cons_of_length_eq_add_one hlen
      rw [List.forall_mem_cons] at hall
      refine ⟨a, as'.flatMap write ++ rest, ⟨hall.1, ?_⟩, as', rest, ⟨by simpa using hlen, hall.2, rfl⟩, rfl, rfl⟩
      rw [List.flatMap_cons, List.append_assoc]

/-- What is written for a list of values, at `width` items or more for each. -/
theorem length_mul_le_length_flatMap {write : α → List β} {width : Nat} {as : List α}
    (hwidth : ∀ a, width ≤ (write a).length) : as.length * width ≤ (as.flatMap write).length := by
  induction as with
  | nil => simp
  | cons a as ih =>
    have ha := hwidth a
    rw [List.flatMap_cons, List.length_append, List.length_cons, Nat.add_mul]
    omega

end

end parser
