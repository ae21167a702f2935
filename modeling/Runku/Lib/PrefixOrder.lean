import Runku.Lib.Bytes

namespace prefix_order

/-- The successor of the string whose bytes are given from the last to the first. -/
def reverse_successor : List UInt8 → Option (List UInt8)
  | [] => none
  | last :: rest => if last ≠ 255 then some (((last + 1) :: rest).reverse) else reverse_successor rest

/-- The least string above all strings that start with these bytes. -/
def successor (start : List UInt8) : Option (List UInt8) := reverse_successor start.reverse

theorem successor_concat (start : List UInt8) (last : UInt8) :
    successor (start ++ [last]) = if last ≠ 255 then some (start ++ [last + 1]) else successor start := by
  simp [successor, reverse_successor]

theorem cons_le_cons_iff (a b : UInt8) (x y : List UInt8) : a :: x ≤ b :: y ↔ a < b ∨ a = b ∧ x ≤ y := by
  rw [← not_lt, List.cons_lt_cons_iff, not_or, not_and, not_lt, not_lt, le_iff_lt_or_eq]
  constructor
  · rintro ⟨hlt | heq, hrest⟩
    · exact .inl hlt
    · exact .inr ⟨heq, hrest heq.symm⟩
  · rintro (hlt | ⟨heq, hrest⟩)
    · exact ⟨.inl hlt, fun h => absurd h.symm hlt.ne⟩
    · exact ⟨.inr heq, fun _ => hrest⟩

theorem append_le_append_iff (start x y : List UInt8) : start ++ x ≤ start ++ y ↔ x ≤ y := by
  induction start with
  | nil => rfl
  | cons byte start ih => simp [cons_le_cons_iff, ih]

theorem nil_le (x : List UInt8) : [] ≤ x := not_lt.mp (List.not_lt_nil x)

theorem le_append (start x : List UInt8) : start ≤ start ++ x := by
  have h := (append_le_append_iff start [] x).mpr (nil_le x)
  rwa [List.append_nil] at h

/-- Between a string and its raised last byte lie the strings that start with it. -/
theorem between_concat_iff {start x : List UInt8} {last : UInt8} (hlast : last ≠ 255) :
    (start ++ [last] ≤ x ∧ x < start ++ [last + 1]) ↔ (start ++ [last]) <+: x := by
  have hnext : (last + 1).toNat = last.toNat + 1 := by
    have hlt := last.toNat_lt
    have hne : last.toNat ≠ 255 := fun h => hlast (UInt8.toNat_inj.mp h)
    rw [UInt8.toNat_add]
    change (last.toNat + 1) % 256 = _
    omega
  induction start generalizing x with
  | nil =>
    cases x with
    | nil => simp
    | cons byte x =>
      simp only [List.nil_append, cons_le_cons_iff, List.cons_lt_cons_iff, nil_le, and_true,
        List.not_lt_nil, and_false, or_false, List.cons_prefix_cons, List.nil_prefix]
      rw [UInt8.lt_iff_toNat_lt, UInt8.lt_iff_toNat_lt, ← UInt8.toNat_inj, hnext]
      omega
  | cons first start ih =>
    cases x with
    | nil => simp
    | cons byte x =>
      simp only [List.cons_append, cons_le_cons_iff, List.cons_lt_cons_iff, List.cons_prefix_cons, ← ih]
      constructor
      · rintro ⟨hlow | hlow, hhigh | hhigh⟩
        · exact absurd hlow (lt_asymm hhigh)
        · exact absurd hhigh.1.symm hlow.ne
        · exact absurd hlow.1.symm hhigh.ne
        · exact ⟨hlow.1, hlow.2, hhigh.2⟩
      · rintro ⟨rfl, hlow, hhigh⟩
        exact ⟨.inr ⟨rfl, hlow⟩, .inr ⟨rfl, hhigh⟩⟩

/-- The strings from given bytes up to their successor are those that start with the bytes. -/
theorem between_iff {start stop x : List UInt8} (h : successor start = some stop) :
    (start ≤ x ∧ x < stop) ↔ start <+: x := by
  induction start using List.reverseRecOn with
  | nil => cases h
  | append_singleton start last ih =>
    rw [successor_concat] at h
    split at h
    · rename_i hlast
      cases h
      exact between_concat_iff hlast
    · rename_i hfull
      obtain rfl := not_not.mp hfull
      constructor
      · rintro ⟨hlow, hhigh⟩
        obtain ⟨rest, rfl⟩ := (ih h).mp ⟨(le_append start [255]).trans hlow, hhigh⟩
        rw [append_le_append_iff] at hlow
        refine (List.prefix_append_right_inj start).mpr ?_
        cases rest with
        | nil => exact absurd hlow (not_le.mpr (List.nil_lt_cons 255 []))
        | cons byte rest =>
          simp only [cons_le_cons_iff, nil_le, and_true] at hlow
          rw [List.cons_prefix_cons]
          refine ⟨?_, List.nil_prefix⟩
          rw [UInt8.lt_iff_toNat_lt, ← UInt8.toNat_inj] at hlow
          rw [← UInt8.toNat_inj]
          have hlt := byte.toNat_lt
          change 255 < byte.toNat ∨ 255 = byte.toNat at hlow
          change 255 = byte.toNat
          omega
      · rintro ⟨rest, rfl⟩
        refine ⟨le_append _ _, ((ih h).mpr ?_).2⟩
        rw [List.append_assoc]
        exact List.prefix_append _ _

/-- Bytes that start below the full byte have a successor. -/
theorem exists_successor {first : UInt8} (hfirst : first ≠ 255) (rest : List UInt8) :
    ∃ stop, successor (first :: rest) = some stop := by
  induction rest using List.reverseRecOn with
  | nil => exact ⟨[first + 1], by simp [successor, reverse_successor, hfirst]⟩
  | append_singleton rest last ih =>
    rw [← List.cons_append, successor_concat]
    split
    · exact ⟨_, rfl⟩
    · exact ih

/-- Items none of whose encodings starts another one: a concatenation starts with another exactly when the items do. -/
theorem flatMap_prefix_iff {α β : Type} {encode : α → List β} {p : α → Prop} {xs ys : List α}
    (hxs : ∀ x ∈ xs, p x) (hys : ∀ y ∈ ys, p y) (hne : ∀ x ∈ xs, encode x ≠ [])
    (hencode : ∀ a b u v, p a → p b → encode a ++ u = encode b ++ v → a = b ∧ u = v) :
    xs.flatMap encode <+: ys.flatMap encode ↔ xs <+: ys := by
  induction xs generalizing ys with
  | nil => simp
  | cons x xs ih =>
    rw [List.forall_mem_cons] at hxs hne
    cases ys with
    | nil =>
      simp only [List.flatMap_cons, List.flatMap_nil, List.prefix_nil, List.append_eq_nil_iff]
      exact ⟨fun h => absurd h.1 hne.1, fun h => absurd h (List.cons_ne_nil _ _)⟩
    | cons y ys =>
      rw [List.forall_mem_cons] at hys
      rw [List.flatMap_cons, List.flatMap_cons, List.cons_prefix_cons]
      constructor
      · rintro ⟨rest, h⟩
        rw [List.append_assoc] at h
        obtain ⟨rfl, htail⟩ := hencode x y _ _ hxs.1 hys.1 h
        exact ⟨rfl, (ih hxs.2 hys.2 hne.2).mp ⟨rest, htail⟩⟩
      · rintro ⟨rfl, htail⟩
        exact (List.prefix_append_right_inj _).mpr ((ih hxs.2 hys.2 hne.2).mpr htail)

end prefix_order
