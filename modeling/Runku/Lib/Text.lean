import Mathlib.Data.List.DropRight

namespace text

variable {α : Type} {separator : α} {words : List (List α)}

theorem mem_intercalate {c : α} (h : c ∈ [separator].intercalate words) :
    c = separator ∨ ∃ word ∈ words, c ∈ word := by
  induction words with
  | nil => cases h
  | cons word words ih =>
    by_cases hwords : words = []
    · subst hwords
      rw [List.intercalate_singleton] at h
      exact .inr ⟨word, List.mem_singleton_self _, h⟩
    · rw [List.intercalate_cons_of_ne_nil hwords, List.mem_append, List.mem_append, List.mem_singleton] at h
      rcases h with (h | h) | h
      · exact .inr ⟨word, List.mem_cons_self, h⟩
      · exact .inl h
      · exact (ih h).imp_right fun ⟨w, hw, hc⟩ => ⟨w, List.mem_cons_of_mem _ hw, hc⟩

/-- Words of at most `n` items, each with one separator. -/
theorem length_intercalate_le {n : Nat} (h : ∀ word ∈ words, word.length ≤ n) :
    ([separator].intercalate words).length ≤ words.length * (n + 1) := by
  induction words with
  | nil => simp [List.intercalate_nil]
  | cons word words ih =>
    rw [List.forall_mem_cons] at h
    have hrest := ih h.2
    by_cases hwords : words = []
    · subst hwords
      rw [List.intercalate_singleton, List.length_singleton]
      omega
    · rw [List.intercalate_cons_of_ne_nil hwords, List.length_append, List.length_append, List.length_singleton,
        List.length_cons, Nat.add_mul]
      omega

theorem intercalate_ne_nil (hne : words ≠ []) (h : ∀ word ∈ words, word ≠ []) :
    [separator].intercalate words ≠ [] := by
  obtain ⟨word, words, rfl⟩ := List.exists_cons_of_ne_nil hne
  rw [List.forall_mem_cons] at h
  by_cases hwords : words = []
  · subst hwords
    rw [List.intercalate_singleton]
    exact h.1
  · rw [List.intercalate_cons_of_ne_nil hwords, List.append_assoc]
    exact List.append_ne_nil_of_left_ne_nil h.1 _

section
variable [DecidableEq α]

theorem splitOn_eq_singleton {word : List α} (h : separator ∉ word) : word.splitOn separator = [word] := by
  have hsplit := @List.splitOn_intercalate _ [word] _ _ separator (by simpa using h) (by simp)
  simpa using hsplit

/-- Between two separators that meet stands an empty word. -/
theorem nil_mem_tail_splitOn (separator : α) (before after : List α) :
    [] ∈ ((before ++ separator :: separator :: after).splitOn separator).tail := by
  induction before with
  | nil =>
    simp [List.splitOn_eq_splitOnP, List.splitOnP_cons_eq_if_modifyHead]
  | cons c before ih =>
    rw [List.splitOn_eq_splitOnP] at ih ⊢
    rw [List.cons_append, List.splitOnP_cons_eq_if_modifyHead]
    split
    · exact List.mem_of_mem_tail ih
    · rwa [List.tail_modifyHead]

/-- Nonempty words are joined without a double separator. -/
theorem not_infix_intercalate (hne : words ≠ []) (hword : ∀ word ∈ words, word ≠ [] ∧ separator ∉ word) :
    ¬[separator, separator] <:+: [separator].intercalate words := by
  rintro ⟨before, after, htext⟩
  have hempty := nil_mem_tail_splitOn separator before after
  rw [show before ++ separator :: separator :: after = [separator].intercalate words by rw [← htext]; simp,
    List.splitOn_intercalate separator (fun word h => (hword word h).2) hne] at hempty
  exact (hword [] (List.mem_of_mem_tail hempty)).1 rfl

end

theorem toString_toList (n : Nat) : (toString n).toList = Nat.toDigits 10 n := by
  simp [Nat.toString_eq_repr, Nat.repr]

theorem isDigit_of_mem_toString {n : Nat} {c : Char} (h : c ∈ (toString n).toList) : c.isDigit :=
  Nat.isDigit_of_mem_toDigits (by decide) (by decide) (toString_toList n ▸ h)

theorem toString_inj {m n : Nat} (h : toString m = toString n) : m = n := by
  have hdigits := congrArg (fun text => Nat.ofDigitChars 10 text.toList 0) h
  simpa only [toString_toList, Nat.ofDigitChars_ten_toDigits] using hdigits

theorem toString_negSucc (n : Nat) : (toString (Int.negSucc n)).toList = '-' :: (toString (n + 1)).toList := by
  simp [toString, Int.repr]

theorem toString_int_inj {a b : Int} (h : toString a = toString b) : a = b := by
  -- No decimal starts with a sign.
  have hsign (m n : Nat) : toString (Int.ofNat m) ≠ toString (Int.negSucc n) := by
    intro h
    have hmem : '-' ∈ (toString m).toList := by
      rw [show (toString m).toList = (toString (Int.negSucc n)).toList from congrArg String.toList h, toString_negSucc]
      exact List.mem_cons_self
    exact absurd (isDigit_of_mem_toString hmem) (by decide)
  cases a with
  | ofNat m =>
    cases b with
    | ofNat n => rw [toString_inj h]
    | negSucc n => exact absurd h (hsign m n)
  | negSucc m =>
    cases b with
    | ofNat n => exact absurd h.symm (hsign n m)
    | negSucc n =>
      have htext := congrArg String.toList h
      rw [toString_negSucc, toString_negSucc, List.cons.injEq] at htext
      have hsucc := toString_inj (String.toList_injective htext.2)
      omega

end text
