import Mathlib.Data.List.Forall2

namespace fallible

universe u v

variable {ε : Type u} {α β : Type v}

variable {f : α → Except ε β} {x : Except ε α}

theorem bind_eq_ok_iff {b : β} : (x >>= f) = .ok b ↔ ∃ a, x = .ok a ∧ f a = .ok b := by
  cases x with
  | error e => constructor <;> intro h <;> simp_all [bind, Except.bind]
  | ok a => simp [bind, Except.bind]

@[simp]
theorem ok_bind (a : α) (f : α → Except ε β) : (Except.ok a >>= f) = f a := rfl

@[simp]
theorem error_bind (e : ε) (f : α → Except ε β) : (Except.error e >>= f) = .error e := rfl

@[simp]
theorem pure_eq_ok (a : α) : (pure a : Except ε α) = .ok a := rfl

variable {e : ε}

/-- A guard succeeds exactly when its condition fails to hold. -/
theorem ite_error_eq_ok_iff {c : Prop} [Decidable c] {a : α} :
    (if c then .error e else x) = .ok a ↔ ¬c ∧ x = .ok a := by
  by_cases hc : c <;> simp [hc]

/-- A computation whose only error is `e`. -/
def FailsWith (e : ε) (x : Except ε α) : Prop := ∀ error, x = .error error → error = e

theorem FailsWith.ok (a : α) : FailsWith e (.ok a) := nofun

theorem FailsWith.error : FailsWith e (.error e : Except ε α) :=
  fun _ h => (Except.error.inj h).symm

theorem FailsWith.bind (hx : FailsWith e x) (hf : ∀ a, FailsWith e (f a)) : FailsWith e (x >>= f) := by
  cases x with
  | error error =>
    intro error' h
    obtain rfl := Except.error.inj h
    exact hx error rfl
  | ok a => exact hf a

variable {xs : List α} {ys : List β}

/-- A traversal that succeeds succeeded on every item. -/
theorem mapM_eq_ok (h : xs.mapM f = .ok ys) : List.Forall₂ (fun x y => f x = .ok y) xs ys := by
  induction xs generalizing ys with
  | nil =>
    rw [List.mapM_nil] at h
    cases h
    exact .nil
  | cons x xs ih =>
    rw [List.mapM_cons] at h
    obtain ⟨y, hy, h⟩ := bind_eq_ok_iff.mp h
    obtain ⟨ys', hys', h⟩ := bind_eq_ok_iff.mp h
    cases h
    exact .cons hy (ih hys')

theorem mapM_eq_ok_iff : xs.mapM f = .ok ys ↔ List.Forall₂ (fun x y => f x = .ok y) xs ys := by
  refine ⟨mapM_eq_ok, fun h => ?_⟩
  induction h with
  | nil => exact List.mapM_nil
  | cons hhead _ ih => rw [List.mapM_cons, hhead, ok_bind, ih, ok_bind, pure_eq_ok]

theorem exists_of_mapM_eq_ok (h : xs.mapM f = .ok ys) {x : α} (hx : x ∈ xs) : ∃ y ∈ ys, f x = .ok y := by
  have hall := mapM_eq_ok h
  clear h
  induction hall with
  | nil => cases hx
  | cons hhead _ ih =>
    rcases List.mem_cons.mp hx with rfl | hx
    · exact ⟨_, List.mem_cons_self, hhead⟩
    · obtain ⟨y, hy, hfy⟩ := ih hx
      exact ⟨y, List.mem_cons_of_mem _ hy, hfy⟩

theorem exists_of_mem_mapM (h : xs.mapM f = .ok ys) {y : β} (hy : y ∈ ys) : ∃ x ∈ xs, f x = .ok y := by
  have hall := mapM_eq_ok h
  clear h
  induction hall with
  | nil => cases hy
  | cons hhead _ ih =>
    rcases List.mem_cons.mp hy with rfl | hy
    · exact ⟨_, List.mem_cons_self, hhead⟩
    · obtain ⟨x, hx, hfx⟩ := ih hy
      exact ⟨x, List.mem_cons_of_mem _ hx, hfx⟩

/-- A traversal succeeds when it succeeds on every item. -/
theorem exists_mapM_eq_ok (h : ∀ x ∈ xs, ∃ y, f x = .ok y) : ∃ ys, xs.mapM f = .ok ys := by
  induction xs with
  | nil => exact ⟨[], List.mapM_nil⟩
  | cons x xs ih =>
    rw [List.forall_mem_cons] at h
    obtain ⟨y, hy⟩ := h.1
    obtain ⟨ys, hys⟩ := ih h.2
    exact ⟨y :: ys, by rw [List.mapM_cons, hy, ok_bind, hys, ok_bind, pure_eq_ok]⟩

/-- What the lists of a successful traversal contain. -/
theorem mem_flatten_of_mapM_eq_ok {f : α → Except ε (List β)} {yss : List (List β)}
    (h : xs.mapM f = .ok yss) {b : β} : b ∈ yss.flatten ↔ ∃ x ∈ xs, ∃ ys, f x = .ok ys ∧ b ∈ ys := by
  have hall := mapM_eq_ok h
  clear h
  induction hall with
  | nil => simp
  | cons hx _ ih => simp [ih, hx]

/-- A check before a step succeeds with it. -/
theorem check_bind_eq_ok_iff {check : Except ε PUnit} {a : α} :
    (check >>= fun _ => x) = .ok a ↔ check = .ok ⟨⟩ ∧ x = .ok a :=
  bind_eq_ok_iff.trans ⟨fun ⟨_, hcheck, hx⟩ => ⟨hcheck, hx⟩, fun ⟨hcheck, hx⟩ => ⟨_, hcheck, hx⟩⟩

/-- A check of every item succeeds exactly when each one does. -/
theorem forM_eq_ok_iff {f : α → Except ε PUnit} : forM xs f = .ok ⟨⟩ ↔ ∀ x ∈ xs, f x = .ok ⟨⟩ := by
  induction xs with
  | nil => exact ⟨fun _ => nofun, fun _ => rfl⟩
  | cons x xs ih =>
    rw [List.forM_cons, bind_eq_ok_iff, List.forall_mem_cons]
    exact ⟨fun ⟨_, hx, hxs⟩ => ⟨hx, ih.mp hxs⟩, fun ⟨hx, hxs⟩ => ⟨_, hx, ih.mpr hxs⟩⟩

theorem isOk_iff_exists : x.isOk = true ↔ ∃ a, x = .ok a := by
  cases x with
  | error error => exact ⟨nofun, nofun⟩
  | ok a => exact ⟨fun _ => ⟨a, rfl⟩, fun _ => rfl⟩

/-- A loop that succeeds succeeded in every round. -/
theorem exists_of_foldlM_eq_ok {f : β → α → Except ε β} {start finish : β}
    (h : xs.foldlM f start = .ok finish) {x : α} (hx : x ∈ xs) : ∃ before after, f before x = .ok after := by
  induction xs generalizing start with
  | nil => cases hx
  | cons y ys ih =>
    rw [List.foldlM_cons] at h
    obtain ⟨next, hnext, hrest⟩ := bind_eq_ok_iff.mp h
    rcases List.mem_cons.mp hx with rfl | hx
    · exact ⟨start, next, hnext⟩
    · exact ih hrest hx

end fallible
