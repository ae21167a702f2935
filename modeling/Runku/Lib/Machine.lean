import Mathlib.Data.Option.Basic

namespace machine

variable {σ α : Type} (step : σ → α → σ)

/-- The state after the actions. -/
def run (s : σ) (actions : List α) : σ := actions.foldl step s

/-- Every action meets the condition in the state in which it is taken. -/
def Meets (condition : σ → α → Prop) : σ → List α → Prop
  | _, [] => True
  | s, action :: actions => condition s action ∧ Meets condition (step s action) actions

instance decidableMeets (condition : σ → α → Prop) [∀ s action, Decidable (condition s action)] :
    (s : σ) → (actions : List α) → Decidable (Meets step condition s actions)
  | _, [] => inferInstanceAs (Decidable True)
  | s, action :: actions =>
    have := decidableMeets condition (step s action) actions
    inferInstanceAs (Decidable (_ ∧ _))

/-- What the actions yield, each in the state in which it is taken. -/
def yields {β : Type} (f : σ → α → Option β) : σ → List α → List β
  | _, [] => []
  | s, action :: actions => (f s action).toList ++ yields f (step s action) actions

variable {step}

/-- What one action keeps, a run keeps. -/
theorem run_induction {condition : σ → α → Prop} {inv : σ → Prop}
    (hstep : ∀ s action, condition s action → inv s → inv (step s action)) {s : σ} {actions : List α}
    (hrun : Meets step condition s actions) (hs : inv s) : inv (run step s actions) := by
  induction actions generalizing s with
  | nil => exact hs
  | cons action actions ih => exact ih hrun.2 (hstep s action hrun.1 hs)

theorem run_append (s : σ) (as bs : List α) : run step s (as ++ bs) = run step (run step s as) bs :=
  List.foldl_append

theorem meets_append {condition : σ → α → Prop} {s : σ} {as bs : List α} :
    Meets step condition s (as ++ bs) ↔ Meets step condition s as ∧ Meets step condition (run step s as) bs := by
  induction as generalizing s with
  | nil => simp [Meets, run]
  | cons a as ih =>
    rw [List.cons_append, Meets, ih, Meets, and_assoc]
    rfl

theorem Meets.and {p q : σ → α → Prop} {s : σ} {actions : List α} (hp : Meets step p s actions)
    (hq : Meets step q s actions) : Meets step (fun s action => p s action ∧ q s action) s actions := by
  induction actions generalizing s with
  | nil => trivial
  | cons action actions ih => exact ⟨⟨hp.1, hq.1⟩, ih hp.2 hq.2⟩

theorem meets_of_forall {p : α → Prop} {s : σ} {actions : List α} (h : ∀ action ∈ actions, p action) :
    Meets step (fun _ action => p action) s actions := by
  induction actions generalizing s with
  | nil => trivial
  | cons action actions ih =>
    rw [List.forall_mem_cons] at h
    exact ⟨h.1, ih h.2⟩

theorem yields_concat {β : Type} (f : σ → α → Option β) (s : σ) (actions : List α) (action : α) :
    yields step f s (actions ++ [action]) = yields step f s actions ++ (f (run step s actions) action).toList := by
  induction actions generalizing s with
  | nil => simp [yields, run]
  | cons first actions ih =>
    rw [List.cons_append, yields, yields, ih, List.append_assoc]
    rfl

end machine
