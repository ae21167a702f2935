import Mathlib.Logic.Basic

inductive Program (Op : Type) (Answer : Op → Type) (α : Type) : Type
  | done (value : α)
  | call (op : Op) (next : Answer op → Program Op Answer α)

namespace Program

section
variable {Op : Type} {Answer : Op → Type} {α σ τ : Type}

/-- Runs the code against a session: its value and the state it leaves. -/
def run (serve : (op : Op) → σ → Answer op × σ) : Program Op Answer α → σ → α × σ
  | .done value, s => (value, s)
  | .call op next, s => (next (serve op s).1).run serve (serve op s).2

variable {serve : (op : Op) → σ → Answer op × σ} {serve' : (op : Op) → τ → Answer op × τ}

/-- What every call preserves holds after the run. -/
theorem run_invariant {I : σ → Prop} (hstep : ∀ op s, I s → I (serve op s).2) (p : Program Op Answer α) {s : σ}
    (h : I s) : I (p.run serve s).2 := by
  induction p generalizing s with
  | done value => exact h
  | call op next ih => exact ih _ (hstep op s h)

/-- What no call can establish held before the run if it holds after it. -/
theorem run_back {P : σ → Prop} (hback : ∀ op s, P (serve op s).2 → P s) (p : Program Op Answer α) {s : σ}
    (h : P (p.run serve s).2) : P s := by
  induction p generalizing s with
  | done value => exact h
  | call op next ih => exact hback op s (ih _ h)

/-- Two sessions that answer alike, as long as the first keeps `P`, give the code the same value. -/
theorem run_simulation {P : σ → Prop} {R : σ → τ → Prop} (hback : ∀ op s, P (serve op s).2 → P s)
    (hstep : ∀ op s t, R s t → P (serve op s).2 → (serve op s).1 = (serve' op t).1 ∧ R (serve op s).2 (serve' op t).2)
    (p : Program Op Answer α) {s : σ} {t : τ} (hR : R s t) (hP : P (p.run serve s).2) :
    (p.run serve s).1 = (p.run serve' t).1 ∧ R (p.run serve s).2 (p.run serve' t).2 := by
  induction p generalizing s t with
  | done value => exact ⟨rfl, hR⟩
  | call op next ih =>
    obtain ⟨hanswer, hR'⟩ := hstep op s t hR ((next _).run_back hback hP)
    rw [run, run, ← hanswer]
    exact ih _ hR' hP

end

end Program
