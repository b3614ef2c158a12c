/-
Machines that answer every input: `f : σ → α → ρ × σ` gives the answer and the next state. Two
machines over the same inputs are compared by a relation on their states that every input keeps.
-/
import Mathlib.Data.List.Basic

namespace InfoWorkshop.Answers

variable {σ τ α ρ π : Type*}

/-- The answers to the inputs `as`, and the state after them. -/
def run (f : σ → α → ρ × σ) : σ → List α → List ρ × σ
  | s, [] => ([], s)
  | s, a :: as => ((f s a).1 :: (run f (f s a).2 as).1, (run f (f s a).2 as).2)

@[simp] theorem run_nil (f : σ → α → ρ × σ) (s : σ) : run f s [] = ([], s) := rfl

@[simp] theorem run_cons (f : σ → α → ρ × σ) (s : σ) (a : α) (as : List α) :
    run f s (a :: as) = ((f s a).1 :: (run f (f s a).2 as).1, (run f (f s a).2 as).2) := rfl

/-- A relation that every input keeps relates the states after any inputs. -/
theorem run_related {f : σ → α → ρ × σ} {g : τ → α → ρ × τ} {R : σ → τ → Prop}
    (hR : ∀ s t a, R s t → R (f s a).2 (g t a).2) {s : σ} {t : τ} (h : R s t) (as : List α) :
    R (run f s as).2 (run g t as).2 := by
  induction as generalizing s t with
  | nil => exact h
  | cons a as ih => exact ih (hR s t a h)

/-- When the first answers agree exactly if `C` and the answers after them exactly if `D`, all of them
agree exactly if both. -/
theorem run_answers_cons {f : σ → α → ρ × σ} {g : τ → α → ρ × τ} {s : σ} {t : τ} {a : α} {as : List α}
    {C D : Prop} (hC : (f s a).1 = (g t a).1 ↔ C)
    (hD : (run f (f s a).2 as).1 = (run g (g t a).2 as).1 ↔ D) :
    (run f s (a :: as)).1 = (run g t (a :: as)).1 ↔ C ∧ D := by
  rw [run_cons, run_cons, List.cons.injEq, hC, hD]

end InfoWorkshop.Answers
